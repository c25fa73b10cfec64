import Jvm.Proofs.Machine.StackList
import Jvm.Proofs.Machine.Work

/-! # Operand stacks in a row of cells

An operand stack as it lies in memory: a row of cells of fixed length, the lowest slot first, and
the number of cells in use. The cell behind those is written by a push, and a pop only moves the
mark. Here a cell is reached by its index, so work can touch a cell that the row does not have, and
what fails can have changed the row before. Started from the row of a stack, neither happens: the
work for a step ends with the answer of the step in the row of the stack after it, or fails in the
row that it began with (`StackStep.onCells_row`). -/

namespace Jvm

/-- Cells in a row, the first `top` of them in use. -/
structure CellRow where
  cells : Array Slot
  top : Nat

namespace CellRow

/-- Zeroed cells, none of them in use. -/
def zeroed (length : Nat) : CellRow := ⟨.replicate length {}, 0⟩

def moveTop (f : Nat → Nat) : Work CellRow Unit := Work.change fun row =>
  { row with top := f row.top }

def read (index : Nat) : Work CellRow Slot := fun row =>
  match row.cells[index]? with
  | some slot => .done slot row
  | none => .stuck

def write (index : Nat) (slot : Slot) : Work CellRow Unit := fun row =>
  if h : index < row.cells.size then .done () { row with cells := row.cells.set index slot h }
  else .stuck

/-- Fails unless so many cells are spare. -/
def reserve (count : Nat) : Work CellRow Unit := fun row =>
  if row.cells.size - row.top < count then .failed (.operandOverflow row.cells.size) row
  else .done () row

/-- Takes so many cells out of use. -/
def release (count : Nat) : Work CellRow Unit := fun row =>
  if row.top < count then .failed .operandUnderflow row
  else .done () { row with top := row.top - count }

def push (slot : Slot) : Work CellRow Unit := do
  reserve 1
  let top ← Work.look CellRow.top
  write top slot
  moveTop (· + 1)

def pushPair (first second : Slot) : Work CellRow Unit := do
  reserve 2
  let top ← Work.look CellRow.top
  write top first
  write (top + 1) second
  moveTop (· + 2)

def pop : Work CellRow Slot := do
  release 1
  let top ← Work.look CellRow.top
  read top

def popPair : Work CellRow (Slot × Slot) := do
  release 2
  let top ← Work.look CellRow.top
  let first ← read top
  let second ← read (top + 1)
  return (first, second)

def peek (depth : Nat) : Work CellRow Slot := fun row =>
  if row.top < depth + 1 then .failed .operandUnderflow row else read (row.top - (depth + 1)) row

end CellRow

open CellRow Work

/-- The cells of a stack in a row. -/
def OperandStack.row (stack : OperandStack) : CellRow :=
  ⟨(stack.inUse.reverse ++ stack.spare).toArray, stack.size⟩

namespace CellRow

variable {inUse front back : List Slot} {slot old : Slot} {stack : OperandStack}

theorem reserve_row_of_le {count : Nat} (h : count ≤ stack.spare.length) :
    reserve count stack.row = .done () stack.row := by
  simp [reserve, OperandStack.row, OperandStack.size, Nat.not_lt.mpr h]

theorem reserve_row_of_lt {count : Nat} (h : stack.spare.length < count) :
    reserve count stack.row = .failed (.operandOverflow stack.capacity) stack.row := by
  simp [reserve, OperandStack.row, OperandStack.size, OperandStack.capacity, h]

theorem release_row_of_lt {count : Nat} (h : stack.inUse.length < count) :
    release count stack.row = .failed .operandUnderflow stack.row := by
  simp [release, OperandStack.row, OperandStack.size, h]

/-- Moving the mark down leaves the cells above it as they are. -/
theorem release_row : release front.length (OperandStack.row ⟨front ++ inUse, back⟩) =
    .done () (OperandStack.row ⟨inUse, front.reverse ++ back⟩) := by
  simp [release, OperandStack.row, OperandStack.size]

/-- Moving the mark up takes the spare cells next to it into use. -/
theorem moveTop_row : moveTop (· + front.length) (OperandStack.row ⟨inUse, front ++ back⟩) =
    .done () (OperandStack.row ⟨front.reverse ++ inUse, back⟩) := by
  simp [moveTop, change_apply, OperandStack.row, OperandStack.size, Nat.add_comm]

theorem look_top_row : look CellRow.top stack.row = .done stack.inUse.length stack.row := rfl

theorem write_row : write (inUse.length + front.length) slot
    (OperandStack.row ⟨inUse, front ++ old :: back⟩) =
      .done () (OperandStack.row ⟨inUse, front ++ slot :: back⟩) := by
  simp [write, OperandStack.row, OperandStack.size]

theorem read_row : read (inUse.length + front.length)
    (OperandStack.row ⟨inUse, front ++ slot :: back⟩) =
      .done slot (OperandStack.row ⟨inUse, front ++ slot :: back⟩) := by
  simp [read, OperandStack.row]

theorem push_row (slot : Slot) : push slot stack.row =
    .ofAnswer OperandStack.row stack (((), ·) <$> stack.push slot) := by
  obtain ⟨inUse, spare⟩ := stack
  cases spare with
  | nil =>
    rw [push, bind_apply, reserve_row_of_lt (Nat.lt_succ_self 0)]
    rfl
  | cons old spare =>
    have hwrite : write inUse.length slot (OperandStack.row ⟨inUse, old :: spare⟩) =
        .done () (OperandStack.row ⟨inUse, slot :: spare⟩) := @write_row inUse [] spare slot old
    have hmove : moveTop (· + 1) (OperandStack.row ⟨inUse, slot :: spare⟩) =
        .done () (OperandStack.row ⟨slot :: inUse, spare⟩) := @moveTop_row inUse [slot] spare
    rw [push, bind_apply, reserve_row_of_le (by simp)]
    simp only [bind_apply, look_top_row, hwrite, hmove]
    rfl

theorem pushPair_row (first second : Slot) : pushPair first second stack.row =
    .ofAnswer OperandStack.row stack (((), ·) <$> stack.pushPair first second) := by
  obtain ⟨inUse, spare⟩ := stack
  match spare with
  | [] | [_] =>
    rw [pushPair, bind_apply, reserve_row_of_lt (by simp)]
    rfl
  | old :: other :: spare =>
    have hfirst : write inUse.length first (OperandStack.row ⟨inUse, old :: other :: spare⟩) =
        .done () (OperandStack.row ⟨inUse, first :: other :: spare⟩) :=
      @write_row inUse [] (other :: spare) first old
    have hsecond : write (inUse.length + 1) second
        (OperandStack.row ⟨inUse, first :: other :: spare⟩) =
          .done () (OperandStack.row ⟨inUse, first :: second :: spare⟩) :=
      @write_row inUse [first] spare second other
    have hmove : moveTop (· + 2) (OperandStack.row ⟨inUse, first :: second :: spare⟩) =
        .done () (OperandStack.row ⟨second :: first :: inUse, spare⟩) :=
      @moveTop_row inUse [first, second] spare
    rw [pushPair, bind_apply, reserve_row_of_le (by simp)]
    simp only [bind_apply, look_top_row, hfirst, hsecond, hmove]
    rfl

theorem pop_row : pop stack.row = .ofAnswer OperandStack.row stack stack.pop := by
  obtain ⟨inUse, spare⟩ := stack
  cases inUse with
  | nil =>
    rw [pop, bind_apply, release_row_of_lt (Nat.lt_succ_self 0)]
    rfl
  | cons top below =>
    have hrelease : release 1 (OperandStack.row ⟨top :: below, spare⟩) =
        .done () (OperandStack.row ⟨below, top :: spare⟩) := @release_row below [top] spare
    have hread : read below.length (OperandStack.row ⟨below, top :: spare⟩) =
        .done top (OperandStack.row ⟨below, top :: spare⟩) := @read_row below [] spare top
    simp only [pop, bind_apply, hrelease, look_top_row, hread]
    rfl

theorem popPair_row : popPair stack.row = .ofAnswer OperandStack.row stack stack.popPair := by
  obtain ⟨inUse, spare⟩ := stack
  match inUse with
  | [] | [_] =>
    rw [popPair, bind_apply, release_row_of_lt (by simp)]
    rfl
  | second :: first :: below =>
    have hrelease : release 2 (OperandStack.row ⟨second :: first :: below, spare⟩) =
        .done () (OperandStack.row ⟨below, first :: second :: spare⟩) :=
      @release_row below [second, first] spare
    have hfirst : read below.length (OperandStack.row ⟨below, first :: second :: spare⟩) =
        .done first (OperandStack.row ⟨below, first :: second :: spare⟩) :=
      @read_row below [] (second :: spare) first
    have hsecond : read (below.length + 1) (OperandStack.row ⟨below, first :: second :: spare⟩) =
        .done second (OperandStack.row ⟨below, first :: second :: spare⟩) :=
      @read_row below [first] spare second
    simp only [popPair, bind_apply, pure_apply, hrelease, look_top_row, hfirst, hsecond]
    rfl

theorem peek_row (depth : Nat) : peek depth stack.row =
    .ofAnswer OperandStack.row stack ((·, stack) <$> stack.peek depth) := by
  by_cases h : depth < stack.inUse.length
  · have hcell : (stack.inUse.reverse ++ stack.spare)[stack.inUse.length - (depth + 1)]? =
        some stack.inUse[depth] := by
      rw [List.getElem?_append_left (by simp; omega), List.getElem?_reverse (by omega)]
      rw [List.getElem?_eq_some_iff]
      exact ⟨by omega, by congr 1; omega⟩
    have hread : read (stack.inUse.length - (depth + 1)) stack.row =
        .done stack.inUse[depth] stack.row := by
      simp [read, OperandStack.row, hcell]
    have hpeek : stack.peek depth = .ok stack.inUse[depth] := by
      rw [OperandStack.peek, List.getElem?_eq_getElem h]
    have hsize : ¬ stack.row.top < depth + 1 := Nat.not_lt.mpr h
    rw [peek, if_neg hsize, hpeek]
    exact hread
  · have hpeek : stack.peek depth = .error .operandUnderflow := by
      rw [OperandStack.peek, List.getElem?_eq_none (Nat.not_lt.mp h)]
    have hsize : stack.row.top < depth + 1 := Nat.lt_succ_of_le (Nat.not_lt.mp h)
    rw [peek, if_pos hsize, hpeek]
    rfl

end CellRow

namespace StackStep

/-- The work that a step means. -/
def onCells : StackStep → Work CellRow Reply
  | size => look fun row => .count row.top
  | capacity => look fun row => .count row.cells.size
  | isEmpty => look fun row => .flag (row.top == 0)
  | clear => do
    moveTop fun _ => 0
    return .done
  | peek depth => do
    let slot ← CellRow.peek depth
    return .slot slot
  | push slot => do
    CellRow.push slot
    return .done
  | pushInt value => do
    CellRow.push (.ofInt value)
    return .done
  | pushFloat value => do
    CellRow.push (.ofFloat value)
    return .done
  | pushLong value => do
    CellRow.pushPair (.ofInt (lowHalf value)) (.ofInt (highHalf value))
    return .done
  | pushDouble value => do
    let bits := longOfDouble value
    CellRow.pushPair (.ofInt (lowHalf bits)) (.ofInt (highHalf bits))
    return .done
  | pushReference value => do
    CellRow.push (.ofReference value)
    return .done
  | pop => do
    let slot ← CellRow.pop
    return .slot slot
  | popInt => do
    let slot ← CellRow.pop
    return .int slot.int
  | popFloat => do
    let slot ← CellRow.pop
    return .float slot.float
  | popLong => do
    let (low, high) ← CellRow.popPair
    return .long (joinHalves low.int high.int)
  | popDouble => do
    let (low, high) ← CellRow.popPair
    return .double (doubleOfLong (joinHalves low.int high.int))
  | popReference => do
    let slot ← CellRow.pop
    return .reference slot.reference

/-- The run of a list of steps, unless one of them touches a cell that the row does not have. -/
def runOnCells (row : CellRow) (steps : List StackStep) :
    Option (List (Except MachineError Reply × CellRow)) := Work.run onCells row steps

/-- The work for a step ends as the step does, touches no cell outside and changes none if it
fails. -/
theorem onCells_row (step : StackStep) (stack : OperandStack) :
    step.onCells stack.row = .ofAnswer OperandStack.row stack (step.act stack) := by
  cases step with
  | size => rfl
  | capacity => simp [onCells, act, look, Result.ofAnswer_ok, OperandStack.row, OperandStack.capacity]
  | isEmpty =>
    cases h : stack.inUse <;>
      simp [onCells, act, look, Result.ofAnswer_ok, OperandStack.row, OperandStack.size,
        OperandStack.isEmpty, h]
  | clear =>
    simp [onCells, act, bind_apply, pure_apply, moveTop, change_apply, Result.ofAnswer_ok,
      OperandStack.clear, OperandStack.row, OperandStack.size]
  | peek depth =>
    rw [onCells, bind_pure_of_ofAnswer (peek_row depth), act]
    cases stack.peek depth <;> rfl
  | push slot =>
    rw [onCells, bind_pure_of_ofAnswer (push_row slot), act]
    cases stack.push slot <;> rfl
  | pushInt value =>
    rw [onCells, bind_pure_of_ofAnswer (push_row _), act, OperandStack.pushInt]
    cases stack.push (.ofInt value) <;> rfl
  | pushFloat value =>
    rw [onCells, bind_pure_of_ofAnswer (push_row _), act, OperandStack.pushFloat]
    cases stack.push (.ofFloat value) <;> rfl
  | pushReference value =>
    rw [onCells, bind_pure_of_ofAnswer (push_row _), act, OperandStack.pushReference]
    cases stack.push (.ofReference value) <;> rfl
  | pushLong value =>
    rw [onCells, bind_pure_of_ofAnswer (pushPair_row _ _), act, OperandStack.pushLong]
    cases stack.pushPair (.ofInt (lowHalf value)) (.ofInt (highHalf value)) <;> rfl
  | pushDouble value =>
    simp only [onCells, bind_pure_of_ofAnswer (pushPair_row _ _), act, OperandStack.pushDouble,
      OperandStack.pushLong]
    cases stack.pushPair (.ofInt (lowHalf (longOfDouble value)))
      (.ofInt (highHalf (longOfDouble value))) <;> rfl
  | pop =>
    rw [onCells, bind_pure_of_ofAnswer pop_row, act]
    cases stack.pop <;> rfl
  | popInt =>
    rw [onCells, bind_pure_of_ofAnswer pop_row, act, OperandStack.popInt]
    cases stack.pop <;> rfl
  | popFloat =>
    rw [onCells, bind_pure_of_ofAnswer pop_row, act, OperandStack.popFloat]
    cases stack.pop <;> rfl
  | popReference =>
    rw [onCells, bind_pure_of_ofAnswer pop_row, act, OperandStack.popReference]
    cases stack.pop <;> rfl
  | popLong =>
    rw [onCells, bind_apply, popPair_row, act, OperandStack.popLong]
    cases stack.popPair <;> rfl
  | popDouble =>
    rw [onCells, bind_apply, popPair_row, act, OperandStack.popDouble, OperandStack.popLong]
    cases stack.popPair <;> rfl

theorem runOnCells_row (stack : OperandStack) (steps : List StackStep) :
    runOnCells stack.row steps =
      some ((act.run stack steps).map (Prod.map id OperandStack.row)) :=
  Work.run_eq_of_forall onCells_row

/-- An operand stack is a list of at most so many slots: every answer and the slots in use after
every step are those of the list. In the row of cells that the stack lies in no step touches a cell
that is not there, and a step that fails leaves the row as the step in front of it did. -/
theorem run_ofCapacity (length : Nat) (steps : List StackStep) :
    let outcomes := act.run (.ofCapacity length) steps
    outcomes.map (Prod.map id OperandStack.inUse) = (onList length).run [] steps ∧
    (∀ outcome ∈ outcomes, outcome.2.capacity = length ∧ outcome.2.size ≤ length) ∧
    ∃ rows, runOnCells (.zeroed length) steps = some rows ∧
      rows = outcomes.map (Prod.map id OperandStack.row) ∧
      ∀ (k : Nat) fault row, rows[k]? = some (.error fault, row) →
        (CellRow.zeroed length :: rows.map Prod.snd)[k]? = some row := by
  intro outcomes
  have hrow : (OperandStack.ofCapacity length).row = .zeroed length := by
    simp [OperandStack.ofCapacity, OperandStack.row, OperandStack.size, CellRow.zeroed]
  refine ⟨?_, fun outcome hmem => ?_, _, hrow ▸ runOnCells_row _ steps, rfl, ?_⟩
  · have hlist := run_onList (.ofCapacity length) steps
    rw [OperandStack.capacity_ofCapacity] at hlist
    exact hlist.symm
  · have hkept := (run_capacity outcome hmem).trans (OperandStack.capacity_ofCapacity length)
    refine ⟨hkept, ?_⟩
    rw [← hkept]
    exact Nat.le_add_right _ _
  · intro k fault row hfault
    rw [← hrow]
    exact Work.kept_of_run_failed hfault

end StackStep

end Jvm
