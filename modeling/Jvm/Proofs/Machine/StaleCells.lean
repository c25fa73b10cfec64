import Jvm.Proofs.Machine.StackCells
import Jvm.Proofs.Machine.TypedStack

/-! # Slots left above the top

Equality of operand stacks compares the cells above the top as well, where a slot that was popped
or cleared still is. A run leaves in each cell the slot that it wrote there last
(`StackStep.cellAt_stateAt`), so stacks with the same slots in use are equal exactly if the same
slots were written last above them, and an empty stack may differ from a fresh one
(`StackStep.same_iff_lastWritten`). -/

namespace Jvm

namespace OperandStack

variable {stack next other : OperandStack} {values : List Slot} {height : Nat}

/-- The slot in the cell at a height, in use or not. -/
def cellAt (stack : OperandStack) (height : Nat) : Option Slot := stack.row.cells[height]?

theorem cellAt_size_add (stack : OperandStack) (i : Nat) :
    stack.cellAt (stack.size + i) = stack.spare[i]? := by
  simp [cellAt, row, size, List.getElem?_append_right]

theorem cellAt_ofCapacity (length height : Nat) :
    (ofCapacity length).cellAt height = if height < length then some {} else none := by
  simp [cellAt, row, ofCapacity, Array.getElem?_replicate]

theorem cellAt_of_capacity_le (h : stack.capacity ≤ height) : stack.cellAt height = none := by
  apply Array.getElem?_eq_none
  simpa [row, capacity] using h

/-- Equality sees the slots in use and the cells above them. -/
theorem eq_iff_cellAt (h : stack.capacity = other.capacity) : stack = other ↔
    stack.inUse = other.inUse ∧ ∀ height, stack.size ≤ height → height < stack.capacity →
      stack.cellAt height = other.cellAt height := by
  constructor
  · rintro rfl
    exact ⟨rfl, fun _ _ _ => rfl⟩
  · rintro ⟨hinUse, hcells⟩
    have hsize : stack.size = other.size := congrArg List.length hinUse
    have hspare : stack.spare = other.spare := by
      apply List.ext_getElem?
      intro i
      rw [← cellAt_size_add, ← cellAt_size_add, ← hsize]
      by_cases hheight : stack.size + i < stack.capacity
      · exact hcells _ (Nat.le_add_right _ _) hheight
      · have hbeyond : stack.capacity ≤ stack.size + i := Nat.le_of_not_lt hheight
        rw [cellAt_of_capacity_le hbeyond, cellAt_of_capacity_le (h ▸ hbeyond)]
    obtain ⟨_, _⟩ := stack
    exact congr (congrArg OperandStack.mk hinUse) hspare

/-- Only the cells that took the values changed, and those that the top went over kept theirs. -/
theorem Moved.cellAt_eq (h : stack.Moved values next) : next.cellAt height =
    (if stack.size ≤ height then values[height - stack.size]? else none).or
      (stack.cellAt height) := by
  cases h with
  | up inUse back h =>
    simp only [cellAt, row, size, List.reverse_append, List.reverse_reverse, List.append_assoc,
      List.getElem?_toArray, List.getElem?_append, List.length_reverse]
    grind
  | down front inUse back =>
    simp [cellAt, row]

theorem Moved.cellAt_same (h : stack.Moved [] next) : next.cellAt height = stack.cellAt height := by
  rw [h.cellAt_eq]
  simp

theorem clear_eq_ofCapacity_iff : stack.clear = ofCapacity stack.capacity ↔
    ∀ height, height < stack.capacity → stack.cellAt height = some {} := by
  have hcapacity : stack.clear.capacity = stack.capacity := (moved_clear stack).capacity_eq
  have hzeroed {height : Nat} (h : height < stack.capacity) :
      (ofCapacity stack.capacity).cellAt height = some {} := by
    rw [cellAt_ofCapacity, if_pos h]
  rw [eq_iff_cellAt (hcapacity.trans (capacity_ofCapacity _).symm), hcapacity]
  simp only [(moved_clear stack).cellAt_same]
  constructor
  · rintro ⟨-, hcells⟩ height hheight
    rw [hcells height (Nat.zero_le _) hheight, hzeroed hheight]
  · intro hcells
    refine ⟨rfl, fun height _ hheight => ?_⟩
    rw [hcells height hheight, hzeroed hheight]

end OperandStack

namespace Value

variable {stack : OperandStack}

theorem exists_push (value : Value) (h : stack.size + value.kind.width ≤ stack.capacity) :
    ∃ pushed, value.push.act stack = .ok (.done, pushed) ∧
      pushed.inUse = value.slots.reverse ++ stack.inUse := by
  have hfits : stack.inUse.length + value.slots.length ≤ stack.capacity := by
    rw [value.length_slots]
    exact h
  have hpush := StackStep.onList_inUse value.push stack
  rw [value.onList_push_slots, SlotList.push, if_pos hfits] at hpush
  obtain ⟨⟨_, pushed⟩, hact, hval⟩ := map_eq_ok_iff.mp hpush.symm
  obtain ⟨rfl, hinUse⟩ := Prod.mk.inj hval
  exact ⟨pushed, hact, hinUse⟩

theorem exists_pop (value : Value) {below : List Slot}
    (h : stack.inUse = value.slots.reverse ++ below) :
    ∃ popped, value.kind.pop.act stack = .ok (value.reply, popped) ∧ popped.inUse = below := by
  have hpop := StackStep.onList_inUse value.kind.pop stack
  rw [h, value.onList_pop_slots] at hpop
  obtain ⟨⟨_, popped⟩, hact, hval⟩ := map_eq_ok_iff.mp hpop.symm
  obtain ⟨rfl, hinUse⟩ := Prod.mk.inj hval
  exact ⟨popped, hact, hinUse⟩

theorem lt_width_of_slots {value : Value} {i : Nat} {slot : Slot}
    (h : value.slots[i]? = some slot) : i < value.kind.width := by
  rw [← value.length_slots]
  exact (List.getElem?_eq_some_iff.mp h).1

theorem values_push (value : Value) : value.push.values = value.slots := by
  cases value <;> rfl

theorem values_pop (kind : Kind) : kind.pop.values = [] := by
  cases kind <;> rfl

/-- What fits is pushed and popped again, and the stack is as it was only if the slots of the value
were in the cells already. -/
theorem exists_push_pop (value : Value) (h : stack.size + value.kind.width ≤ stack.capacity) :
    ∃ pushed popped, value.push.act stack = .ok (.done, pushed) ∧
      value.kind.pop.act pushed = .ok (value.reply, popped) ∧ popped.inUse = stack.inUse ∧
      (popped = stack ↔ ∀ i slot, value.slots[i]? = some slot →
        stack.cellAt (stack.size + i) = some slot) := by
  obtain ⟨pushed, hpush, hpushed⟩ := value.exists_push h
  obtain ⟨popped, hpop, hpopped⟩ := value.exists_pop hpushed
  have hup := StackStep.moved_of_act hpush
  have hdown := StackStep.moved_of_act hpop
  rw [values_push] at hup
  rw [values_pop] at hdown
  have hcapacity : popped.capacity = stack.capacity := hdown.capacity_eq.trans hup.capacity_eq
  have hsize : popped.size = stack.size := congrArg List.length hpopped
  have hcells (i : Nat) : popped.cellAt (stack.size + i) =
      value.slots[i]?.or (stack.cellAt (stack.size + i)) := by
    rw [hdown.cellAt_same, hup.cellAt_eq, if_pos (Nat.le_add_right _ _), Nat.add_sub_cancel_left]
  refine ⟨pushed, popped, hpush, hpop, hpopped, ?_⟩
  rw [OperandStack.eq_iff_cellAt hcapacity, hsize]
  constructor
  · rintro ⟨-, hsame⟩ i slot hslot
    have hwidth := lt_width_of_slots hslot
    rw [← hsame _ (Nat.le_add_right _ _) (by omega), hcells, hslot, Option.some_or]
  · intro hheld
    refine ⟨hpopped, fun height hle _ => ?_⟩
    obtain ⟨i, rfl⟩ := Nat.exists_eq_add_of_le hle
    rw [hcells]
    cases hslot : value.slots[i]? with
    | none => rw [Option.none_or]
    | some slot => rw [Option.some_or, hheld i slot hslot]

end Value

namespace StackStep

/-- The slot that a step writes into the cell at a height: one that succeeds puts its slots on the
top of the stack. -/
def written? (stack : OperandStack) (step : StackStep) (height : Nat) : Option Slot :=
  match step.act stack with
  | .ok _ => if stack.size ≤ height then step.values[height - stack.size]? else none
  | .error _ => none

/-- The slot that the first `k` steps on a fresh stack wrote last into the cell at a height, which
is zeroed before. -/
def lastWritten (length : Nat) (steps : List StackStep) (height : Nat) : Nat → Slot
  | 0 => {}
  | k + 1 =>
    let stack := act.stateAt (.ofCapacity length) steps k
    (steps[k]?.bind fun step => written? stack step height).getD
      (lastWritten length steps height k)

variable {length height : Nat}

theorem cellAt_next (stack : OperandStack) (step : StackStep) (height : Nat) :
    (act.next stack step).cellAt height =
      (written? stack step height).or (stack.cellAt height) := by
  cases h : step.act stack with
  | ok answer =>
    obtain ⟨reply, next⟩ := answer
    rw [Action.next_of_ok h, (moved_of_act h).cellAt_eq]
    simp [written?, h]
  | error fault =>
    rw [Action.next_of_error h]
    simp [written?, h]

theorem capacity_stateAt (length : Nat) (steps : List StackStep) (k : Nat) :
    (act.stateAt (.ofCapacity length) steps k).capacity = length := by
  apply Action.keeps_stateAt (fun later : OperandStack => later.capacity = length)
  · exact OperandStack.capacity_ofCapacity length
  · intro step before reply after hbefore h
    exact (capacity_of_act h).trans hbefore

/-- A run leaves in each cell what it wrote there last. -/
theorem cellAt_stateAt (steps : List StackStep) (k : Nat) (h : height < length) :
    (act.stateAt (.ofCapacity length) steps k).cellAt height =
      some (lastWritten length steps height k) := by
  induction k with
  | zero => simp [Action.stateAt, OperandStack.cellAt_ofCapacity, h, lastWritten]
  | succ k ih =>
    cases hstep : steps[k]? with
    | none =>
      rw [Action.stateAt_succ_of_none hstep, ih]
      simp [lastWritten, hstep]
    | some step =>
      rw [Action.stateAt_succ hstep, cellAt_next, ih]
      cases hwritten : written? (act.stateAt (.ofCapacity length) steps k) step height with
      | none => simp [lastWritten, hstep, hwritten]
      | some slot => simp [lastWritten, hstep, hwritten]

/-- Stacks reached by runs on fresh stacks of one capacity are equal if and only if they have the
same slots in use and the same slots were written last above them. So a value that is pushed and
popped again leaves the stack, and any frame, as it was only over its own slots, and clearing makes a
stack fresh only where all slots written last are zeroed. -/
theorem same_iff_lastWritten (length : Nat) (steps others : List StackStep) (j k : Nat) :
    let stack := act.stateAt (.ofCapacity length) steps j
    let other := act.stateAt (.ofCapacity length) others k
    ((stack == other) = true ↔ stack.inUse = other.inUse ∧
      ∀ height, stack.size ≤ height → height < length →
        lastWritten length steps height j = lastWritten length others height k) ∧
    (∀ value : Value, stack.size + value.kind.width ≤ length →
      ∃ pushed popped, value.push.act stack = .ok (.done, pushed) ∧
        value.kind.pop.act pushed = .ok (value.reply, popped) ∧ popped.inUse = stack.inUse ∧
        ∀ locals, ((⟨locals, popped⟩ : Frame) == ⟨locals, stack⟩) = (popped == stack) ∧
          ((popped == stack) = true ↔ ∀ i slot, value.slots[i]? = some slot →
            lastWritten length steps (stack.size + i) j = slot)) ∧
    ((stack.clear == .ofCapacity length) = true ↔
      ∀ height, height < length → lastWritten length steps height j = {}) := by
  intro stack other
  have hstack : stack.capacity = length := capacity_stateAt length steps j
  have hother : other.capacity = length := capacity_stateAt length others k
  have hleft {height : Nat} : height < length → stack.cellAt height =
    some (lastWritten length steps height j) := cellAt_stateAt steps j
  have hright {height : Nat} : height < length → other.cellAt height =
    some (lastWritten length others height k) := cellAt_stateAt others k
  refine ⟨?_, fun value hfits => ?_, ?_⟩
  · rw [beq_iff_eq, OperandStack.eq_iff_cellAt (hstack.trans hother.symm), hstack]
    refine and_congr_right fun _ => forall₃_congr fun height _ hheight => ?_
    rw [hleft hheight, hright hheight, Option.some.injEq]
  · obtain ⟨pushed, popped, hpush, hpop, hinUse, hsame⟩ := value.exists_push_pop (hstack ▸ hfits)
    refine ⟨pushed, popped, hpush, hpop, hinUse, fun locals => ⟨?_, ?_⟩⟩
    · rw [Bool.eq_iff_iff, beq_iff_eq, beq_iff_eq, Frame.mk.injEq, and_iff_right rfl]
    · rw [beq_iff_eq, hsame]
      refine forall₃_congr fun i slot hslot => ?_
      have hwidth := Value.lt_width_of_slots hslot
      rw [hleft (by omega), Option.some.injEq]
  · rw [beq_iff_eq, ← hstack, OperandStack.clear_eq_ofCapacity_iff, hstack]
    refine forall₂_congr fun height hheight => ?_
    rw [hleft hheight, Option.some.injEq]

/-- An empty stack and frame that held an int are not equal to fresh ones, and nor is the stack that
was cleared. -/
theorem not_same_poppedInt :
    let steps := [pushInt 5, popInt]
    let stack := act.stateAt (.ofCapacity 1) steps 2
    let fresh := act.stateAt (.ofCapacity 1) steps 0
    stack.capacity = fresh.capacity ∧ stack.inUse = fresh.inUse ∧ (stack == fresh) = false ∧
      ((⟨.ofSize 0, stack⟩ : Frame) == ⟨.ofSize 0, fresh⟩) = false ∧
      ((act.stateAt (.ofCapacity 1) steps 1).clear == fresh) = false := by
  decide

end StackStep

end Jvm
