import Mathlib.Algebra.Group.Nat.Defs
import Jvm.Machine.LocalsStep
import Jvm.Proofs.Machine.Work

/-! # Local variables in cells

A table of local variables as it lies in memory. An index is a word of so many bits: the index
behind it can be out of reach of the word, and a cell is written on its own, so a pair that fails
between its two writes would leave the first of them behind. Neither happens in a table whose size
fits in a word: the work for a step ends with the answer of the step in the cells of the table after
it, or fails in the cells that it began with (`LocalsStep.onCells_slots`). -/

namespace Jvm

/-- The sum of two words of so many bits. There is none if it takes more. -/
def wordSum? (bits x y : Nat) : Option Nat := if x + y < 2 ^ bits then some (x + y) else none

theorem wordSum?_of_lt {bits x y : Nat} (h : x + y < 2 ^ bits) : wordSum? bits x y = some (x + y) :=
  if_pos h

namespace LocalCells

def read (index : Nat) : Work (Array Slot) Slot := fun cells =>
  match cells[index]? with
  | some slot => .done slot cells
  | none => .stuck

def write (index : Nat) (slot : Slot) : Work (Array Slot) Unit := fun cells =>
  if h : index < cells.size then .done () (cells.set index slot h) else .stuck

def outOfRange {α : Type} (index : Nat) : Work (Array Slot) α := do
  let size ← Work.look Array.size
  Work.fail (.localOutOfRange index size)

/-- Fails unless there is a cell at the index. -/
def require (index : Nat) : Work (Array Slot) Unit := do
  let size ← Work.look Array.size
  if index < size then return () else outOfRange index

/-- Fails unless there is a cell at the index and one behind it. That there is no word for the index
behind means that there is no such cell. -/
def requirePair (bits index : Nat) : Work (Array Slot) Unit := do
  let size ← Work.look Array.size
  match wordSum? bits index 1 with
  | some behind => if behind < size then return () else outOfRange index
  | none => outOfRange index

/-- The index behind, which has to be a word. -/
def behind (bits index : Nat) : Work (Array Slot) Nat := fun cells =>
  match wordSum? bits index 1 with
  | some next => .done next cells
  | none => .stuck

def slot (index : Nat) : Work (Array Slot) Slot := do
  require index
  read index

def setSlot (index : Nat) (slot : Slot) : Work (Array Slot) Unit := do
  require index
  write index slot

def pair (bits index : Nat) : Work (Array Slot) (Slot × Slot) := do
  requirePair bits index
  let first ← read index
  let next ← behind bits index
  let second ← read next
  return (first, second)

def setPair (bits index : Nat) (first second : Slot) : Work (Array Slot) Unit := do
  requirePair bits index
  write index first
  let next ← behind bits index
  write next second

open Work

variable {locals : Locals} {bits index : Nat}

theorem write_of_lt {cells : Array Slot} {slot : Slot} (h : index < cells.size) :
    write index slot cells = .done () (cells.setIfInBounds index slot) := by
  rw [write, dif_pos h, Array.setIfInBounds, dif_pos h]

theorem require_slots_of_lt (h : index < locals.size) :
    require index locals.slots = .done () locals.slots := by
  have hlt : index < locals.slots.size := h
  simp [require, bind_apply, look_apply, pure_apply, hlt]

theorem require_slots_of_le (h : locals.size ≤ index) :
    require index locals.slots = .failed (.localOutOfRange index locals.size) locals.slots := by
  have hle : ¬ index < locals.slots.size := Nat.not_lt.mpr h
  simp [require, outOfRange, bind_apply, look_apply, fail_apply, hle, Locals.size]

theorem behind_apply (h : index + 1 < 2 ^ bits) (cells : Array Slot) :
    behind bits index cells = .done (index + 1) cells := by
  rw [behind, wordSum?_of_lt h]

/-- The index behind that of a pair in the table is a word as well. -/
theorem requirePair_slots_of_lt (h : index + 1 < locals.size) (hsize : locals.size < 2 ^ bits) :
    requirePair bits index locals.slots = .done () locals.slots := by
  have hlt : index + 1 < locals.slots.size := h
  simp [requirePair, bind_apply, look_apply, pure_apply, wordSum?_of_lt (Nat.lt_trans h hsize), hlt]

theorem requirePair_slots_of_le (h : locals.size ≤ index + 1) :
    requirePair bits index locals.slots =
      .failed (.localOutOfRange index locals.size) locals.slots := by
  have hle : ¬ index + 1 < locals.slots.size := Nat.not_lt.mpr h
  -- the index behind is a word that no cell has, or no word at all
  by_cases hword : index + 1 < 2 ^ bits
  · simp [requirePair, outOfRange, bind_apply, look_apply, fail_apply, wordSum?_of_lt hword, hle,
      Locals.size]
  · have hnone : wordSum? bits index 1 = none := if_neg hword
    simp [requirePair, outOfRange, bind_apply, look_apply, fail_apply, hnone, Locals.size]

theorem slot_slots (index : Nat) : slot index locals.slots =
    .ofAnswer Locals.slots locals ((·, locals) <$> locals.slot index) := by
  by_cases h : index < locals.size
  · have hcell : locals.slots[index]? = some locals.slots[index] := Array.getElem?_eq_getElem h
    rw [slot, bind_apply, require_slots_of_lt h, Locals.slot]
    simp only [read, hcell]
    rfl
  · have hcell : locals.slots[index]? = none := Array.getElem?_eq_none (Nat.not_lt.mp h)
    rw [slot, bind_apply, require_slots_of_le (Nat.not_lt.mp h), Locals.slot, hcell]
    rfl

theorem setSlot_slots (index : Nat) (slot : Slot) : setSlot index slot locals.slots =
    .ofAnswer Locals.slots locals (((), ·) <$> locals.setSlot index slot) := by
  by_cases h : index < locals.size
  · have hlt : index < locals.slots.size := h
    rw [setSlot, bind_apply, require_slots_of_lt h, Locals.setSlot, dif_pos hlt]
    exact dif_pos hlt
  · have hle : ¬ index < locals.slots.size := h
    rw [setSlot, bind_apply, require_slots_of_le (Nat.not_lt.mp h), Locals.setSlot, dif_neg hle]
    rfl

theorem pair_slots (hsize : locals.size < 2 ^ bits) (index : Nat) : pair bits index locals.slots =
    .ofAnswer Locals.slots locals ((·, locals) <$> locals.pair index) := by
  by_cases h : index + 1 < locals.size
  · have hlt : index + 1 < locals.slots.size := h
    have hfirst : locals.slots[index]? = some locals.slots[index] :=
      Array.getElem?_eq_getElem (Nat.lt_of_succ_lt hlt)
    have hsecond : locals.slots[index + 1]? = some locals.slots[index + 1] :=
      Array.getElem?_eq_getElem hlt
    rw [pair, bind_apply, requirePair_slots_of_lt h hsize, Locals.pair, dif_pos hlt]
    simp only [bind_apply, pure_apply, read, hfirst, hsecond, behind_apply (Nat.lt_trans h hsize)]
    rfl
  · have hle : ¬ index + 1 < locals.slots.size := h
    rw [pair, bind_apply, requirePair_slots_of_le (Nat.not_lt.mp h), Locals.pair, dif_neg hle]
    rfl

theorem setPair_slots (hsize : locals.size < 2 ^ bits) (index : Nat) (first second : Slot) :
    setPair bits index first second locals.slots =
      .ofAnswer Locals.slots locals (((), ·) <$> locals.setPair index first second) := by
  by_cases h : index + 1 < locals.size
  · have hlt : index + 1 < locals.slots.size := h
    have hfirst : write index first locals.slots =
        .done () (locals.slots.setIfInBounds index first) := write_of_lt (Nat.lt_of_succ_lt hlt)
    have hsecond : write (index + 1) second (locals.slots.setIfInBounds index first) =
        .done () ((locals.slots.setIfInBounds index first).setIfInBounds (index + 1) second) :=
      write_of_lt (by rwa [Array.size_setIfInBounds])
    rw [setPair, bind_apply, requirePair_slots_of_lt h hsize, Locals.setPair, if_pos hlt]
    simp only [bind_apply, hfirst, behind_apply (Nat.lt_trans h hsize), hsecond]
    rfl
  · have hle : ¬ index + 1 < locals.slots.size := h
    rw [setPair, bind_apply, requirePair_slots_of_le (Nat.not_lt.mp h), Locals.setPair, if_neg hle]
    rfl

end LocalCells

namespace LocalsStep

open LocalCells Work

/-- The work that a step means, with words of so many bits for indices. -/
def onCells (bits : Nat) : LocalsStep → Work (Array Slot) Reply
  | size => look fun cells => .count cells.size
  | isEmpty => look fun cells => .flag cells.isEmpty
  | slot index => do
    let slot ← LocalCells.slot index
    return .slot slot
  | int index => do
    let slot ← LocalCells.slot index
    return .int slot.int
  | float index => do
    let slot ← LocalCells.slot index
    return .float slot.float
  | reference index => do
    let slot ← LocalCells.slot index
    return .reference slot.reference
  | long index => do
    let halves ← LocalCells.pair bits index
    return .long (joinHalves halves.1.int halves.2.int)
  | double index => do
    let halves ← LocalCells.pair bits index
    return .double (doubleOfLong (joinHalves halves.1.int halves.2.int))
  | setSlot index value => do
    LocalCells.setSlot index value
    return .done
  | setInt index value => do
    LocalCells.setSlot index (.ofInt value)
    return .done
  | setFloat index value => do
    LocalCells.setSlot index (.ofFloat value)
    return .done
  | setReference index value => do
    LocalCells.setSlot index (.ofReference value)
    return .done
  | setLong index value => do
    LocalCells.setPair bits index (.ofInt (lowHalf value)) (.ofInt (highHalf value))
    return .done
  | setDouble index value => do
    let long := longOfDouble value
    LocalCells.setPair bits index (.ofInt (lowHalf long)) (.ofInt (highHalf long))
    return .done

variable {bits : Nat} {locals : Locals}

/-- In a table whose size is a word, the work for a step ends as the step does, gets stuck at no
sum and at no cell, and changes none if it fails. -/
theorem onCells_slots (step : LocalsStep) (hsize : locals.size < 2 ^ bits) :
    step.onCells bits locals.slots = .ofAnswer Locals.slots locals (step.act locals) := by
  cases step with
  | size => rfl
  | isEmpty => rfl
  | slot index =>
    rw [onCells, bind_pure_of_ofAnswer (slot_slots index), act]
    cases locals.slot index <;> rfl
  | int index =>
    rw [onCells, bind_pure_of_ofAnswer (slot_slots index), act, Locals.int]
    cases locals.slot index <;> rfl
  | float index =>
    rw [onCells, bind_pure_of_ofAnswer (slot_slots index), act, Locals.float]
    cases locals.slot index <;> rfl
  | reference index =>
    rw [onCells, bind_pure_of_ofAnswer (slot_slots index), act, Locals.reference]
    cases locals.slot index <;> rfl
  | long index =>
    rw [onCells, bind_pure_of_ofAnswer (pair_slots hsize index), act, Locals.long]
    cases locals.pair index <;> rfl
  | double index =>
    rw [onCells, bind_pure_of_ofAnswer (pair_slots hsize index), act, Locals.double, Locals.long]
    cases locals.pair index <;> rfl
  | setSlot index value =>
    rw [onCells, bind_pure_of_ofAnswer (setSlot_slots index value), act]
    cases locals.setSlot index value <;> rfl
  | setInt index value =>
    rw [onCells, bind_pure_of_ofAnswer (setSlot_slots index _), act, Locals.setInt]
    cases locals.setSlot index (.ofInt value) <;> rfl
  | setFloat index value =>
    rw [onCells, bind_pure_of_ofAnswer (setSlot_slots index _), act, Locals.setFloat]
    cases locals.setSlot index (.ofFloat value) <;> rfl
  | setReference index value =>
    rw [onCells, bind_pure_of_ofAnswer (setSlot_slots index _), act, Locals.setReference]
    cases locals.setSlot index (.ofReference value) <;> rfl
  | setLong index value =>
    rw [onCells, bind_pure_of_ofAnswer (setPair_slots hsize index _ _), act, Locals.setLong]
    cases locals.setPair index (.ofInt (lowHalf value)) (.ofInt (highHalf value)) <;> rfl
  | setDouble index value =>
    simp only [onCells, bind_pure_of_ofAnswer (setPair_slots hsize index _ _), act,
      Locals.setDouble, Locals.setLong]
    cases locals.setPair index (.ofInt (lowHalf (longOfDouble value)))
      (.ofInt (highHalf (longOfDouble value))) <;> rfl

/-- The run of a list of steps, unless one of them gets stuck. -/
def runOnCells (bits : Nat) (cells : Array Slot) (steps : List LocalsStep) :
    Option (List (Except MachineError Reply × Array Slot)) := Work.run (onCells bits) cells steps

end LocalsStep

end Jvm
