import Jvm.Machine.MachineError
import Jvm.Machine.Slot

/-! The local variables of a frame: a table of slots whose size never changes. A long or double at
an index takes the slot behind it too, and out of range is told by the first of the two. -/

namespace Jvm

structure Locals where
  slots : Array Slot
  deriving DecidableEq

namespace Locals

/-- A table of zeroed slots. -/
def ofSize (size : Nat) : Locals := ⟨.replicate size {}⟩

def size (locals : Locals) : Nat := locals.slots.size

def isEmpty (locals : Locals) : Bool := locals.slots.isEmpty

def outOfRange (locals : Locals) (index : Nat) : MachineError :=
  .localOutOfRange index locals.size

def slot (locals : Locals) (index : Nat) : Except MachineError Slot :=
  match locals.slots[index]? with
  | some slot => .ok slot
  | none => .error (locals.outOfRange index)

def setSlot (locals : Locals) (index : Nat) (slot : Slot) : Except MachineError Locals :=
  if h : index < locals.slots.size then .ok ⟨locals.slots.set index slot h⟩
  else .error (locals.outOfRange index)

/-- The slots at an index and behind it. -/
def pair (locals : Locals) (index : Nat) : Except MachineError (Slot × Slot) :=
  if h : index + 1 < locals.slots.size then .ok (locals.slots[index], locals.slots[index + 1])
  else .error (locals.outOfRange index)

def setPair (locals : Locals) (index : Nat) (first second : Slot) : Except MachineError Locals :=
  if index + 1 < locals.slots.size then
    .ok ⟨(locals.slots.setIfInBounds index first).setIfInBounds (index + 1) second⟩
  else .error (locals.outOfRange index)

def int (locals : Locals) (index : Nat) : Except MachineError Int32 := Slot.int <$> locals.slot index

def float (locals : Locals) (index : Nat) : Except MachineError Binary32 :=
  Slot.float <$> locals.slot index

def reference (locals : Locals) (index : Nat) : Except MachineError (Option ObjectRef) :=
  Slot.reference <$> locals.slot index

def long (locals : Locals) (index : Nat) : Except MachineError Int64 :=
  (fun (low, high) => joinHalves low.int high.int) <$> locals.pair index

def double (locals : Locals) (index : Nat) : Except MachineError Binary64 :=
  doubleOfLong <$> locals.long index

def setInt (locals : Locals) (index : Nat) (value : Int32) : Except MachineError Locals :=
  locals.setSlot index (.ofInt value)

def setFloat (locals : Locals) (index : Nat) (value : Binary32) : Except MachineError Locals :=
  locals.setSlot index (.ofFloat value)

def setReference (locals : Locals) (index : Nat) (reference : Option ObjectRef) :
    Except MachineError Locals :=
  locals.setSlot index (.ofReference reference)

def setLong (locals : Locals) (index : Nat) (value : Int64) : Except MachineError Locals :=
  locals.setPair index (.ofInt (lowHalf value)) (.ofInt (highHalf value))

def setDouble (locals : Locals) (index : Nat) (value : Binary64) : Except MachineError Locals :=
  locals.setLong index (longOfDouble value)

end Locals

end Jvm
