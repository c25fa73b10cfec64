import Jvm.Machine.Locals
import Jvm.Machine.Run

/-! Everything that can be done with a table of local variables, as data. -/

namespace Jvm

inductive LocalsStep where
  | size
  | isEmpty
  | slot (index : Nat)
  | int (index : Nat)
  | float (index : Nat)
  | long (index : Nat)
  | double (index : Nat)
  | reference (index : Nat)
  | setSlot (index : Nat) (value : Slot)
  | setInt (index : Nat) (value : Int32)
  | setFloat (index : Nat) (value : Binary32)
  | setLong (index : Nat) (value : Int64)
  | setDouble (index : Nat) (value : Binary64)
  | setReference (index : Nat) (value : Option ObjectRef)
  deriving DecidableEq

namespace LocalsStep

/-- What a reading step answers and, for a writing step, the table after it. -/
def act : Action LocalsStep Locals Reply
  | size, locals => .ok (.count locals.size, locals)
  | isEmpty, locals => .ok (.flag locals.isEmpty, locals)
  | slot index, locals => (.slot ·, locals) <$> locals.slot index
  | int index, locals => (.int ·, locals) <$> locals.int index
  | float index, locals => (.float ·, locals) <$> locals.float index
  | long index, locals => (.long ·, locals) <$> locals.long index
  | double index, locals => (.double ·, locals) <$> locals.double index
  | reference index, locals => (.reference ·, locals) <$> locals.reference index
  | setSlot index value, locals => (.done, ·) <$> locals.setSlot index value
  | setInt index value, locals => (.done, ·) <$> locals.setInt index value
  | setFloat index value, locals => (.done, ·) <$> locals.setFloat index value
  | setLong index value, locals => (.done, ·) <$> locals.setLong index value
  | setDouble index value, locals => (.done, ·) <$> locals.setDouble index value
  | setReference index value, locals => (.done, ·) <$> locals.setReference index value

end LocalsStep

end Jvm
