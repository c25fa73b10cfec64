import Jvm.Class.Member
import Jvm.Descriptor.MethodDescriptor
import Jvm.Machine.Locals
import Jvm.Machine.OperandStack

/-! Frames: the local variables and the operand stack of one method call. -/

namespace Jvm

structure Frame where
  locals : Locals
  stack : OperandStack
  deriving DecidableEq

namespace Frame

/-- A zeroed frame. -/
def ofSizes (maxLocals maxStack : Nat) : Frame :=
  ⟨.ofSize maxLocals, .ofCapacity maxStack⟩

def ofCode (code : Code) : Frame := ofSizes code.maxLocals.toNat code.maxStack.toNat

/-- The frame for a call of the method, which needs a body and local slots for its arguments. Of
several faults the first is reported: no name, no body, no readable descriptor, too few slots. -/
def ofMethod (method : Member) (pool : ConstantPool) : Except MachineError Frame := do
  let name ← (method.name pool).mapError .format
  let some code := method.code? | throw (.missingCode name)
  let text ← (method.descriptor pool).mapError .format
  let descriptor ← (MethodDescriptor.parse text).mapError .format
  let needed := descriptor.argumentSlots (method.accessFlags.has .static)
  if code.maxLocals.toNat < needed then throw (.localsTooSmall name needed code.maxLocals.toNat)
  return ofCode code

end Frame

end Jvm
