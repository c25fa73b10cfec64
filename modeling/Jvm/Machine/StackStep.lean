import Jvm.Machine.OperandStack
import Jvm.Machine.Run

/-! Everything that can be done with an operand stack, as data. -/

namespace Jvm

inductive StackStep where
  | size
  | capacity
  | isEmpty
  | clear
  | peek (depth : Nat)
  | push (slot : Slot)
  | pushInt (value : Int32)
  | pushFloat (value : Binary32)
  | pushLong (value : Int64)
  | pushDouble (value : Binary64)
  | pushReference (value : Option ObjectRef)
  | pop
  | popInt
  | popFloat
  | popLong
  | popDouble
  | popReference
  deriving DecidableEq

namespace StackStep

/-- What a step answers and the stack after it. -/
def act : Action StackStep OperandStack Reply
  | size, stack => .ok (.count stack.size, stack)
  | capacity, stack => .ok (.count stack.capacity, stack)
  | isEmpty, stack => .ok (.flag stack.isEmpty, stack)
  | clear, stack => .ok (.done, stack.clear)
  | peek depth, stack => (.slot ·, stack) <$> stack.peek depth
  | push slot, stack => (.done, ·) <$> stack.push slot
  | pushInt value, stack => (.done, ·) <$> stack.pushInt value
  | pushFloat value, stack => (.done, ·) <$> stack.pushFloat value
  | pushLong value, stack => (.done, ·) <$> stack.pushLong value
  | pushDouble value, stack => (.done, ·) <$> stack.pushDouble value
  | pushReference value, stack => (.done, ·) <$> stack.pushReference value
  | pop, stack => (fun (slot, rest) => (.slot slot, rest)) <$> stack.pop
  | popInt, stack => (fun (value, rest) => (.int value, rest)) <$> stack.popInt
  | popFloat, stack => (fun (value, rest) => (.float value, rest)) <$> stack.popFloat
  | popLong, stack => (fun (value, rest) => (.long value, rest)) <$> stack.popLong
  | popDouble, stack => (fun (value, rest) => (.double value, rest)) <$> stack.popDouble
  | popReference, stack => (fun (value, rest) => (.reference value, rest)) <$> stack.popReference

end StackStep

end Jvm
