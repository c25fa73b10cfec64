import Jvm.Machine.MachineError
import Jvm.Machine.Slot

/-! The operand stack of a frame. Its cells are split at the top of the stack: those in use, top
first, and the spare ones above, nearest first. Pushing and popping move the split and never
change how many cells there are. A cell that becomes spare keeps what was in it, and equality of
stacks compares the spare cells as well. -/

namespace Jvm

structure OperandStack where
  inUse : List Slot
  spare : List Slot
  deriving DecidableEq

namespace OperandStack

/-- An empty stack of zeroed cells. -/
def ofCapacity (capacity : Nat) : OperandStack := ⟨[], .replicate capacity {}⟩

/-- The slots in use. -/
def size (stack : OperandStack) : Nat := stack.inUse.length

/-- All slots. -/
def capacity (stack : OperandStack) : Nat := stack.inUse.length + stack.spare.length

def isEmpty (stack : OperandStack) : Bool := stack.inUse.isEmpty

/-- The slots in use, bottom first. -/
def toList (stack : OperandStack) : List Slot := stack.inUse.reverse

/-- Drops every value at once, as when an exception handler takes over. -/
def clear (stack : OperandStack) : OperandStack := ⟨[], stack.inUse.reverse ++ stack.spare⟩

/-- The slot `depth` slots below the top. -/
def peek (stack : OperandStack) (depth : Nat) : Except MachineError Slot :=
  match stack.inUse[depth]? with
  | some slot => .ok slot
  | none => .error .operandUnderflow

def push (stack : OperandStack) (slot : Slot) : Except MachineError OperandStack :=
  match stack.spare with
  | _ :: spare => .ok ⟨slot :: stack.inUse, spare⟩
  | [] => .error (.operandOverflow stack.capacity)

def pop (stack : OperandStack) : Except MachineError (Slot × OperandStack) :=
  match stack.inUse with
  | top :: below => .ok (top, ⟨below, top :: stack.spare⟩)
  | [] => .error .operandUnderflow

/-- Pushes both slots or neither. -/
def pushPair (stack : OperandStack) (first second : Slot) : Except MachineError OperandStack :=
  match stack.spare with
  | _ :: _ :: spare => .ok ⟨second :: first :: stack.inUse, spare⟩
  | _ => .error (.operandOverflow stack.capacity)

/-- Pops both slots or neither; the one pushed first comes first. -/
def popPair (stack : OperandStack) : Except MachineError ((Slot × Slot) × OperandStack) :=
  match stack.inUse with
  | second :: first :: below => .ok ((first, second), ⟨below, first :: second :: stack.spare⟩)
  | _ => .error .operandUnderflow

def pushInt (stack : OperandStack) (value : Int32) : Except MachineError OperandStack :=
  stack.push (.ofInt value)

def pushFloat (stack : OperandStack) (value : Binary32) : Except MachineError OperandStack :=
  stack.push (.ofFloat value)

def pushReference (stack : OperandStack) (reference : Option ObjectRef) :
    Except MachineError OperandStack :=
  stack.push (.ofReference reference)

def pushLong (stack : OperandStack) (value : Int64) : Except MachineError OperandStack :=
  stack.pushPair (.ofInt (lowHalf value)) (.ofInt (highHalf value))

def pushDouble (stack : OperandStack) (value : Binary64) : Except MachineError OperandStack :=
  stack.pushLong (longOfDouble value)

def popInt (stack : OperandStack) : Except MachineError (Int32 × OperandStack) :=
  (fun (slot, rest) => (slot.int, rest)) <$> stack.pop

def popFloat (stack : OperandStack) : Except MachineError (Binary32 × OperandStack) :=
  (fun (slot, rest) => (slot.float, rest)) <$> stack.pop

def popReference (stack : OperandStack) : Except MachineError (Option ObjectRef × OperandStack) :=
  (fun (slot, rest) => (slot.reference, rest)) <$> stack.pop

def popLong (stack : OperandStack) : Except MachineError (Int64 × OperandStack) :=
  (fun ((low, high), rest) => (joinHalves low.int high.int, rest)) <$> stack.popPair

def popDouble (stack : OperandStack) : Except MachineError (Binary64 × OperandStack) :=
  (fun (value, rest) => (doubleOfLong value, rest)) <$> stack.popLong

end OperandStack

end Jvm
