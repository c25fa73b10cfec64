import Jvm.FormatError

/-! What can go wrong while frames are set up and used, and how each fault reads as a message. -/

namespace Jvm

inductive MachineError where
  /-- The class file a method comes from is at fault. -/
  | format (fault : FormatError)
  | stackOverflow (maxDepth : Nat)
  | emptyStack
  | operandOverflow (capacity : Nat)
  | operandUnderflow
  | localOutOfRange (index maxLocals : Nat)
  | missingCode (method : String)
  | localsTooSmall (method : String) (needed maxLocals : Nat)
  deriving DecidableEq, Repr

namespace MachineError

def message : MachineError → String
  | format fault => fault.message
  | stackOverflow maxDepth => s!"stack overflow: max depth of {maxDepth} frames reached"
  | emptyStack => "jvm stack is empty"
  | operandOverflow capacity => s!"operand stack overflow (capacity {capacity})"
  | operandUnderflow => "operand stack underflow"
  | localOutOfRange index maxLocals =>
    s!"local variable index {index} out of range (max locals {maxLocals})"
  | missingCode method => s!"method {method} has no Code attribute"
  | localsTooSmall method needed maxLocals =>
    s!"method {method} needs {needed} local slots for its arguments but declares {maxLocals}"

end MachineError

end Jvm
