import Jvm.Class.Attribute
import Jvm.Pool.ConstantPool

/-! Reading attributes. Each starts with the index of its name and a length. A known kind is read
by its shape whatever the length says; any other name takes the length as the size of its bytes.

Code holds attributes, so reading is nested. Each level starts further on in the bytes, and the
bytes left at the outermost level bound the depth: `decodeWithin` gets them as its budget and gives
one up for each level. With the budget gone no byte is left, so the next read has to fail. -/

namespace Jvm

open Decoder

def ExceptionHandler.decode : Decoder ExceptionHandler :=
  return ⟨← u16, ← u16, ← u16, ← u16⟩

def LineEntry.decode : Decoder LineEntry :=
  return ⟨← u16, ← u16⟩

def VariableEntry.decode : Decoder VariableEntry :=
  return ⟨← u16, ← u16, ← u16, ← u16, ← u16⟩

/-- A method body, given how to read the attributes inside it. -/
def Code.decodeWith (nested : Decoder Attribute) : Decoder Code := do
  let maxStack ← u16
  let maxLocals ← u16
  let length ← u32
  let instructions ← bytes length.toNat
  let handlers ← counted ExceptionHandler.decode
  let attributes ← counted nested
  return { maxStack, maxLocals, instructions, handlers, attributes }

namespace Attribute

/-- What follows name and length in an attribute of a known kind. -/
def decodePayload (nested : Decoder Attribute) : AttributeKind → Decoder Attribute
  | .code => code <$> Code.decodeWith nested
  | .constantValue => constantValue <$> u16
  | .deprecated => return deprecated
  | .exceptions => exceptions <$> u16s
  | .lineNumbers => lineNumbers <$> counted LineEntry.decode
  | .localVariables => localVariables <$> counted VariableEntry.decode
  | .sourceFile => sourceFile <$> u16
  | .synthetic => return synthetic

/-- One attribute, given how to read the attributes inside it. -/
def decodeWith (pool : ConstantPool) (nested : Decoder Attribute) : Decoder Attribute := do
  let nameIndex ← u16
  let name ← ofExcept (pool.utf8 nameIndex)
  let length ← u32
  report (.attributeRead name length.toNat)
  match AttributeKind.ofName? name with
  | some kind => decodePayload nested kind
  | none =>
    report (.attributeKept name length.toNat)
    unrecognized name <$> bytes length.toNat

/-- One attribute with code nested no deeper than the budget is long. -/
def decodeWithin (pool : ConstantPool) : List UInt8 → Decoder Attribute
  | [] => truncated 2
  | _ :: budget => decodeWith pool (decodeWithin pool budget)

/-- One attribute. -/
def decode (pool : ConstantPool) : Decoder Attribute := fun c => decodeWithin pool c.rest c

/-- A two-byte count and that many attributes. -/
def decodeAll (pool : ConstantPool) : Decoder (List Attribute) := counted (decode pool)

end Attribute

end Jvm
