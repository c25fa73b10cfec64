import Jvm.Class.AccessFlags
import Jvm.Class.AttributeDecoder
import Jvm.Class.AttributeEquality

/-! Fields and methods, which share one layout. Name and descriptor are pool indices, looked up
when they are asked for. -/

namespace Jvm

structure Member where
  accessFlags : AccessFlags
  nameIndex : UInt16
  descriptorIndex : UInt16
  attributes : List Attribute
  deriving DecidableEq

namespace Member

def name (member : Member) (pool : ConstantPool) : Except FormatError String :=
  pool.utf8 member.nameIndex

def descriptor (member : Member) (pool : ConstantPool) : Except FormatError String :=
  pool.utf8 member.descriptorIndex

/-- The body, which fields and abstract or native methods lack. -/
def code? (member : Member) : Option Code := member.attributes.findSome? Attribute.code?

/-- The pool index of a field's compile-time constant. -/
def constantValue? (member : Member) : Option UInt16 :=
  member.attributes.findSome? Attribute.constantValue?

/-- The pool indices of the exception classes that a method declares. -/
def exceptions (member : Member) : List UInt16 :=
  (member.attributes.findSome? Attribute.exceptions?).getD []

def isDeprecated (member : Member) : Bool := member.attributes.any Attribute.isDeprecated

/-- Marked by the flag or, as older compilers do, by an attribute. -/
def isSynthetic (member : Member) : Bool :=
  member.accessFlags.has .synthetic || member.attributes.any Attribute.isSynthetic

open Decoder

def decode (pool : ConstantPool) : Decoder Member := do
  let bits ← u16
  let nameIndex ← u16
  let descriptorIndex ← u16
  let attributes ← Attribute.decodeAll pool
  return { accessFlags := ⟨bits⟩, nameIndex, descriptorIndex, attributes }

/-- A two-byte count and that many members. -/
def decodeAll (pool : ConstantPool) : Decoder (List Member) := counted (decode pool)

end Member

end Jvm
