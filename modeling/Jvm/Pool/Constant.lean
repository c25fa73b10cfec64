import Jvm.Decoder
import Jvm.Text.ModifiedUtf8

/-! The constants of a class file. A constant that points at others holds their indices only. -/

namespace Jvm

/-- What a member reference refers to. -/
inductive MemberKind where
  | field | method | interfaceMethod
  deriving DecidableEq, Repr

def MemberKind.tag : MemberKind → Tag
  | field => .fieldRef
  | method => .methodRef
  | interfaceMethod => .interfaceMethodRef

inductive Constant where
  | utf8 (text : String)
  /-- Booleans, bytes, chars and shorts too. -/
  | integer (value : Int32)
  | float (value : Binary32)
  | long (value : Int64)
  | double (value : Binary64)
  | classInfo (nameIndex : UInt16)
  | string (textIndex : UInt16)
  | memberRef (kind : MemberKind) (classIndex nameAndTypeIndex : UInt16)
  | nameAndType (nameIndex descriptorIndex : UInt16)
  | methodHandle (kind : UInt8) (referenceIndex : UInt16)
  | methodType (descriptorIndex : UInt16)
  /-- The bootstrap index points into a table of the class, not into the pool. -/
  | invokeDynamic (bootstrapIndex nameAndTypeIndex : UInt16)
  deriving DecidableEq, Repr

namespace Constant

def tag : Constant → Tag
  | utf8 _ => .utf8
  | integer _ => .integer
  | float _ => .float
  | long _ => .long
  | double _ => .double
  | classInfo _ => .classInfo
  | string _ => .string
  | memberRef kind _ _ => kind.tag
  | nameAndType _ _ => .nameAndType
  | methodHandle _ _ => .methodHandle
  | methodType _ => .methodType
  | invokeDynamic _ _ => .invokeDynamic

/-- Longs and doubles cover the slot behind theirs as well. -/
def isWide : Constant → Bool
  | long _ | double _ => true
  | _ => false

/-- The pool indices that the constant holds, in the order of its fields. -/
def references : Constant → List UInt16
  | classInfo nameIndex => [nameIndex]
  | string textIndex => [textIndex]
  | memberRef _ classIndex nameAndTypeIndex => [classIndex, nameAndTypeIndex]
  | nameAndType nameIndex descriptorIndex => [nameIndex, descriptorIndex]
  | methodHandle _ referenceIndex => [referenceIndex]
  | methodType descriptorIndex => [descriptorIndex]
  | invokeDynamic _ nameAndTypeIndex => [nameAndTypeIndex]
  | utf8 _ | integer _ | float _ | long _ | double _ => []

/-- Equality of values, with floats compared as numbers. -/
def sameValue : Constant → Constant → Bool
  | float x, float y => x.sameNumber y
  | double x, double y => x.sameNumber y
  | x, y => x == y

open Decoder

/-- A two-byte length and that many bytes of text. -/
def decodeText : Decoder String := do
  let length ← u16
  let start ← position
  let encoded ← bytes length.toNat
  match ModifiedUtf8.decode? encoded with
  | some text => pure text
  | none => fail (.malformedText start)

def decodeMemberRef (kind : MemberKind) : Decoder Constant :=
  return memberRef kind (← u16) (← u16)

/-- What follows the tag. -/
def decodePayload : Tag → Decoder Constant
  | .utf8 => utf8 <$> decodeText
  | .integer => (integer ·.toInt32) <$> u32
  | .float => float <$> binary32
  | .long => (long ·.toInt64) <$> u64
  | .double => double <$> binary64
  | .classInfo => classInfo <$> u16
  | .string => string <$> u16
  | .fieldRef => decodeMemberRef .field
  | .methodRef => decodeMemberRef .method
  | .interfaceMethodRef => decodeMemberRef .interfaceMethod
  | .nameAndType => return nameAndType (← u16) (← u16)
  | .methodHandle => return methodHandle (← u8) (← u16)
  | .methodType => methodType <$> u16
  | .invokeDynamic => return invokeDynamic (← u16) (← u16)

/-- A tag byte and what belongs to it. -/
def decode : Decoder Constant := do
  let offset ← position
  let byte ← u8
  match Tag.ofByte? byte with
  | some tag => decodePayload tag
  | none => fail (.unknownTag byte offset)

end Constant

end Jvm
