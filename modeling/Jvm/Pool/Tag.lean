/-! The kinds of constant and the bytes and names they go by. -/

namespace Jvm

/-- The kind of a constant. -/
inductive Tag where
  | utf8 | integer | float | long | double | classInfo | string | fieldRef | methodRef
  | interfaceMethodRef | nameAndType | methodHandle | methodType | invokeDynamic
  deriving DecidableEq, Repr

namespace Tag

/-- The byte in front of a constant of this kind. -/
def byte : Tag → UInt8
  | utf8 => 1
  | integer => 3
  | float => 4
  | long => 5
  | double => 6
  | classInfo => 7
  | string => 8
  | fieldRef => 9
  | methodRef => 10
  | interfaceMethodRef => 11
  | nameAndType => 12
  | methodHandle => 15
  | methodType => 16
  | invokeDynamic => 18

def ofByte? : UInt8 → Option Tag
  | 1 => some utf8
  | 3 => some integer
  | 4 => some float
  | 5 => some long
  | 6 => some double
  | 7 => some classInfo
  | 8 => some string
  | 9 => some fieldRef
  | 10 => some methodRef
  | 11 => some interfaceMethodRef
  | 12 => some nameAndType
  | 15 => some methodHandle
  | 16 => some methodType
  | 18 => some invokeDynamic
  | _ => none

def name : Tag → String
  | utf8 => "CONSTANT_Utf8"
  | integer => "CONSTANT_Integer"
  | float => "CONSTANT_Float"
  | long => "CONSTANT_Long"
  | double => "CONSTANT_Double"
  | classInfo => "CONSTANT_Class"
  | string => "CONSTANT_String"
  | fieldRef => "CONSTANT_Fieldref"
  | methodRef => "CONSTANT_Methodref"
  | interfaceMethodRef => "CONSTANT_InterfaceMethodref"
  | nameAndType => "CONSTANT_NameAndType"
  | methodHandle => "CONSTANT_MethodHandle"
  | methodType => "CONSTANT_MethodType"
  | invokeDynamic => "CONSTANT_InvokeDynamic"

@[simp] theorem ofByte?_byte (tag : Tag) : ofByte? tag.byte = some tag := by
  cases tag <;> rfl

theorem ofByte?_eq_some_iff {byte : UInt8} {tag : Tag} : ofByte? byte = some tag ↔ byte = tag.byte := by
  constructor
  · intro h
    unfold ofByte? at h
    split at h <;> cases h <;> rfl
  · rintro rfl
    exact ofByte?_byte tag

end Tag

end Jvm
