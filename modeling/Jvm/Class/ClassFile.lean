import Jvm.Class.Member

/-! Class files: what one holds, and the names it gives through its pool. Names are looked up when
they are asked for, so a class with a broken name is still a class. -/

namespace Jvm

/-- The number that every class file starts with. -/
def magic : UInt32 := 0xcafebabe

structure Version where
  major : UInt16
  minor : UInt16
  deriving DecidableEq, Repr

/-- The newest major version read. -/
def newestMajor : UInt16 := 52

/-- The first major version is read with any minor version, the later ones with minor 0 only. -/
def Version.isSupported (version : Version) : Bool :=
  version.major == 45 || 46 ≤ version.major && version.major ≤ newestMajor && version.minor == 0

structure ClassFile where
  version : Version
  pool : ConstantPool
  accessFlags : AccessFlags
  thisClass : UInt16
  /-- Index 0 stands for no superclass. -/
  superClass : UInt16
  interfaces : List UInt16
  fields : List Member
  methods : List Member
  attributes : List Attribute
  deriving DecidableEq

namespace ClassFile

def className (cls : ClassFile) : Except FormatError String := cls.pool.className cls.thisClass

/-- The root of the class hierarchy has none. -/
def superClassName (cls : ClassFile) : Except FormatError (Option String) :=
  if cls.superClass = 0 then .ok none else some <$> cls.pool.className cls.superClass

def interfaceNames (cls : ClassFile) : Except FormatError (List String) :=
  cls.interfaces.mapM cls.pool.className

/-- The text of the first source file attribute. -/
def sourceFile (cls : ClassFile) : Except FormatError (Option String) :=
  match cls.attributes.findSome? Attribute.sourceFile? with
  | some nameIndex => some <$> cls.pool.utf8 nameIndex
  | none => .ok none

/-- The position of the first member that passes the test. A test that fails on the way there ends
the search. -/
def findMember (test : Member → Except FormatError Bool) (position : Nat) :
    List Member → Except FormatError (Option Nat)
  | [] => .ok none
  | member :: rest => do
    if ← test member then return some position
    findMember test (position + 1) rest

/-- The position of the method of that name and descriptor. The descriptor of a method is looked up
only if its name fits. -/
def findMethod (cls : ClassFile) (name descriptor : String) : Except FormatError (Option Nat) :=
  findMember (fun method => do
    if (← method.name cls.pool) = name then return (← method.descriptor cls.pool) = descriptor
    else return false) 0 cls.methods

/-- The position of the field of that name. -/
def findField (cls : ClassFile) (name : String) : Except FormatError (Option Nat) :=
  findMember (fun field => return (← field.name cls.pool) = name) 0 cls.fields

/-- Equality of values: as classes, except that float and double constants are compared as
numbers. -/
def sameValue (cls other : ClassFile) : Bool :=
  cls.version == other.version && cls.pool.sameValue other.pool &&
    cls.accessFlags == other.accessFlags && cls.thisClass == other.thisClass &&
    cls.superClass == other.superClass && cls.interfaces == other.interfaces &&
    cls.fields == other.fields && cls.methods == other.methods &&
    cls.attributes == other.attributes

end ClassFile

end Jvm
