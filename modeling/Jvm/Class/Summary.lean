import Jvm.Class.ClassFile

/-! A class in nine lines of text. A name that cannot be looked up shows as `<invalid>`. -/

namespace Jvm.ClassFile

def shownName (name : Except FormatError String) : String := name.toOption.getD invalidName

/-- How many members there are, and their names. -/
def shownMembers (cls : ClassFile) (members : List Member) : String :=
  let names := members.map fun member => shownName (member.name cls.pool)
  s!"{members.length} " ++ ", ".intercalate names

def summary (cls : ClassFile) : String :=
  let superClass := cls.superClassName.map fun name => name.getD "<none>"
  let interfaces := cls.interfaceNames.map fun names => ", ".intercalate names
  "\n".intercalate
    ["magic: " ++ Hex.digits magic.toNat,
      s!"version: {cls.version.major}.{cls.version.minor}",
      s!"constants count: {cls.pool.size}",
      "access flags: 0x" ++ Hex.digits cls.accessFlags.bits.toNat,
      "this class: " ++ shownName cls.className,
      "super class: " ++ shownName superClass,
      "interfaces: " ++ shownName interfaces,
      "fields count: " ++ cls.shownMembers cls.fields,
      "methods count: " ++ cls.shownMembers cls.methods]

end Jvm.ClassFile
