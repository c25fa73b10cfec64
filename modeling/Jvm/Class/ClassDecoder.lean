import Jvm.Class.ClassFile
import Jvm.Pool.PoolDecoder

/-! Reading a class file, in one pass from the magic number to the class attributes. Bytes behind
the class are left alone. -/

namespace Jvm.ClassFile

open Decoder

def decodeMagic : Decoder Unit := do
  let found ← u32
  if found ≠ magic then fail (.badMagic found)

/-- The minor version stands first. -/
def decodeVersion : Decoder Version := do
  let minor ← u16
  let major ← u16
  let version : Version := { major, minor }
  if version.isSupported then return version else fail (.unsupportedVersion major minor)

/-- What a class file holds. -/
def decodeContent : Decoder ClassFile := do
  decodeMagic
  let version ← decodeVersion
  let pool ← ConstantPool.decode
  let bits ← u16
  let thisClass ← u16
  let superClass ← u16
  let interfaces ← u16s
  let fields ← Member.decodeAll pool
  let methods ← Member.decodeAll pool
  let attributes ← Attribute.decodeAll pool
  return { version, pool, accessFlags := ⟨bits⟩, thisClass, superClass, interfaces, fields,
           methods, attributes }

/-- The report on a class that was read. -/
def parsedEvent (cls : ClassFile) : Event :=
  .classParsed cls.className.toOption cls.version.major cls.version.minor cls.pool.size
    cls.fields.length cls.methods.length

def decode : Decoder ClassFile := do
  let cls ← decodeContent
  let trailing ← remaining
  if 0 < trailing then report (.bytesIgnored trailing)
  report cls.parsedEvent
  return cls

/-- Reads the class at the start of the bytes. -/
def ofBytes (bytes : List UInt8) : Outcome ClassFile := decode (.start bytes)

end Jvm.ClassFile
