import Jvm.Pool.Tag
import Jvm.Text.Quoted

/-! What can be wrong with a class file, and how each fault reads as a message. -/

namespace Jvm

/-- Why bytes are not a class file, or why a lookup in one fails. Offsets count from the start of
the bytes. -/
inductive FormatError where
  /-- Fewer than `needed` bytes are left at `offset`. -/
  | truncated (offset needed : Nat)
  | badMagic (found : UInt32)
  | unsupportedVersion (major minor : UInt16)
  | unknownTag (tag : UInt8) (offset : Nat)
  /-- The pool has only `slots` slots. -/
  | indexOutOfRange (index : UInt16) (slots : Nat)
  /-- The slot exists and holds no constant. -/
  | unusableIndex (index : UInt16)
  | kindMismatch (index : UInt16) (expected found : Tag)
  | notMemberRef (index : UInt16) (found : Tag)
  /-- A long or double in the last slot, with no slot behind it to cover. -/
  | wideAtEnd (index : Nat)
  | malformedText (offset : Nat)
  | invalidDescriptor (text : String)
  deriving DecidableEq, Repr

namespace FormatError

def message : FormatError → String
  | truncated offset needed =>
    s!"unexpected end of class file at offset {offset} (needed {needed} bytes)"
  | badMagic found => "bad magic 0x" ++ Hex.padded 8 found.toNat
  | unsupportedVersion major minor => s!"unsupported class version {major}.{minor}"
  | unknownTag tag offset => s!"unknown constant pool tag {tag} at offset {offset}"
  | indexOutOfRange index slots =>
    s!"constant pool index {index} out of range (pool length {slots})"
  | unusableIndex index => s!"constant pool index {index} is not usable"
  | kindMismatch index expected found =>
    s!"constant pool index {index}: expected {expected.name}, found {found.name}"
  | notMemberRef index found =>
    s!"constant pool index {index}: expected a field or method reference, found {found.name}"
  | wideAtEnd index => s!"wide constant at index {index} has no room for its second slot"
  | malformedText offset => s!"invalid modified UTF-8 string at offset {offset}"
  | invalidDescriptor text => "invalid type descriptor " ++ Quoted.quote text

end FormatError

end Jvm
