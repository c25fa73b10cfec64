import Jvm.Text.Utf16
import Jvm.Text.Utf8

/-! The text encoding of class files. Each UTF-16 unit is a group of one to three bytes of its own,
so a character beyond U+FFFF is written as two surrogates, and the zero unit is written `C0 80`,
which keeps zero bytes out of texts. Standard UTF-8 is read as well. -/

namespace Jvm.ModifiedUtf8

/-- The unit that a group stands for. Longer groups than the number needs are read, four-byte
groups are not. -/
def unit? (group : ByteGroup) : Option UInt16 :=
  if group.width ≤ 3 then some (.ofNat group.code) else none

/-- The units of a byte string in the modified form. -/
def units? (bytes : List UInt8) : Option (List UInt16) := do
  let groups ← ByteGroup.split? bytes
  groups.mapM unit?

/-- The text of a byte string in either form. A string that is well-formed in both is read as the
standard form, and surrogates without a partner become U+FFFD. -/
def decode? (bytes : List UInt8) : Option String :=
  match Utf8.decode? bytes with
  | some text => some (.ofList text)
  | none => (units? bytes).map fun units => .ofList (Utf16.decodeLossy units)

/-- The bytes of one unit. -/
def encodeUnit (unit : UInt16) : List UInt8 :=
  let n := unit.toNat
  if n = 0 ∨ 0x80 ≤ n ∧ n < 0x800 then [.ofNat (0xc0 + n / 64), .ofNat (0x80 + n % 64)]
  else if n < 0x80 then [.ofNat n]
  else [.ofNat (0xe0 + n / 4096), .ofNat (0x80 + n / 64 % 64), .ofNat (0x80 + n % 64)]

/-- The bytes of a list of units. -/
def encodeUnits (units : List UInt16) : List UInt8 := units.flatMap encodeUnit

/-- The bytes of a text. -/
def encode (text : String) : List UInt8 := encodeUnits (Utf16.encode text.toList)

end Jvm.ModifiedUtf8
