import Jvm.Text.ByteGroup

/-! Standard UTF-8: each character in the shortest group that holds its number. -/

namespace Jvm.Utf8

/-- The least number that needs a group of `width` bytes. -/
def least (width : Nat) : Nat :=
  match width with
  | 2 => 0x80
  | 3 => 0x800
  | 4 => 0x10000
  | _ => 0

/-- The character that a group stands for: a group longer than its number needs stands for none,
nor does a surrogate or a number beyond the last character. -/
def char? (group : ByteGroup) : Option Char :=
  if least group.width ≤ group.code ∧ group.code.isValidChar then some (.ofNat group.code) else none

/-- The text of a well-formed byte string. -/
def decode? (bytes : List UInt8) : Option (List Char) := do
  let groups ← ByteGroup.split? bytes
  groups.mapM char?

end Jvm.Utf8
