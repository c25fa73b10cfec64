/-! Numbers in lower-case hexadecimal. -/

namespace Jvm.Hex

/-- The digits of `n`, with no leading zero. -/
def digits (n : Nat) : String := .ofList (Nat.toDigits 16 n)

/-- The digits of `n`, with zeros in front up to `width` digits. -/
def padded (width n : Nat) : String :=
  let shown := Nat.toDigits 16 n
  .ofList (List.replicate (width - shown.length) '0' ++ shown)

end Jvm.Hex
