/-! Numbers as big-endian bytes. `value` reads a byte string as one number and `digits` writes a
number into a given width; each undoes the other as far as the width reaches (`value_digits`,
`digits_value`). -/

namespace Jvm.BigEndian

/-- The number that the bytes spell, most significant byte first. -/
def value (bytes : List UInt8) : Nat :=
  bytes.foldl (fun total byte => total * 256 + byte.toNat) 0

/-- The low `width` bytes of `n`, most significant byte first. -/
def digits : Nat → Nat → List UInt8
  | 0, _ => []
  | width + 1, n => digits width (n / 256) ++ [UInt8.ofNat n]

/-- How many numbers there are of `width` bytes. -/
def capacity : Nat → Nat
  | 0 => 1
  | width + 1 => 256 * capacity width

theorem capacity_pos (width : Nat) : 0 < capacity width := by
  induction width with
  | zero => exact Nat.one_pos
  | succ width ih => exact Nat.mul_pos (by decide) ih

@[simp] theorem value_nil : value [] = 0 := rfl

@[simp] theorem value_concat (bytes : List UInt8) (byte : UInt8) :
    value (bytes ++ [byte]) = value bytes * 256 + byte.toNat := by
  simp [value]

@[simp] theorem length_digits (width n : Nat) : (digits width n).length = width := by
  induction width generalizing n with
  | zero => rfl
  | succ width ih => simp [digits, ih]

theorem value_digits (width n : Nat) : value (digits width n) = n % capacity width := by
  induction width generalizing n with
  | zero => simp [digits, capacity, Nat.mod_one]
  | succ width ih =>
    rw [digits, value_concat, ih, UInt8.toNat_ofNat', capacity, Nat.mod_mul]
    omega

theorem value_digits_of_lt {width n : Nat} (h : n < capacity width) : value (digits width n) = n := by
  rw [value_digits, Nat.mod_eq_of_lt h]

theorem digits_value (bytes : List UInt8) : digits bytes.length (value bytes) = bytes := by
  induction h : bytes.length generalizing bytes with
  | zero => simp [List.length_eq_zero_iff.mp h, digits]
  | succ width ih =>
    have hne : bytes ≠ [] := by intro e; simp [e] at h
    have hlast := (bytes.getLast hne).toNat_lt
    have hvalue : value bytes = value bytes.dropLast * 256 + (bytes.getLast hne).toNat := by
      rw [← value_concat, List.dropLast_concat_getLast]
    have hdiv : value bytes / 256 = value bytes.dropLast := by omega
    have hbyte : UInt8.ofNat (value bytes) = bytes.getLast hne := by
      apply UInt8.toNat_inj.mp
      rw [UInt8.toNat_ofNat']
      omega
    rw [digits, hdiv, hbyte, ih bytes.dropLast (by simp [h]), List.dropLast_concat_getLast]

theorem value_lt (bytes : List UInt8) : value bytes < capacity bytes.length := by
  have h := value_digits bytes.length (value bytes)
  rw [digits_value] at h
  rw [h]
  exact Nat.mod_lt _ (capacity_pos _)

end Jvm.BigEndian
