import Jvm.Proofs.Text.Groups
import Jvm.Text.Utf8

/-! # Standard UTF-8

Each character has one group, of the width that the library gives it and with its number
(`Utf8.groupOf`), and the bytes of this group are those that the library encodes the character as.
So reading gives back exactly the texts that the bytes encode (`Utf8.decode?_eq_some_iff`), and some
text exactly if the bytes are valid UTF-8 (`Utf8.isValid_iff`). -/

namespace Jvm

theorem toNat_ofNat_of_valid {n : Nat} (h : n.isValidChar) : (Char.ofNat n).toNat = n := by
  rw [Char.ofNat, dif_pos h]
  rfl

namespace Utf8

/-- The group that a character is written as. -/
def groupOf (c : Char) : ByteGroup := ⟨c.utf8Size, c.toNat⟩

variable {c : Char} {group : ByteGroup} {bytes : List UInt8} {text : List Char}

theorem utf8Size_eq (c : Char) : c.utf8Size =
    if c.toNat < 0x80 then 1 else if c.toNat < 0x800 then 2 else if c.toNat < 0x10000 then 3
      else 4 := by
  have hle (n : UInt32) : c.val ≤ n ↔ c.toNat < n.toNat + 1 := by
    rw [UInt32.le_iff_toNat_le, Nat.lt_succ_iff]
    rfl
  simp only [Char.utf8Size, hle]
  rfl

theorem utf8Size_eq_four_iff (c : Char) : c.utf8Size = 4 ↔ ¬ c.toNat < 0x10000 := by
  rw [utf8Size_eq]
  grind

theorem toNat_lt (c : Char) : c.toNat < 0x110000 := by
  have hvalid : c.toNat < 0xd800 ∨ 0xdfff < c.toNat ∧ c.toNat < 0x110000 := c.valid
  omega

theorem fits_groupOf (c : Char) : (groupOf c).Fits := by
  have hlt := toNat_lt c
  rw [ByteGroup.fits_iff, groupOf, utf8Size_eq]
  grind

theorem bytes_groupOf (c : Char) : (groupOf c).bytes = String.utf8EncodeChar c := by
  have hlt := toNat_lt c
  have hval : c.val.toNat = c.toNat := rfl
  have hsize := utf8Size_eq c
  simp only [groupOf, ByteGroup.bytes, String.utf8EncodeChar, hval]
  -- The library cuts the lead bits to their room, which the number does not exceed in any width.
  by_cases hone : c.toNat < 0x80
  · rw [if_pos hone] at hsize
    rw [hsize, if_pos (by omega)]
    simp [ByteGroup.mark, ByteGroup.tails]
  by_cases htwo : c.toNat < 0x800
  · rw [if_neg hone, if_pos htwo] at hsize
    have hlead : c.toNat / 64 % 32 = c.toNat / 64 := by omega
    rw [hsize, if_neg (by omega), if_pos (by omega), hlead]
    simp [ByteGroup.mark, ByteGroup.tails, Nat.add_comm]
  by_cases hthree : c.toNat < 0x10000
  · rw [if_neg hone, if_neg htwo, if_pos hthree] at hsize
    have hlead : c.toNat / 4096 % 16 = c.toNat / 4096 := by omega
    rw [hsize, if_neg (by omega), if_neg (by omega), if_pos (by omega), hlead]
    simp [ByteGroup.mark, ByteGroup.tails, Nat.add_comm]
  · rw [if_neg hone, if_neg htwo, if_neg hthree] at hsize
    have hlead : c.toNat / 262144 % 8 = c.toNat / 262144 := by omega
    rw [hsize, if_neg (by omega), if_neg (by omega), if_neg (by omega), hlead]
    simp [ByteGroup.mark, ByteGroup.tails, Nat.add_comm]

theorem utf8Encode_eq_flatMap (text : List Char) :
    text.flatMap String.utf8EncodeChar = (text.map groupOf).flatMap ByteGroup.bytes := by
  rw [List.flatMap_map]
  simp only [bytes_groupOf]

/-- The number of a group that fits is not too small for its width in just one width. -/
theorem least_le_iff (hfits : group.Fits) : least group.width ≤ group.code ↔
    group.width = if group.code < 0x80 then 1 else if group.code < 0x800 then 2
      else if group.code < 0x10000 then 3 else 4 := by
  obtain ⟨hwidth, hcode⟩ | ⟨hwidth, hcode⟩ | ⟨hwidth, hcode⟩ | ⟨hwidth, hcode⟩ :=
    ByteGroup.fits_iff.mp hfits
  all_goals
    simp only [hwidth, least]
    grind

/-- A group that fits stands for a character if it is the group of that character. -/
theorem char?_eq_some_iff (hfits : group.Fits) : char? group = some c ↔ group = groupOf c := by
  rw [char?, Option.ite_none_right_eq_some, least_le_iff hfits, Option.some.injEq]
  constructor
  · intro h
    obtain ⟨⟨hwidth, hvalid⟩, rfl⟩ := h
    rw [groupOf, utf8Size_eq, toNat_ofNat_of_valid hvalid, ← hwidth]
  · intro h
    subst h
    exact ⟨⟨utf8Size_eq c, c.valid⟩, Char.ofNat_toNat c⟩

theorem mapM_char?_eq_some_iff {groups : List ByteGroup} (hfits : ∀ group ∈ groups, group.Fits) :
    groups.mapM char? = some text ↔ groups = text.map groupOf := by
  rw [mapM_eq_some_iff]
  induction groups generalizing text with
  | nil => cases text <;> simp
  | cons group groups ih =>
    obtain ⟨hgroup, hgroups⟩ := List.forall_mem_cons.mp hfits
    cases text with
    | nil => simp
    | cons c text => simp [char?_eq_some_iff hgroup, ih hgroups]

/-- The bytes of a text are read as that text, and no other bytes are. -/
theorem decode?_eq_some_iff :
    decode? bytes = some text ↔ bytes = text.flatMap String.utf8EncodeChar := by
  have hfits : ∀ group ∈ text.map groupOf, group.Fits := by
    simp [fits_groupOf]
  rw [utf8Encode_eq_flatMap, decode?, Option.bind_eq_bind, Option.bind_eq_some_iff]
  constructor
  · intro h
    obtain ⟨groups, hsplit, htext⟩ := h
    obtain ⟨hgroups, rfl⟩ := ByteGroup.split?_eq_some_iff.mp hsplit
    rw [(mapM_char?_eq_some_iff hgroups).mp htext]
  · intro h
    subst h
    exact ⟨_, ByteGroup.split?_eq_some_iff.mpr ⟨hfits, rfl⟩, (mapM_char?_eq_some_iff hfits).mpr rfl⟩

theorem decode?_eq_some_toList_iff {text : String} :
    decode? bytes = some text.toList ↔ text.toUTF8 = bytes.toByteArray := by
  have hutf8 : text.toUTF8 = (text.toList.flatMap String.utf8EncodeChar).toByteArray := by
    rw [← List.utf8Encode, ← String.toByteArray_ofList, String.ofList_toList]
    rfl
  rw [decode?_eq_some_iff, hutf8, List.toByteArray_inj, eq_comm]

theorem isValid_iff : bytes.toByteArray.IsValidUTF8 ↔ ∃ text, decode? bytes = some text := by
  simp only [decode?_eq_some_iff]
  constructor
  · intro h
    obtain ⟨text, htext⟩ := h
    exact ⟨text, List.toByteArray_inj.mp htext⟩
  · intro h
    obtain ⟨text, rfl⟩ := h
    exact ⟨text, rfl⟩

end Utf8

end Jvm
