import Jvm.Proofs.Text.Units

/-! # Encoded units decode

Each unit is written as a group of its own (`bytes_groupOf`), so reading gives the units back
(`units?_encodeUnits`). If the bytes are standard UTF-8 as well, the units are those of the text
that they are read as; otherwise the units are decoded as such. Either way `decode?_encodeUnits`
gives the lossy decoding of the units, which for the units of a text is the text
(`decode?_encode`). -/

namespace Jvm

namespace Utf16

/-- Not half of a pair. -/
def IsWhole (unit : UInt16) : Prop := ¬ (0xd800 ≤ unit.toNat ∧ unit.toNat < 0xe000)

theorem isHighSurrogate_iff {unit : UInt16} :
    isHighSurrogate unit = true ↔ 0xd800 ≤ unit.toNat ∧ unit.toNat < 0xdc00 := by
  simp [isHighSurrogate]

theorem isLowSurrogate_iff {unit : UInt16} :
    isLowSurrogate unit = true ↔ 0xdc00 ≤ unit.toNat ∧ unit.toNat < 0xe000 := by
  simp [isLowSurrogate]

theorem decodeLossy_whole {unit : UInt16} (h : IsWhole unit) (units : List UInt16) :
    decodeLossy (unit :: units) = Char.ofNat unit.toNat :: decodeLossy units := by
  have hhigh : ¬ isHighSurrogate unit = true := by
    rw [isHighSurrogate_iff]; unfold IsWhole at h; omega
  have hlow : ¬ isLowSurrogate unit = true := by
    rw [isLowSurrogate_iff]; unfold IsWhole at h; omega
  rw [decodeLossy, decodeOnto.eq_def]
  simp only [if_neg hhigh, if_neg hlow]
  rw [decodeOnto_eq]
  rfl

theorem decodeLossy_pair {high low : UInt16} (hhigh : isHighSurrogate high = true)
    (hlow : isLowSurrogate low = true) (units : List UInt16) :
    decodeLossy (high :: low :: units) = joinSurrogates high low :: decodeLossy units := by
  rw [decodeLossy, decodeOnto.eq_def]
  simp only [if_pos hhigh, if_pos hlow]
  rw [decodeOnto_eq]
  rfl

theorem decodeLossy_unitsOf (c : Char) (units : List UInt16) :
    decodeLossy (unitsOf c ++ units) = c :: decodeLossy units := by
  have hvalid : c.toNat < 0xd800 ∨ 0xdfff < c.toNat ∧ c.toNat < 0x110000 := c.valid
  by_cases h : c.toNat < 0x10000
  · have hunit : (UInt16.ofNat c.toNat).toNat = c.toNat := by
      rw [UInt16.toNat_ofNat', Nat.mod_eq_of_lt h]
    have hwhole : IsWhole (.ofNat c.toNat) := by
      rw [IsWhole, hunit]; omega
    rw [unitsOf, if_pos h, List.singleton_append, decodeLossy_whole hwhole, hunit,
      Char.ofNat_toNat]
  · have hhigh : (UInt16.ofNat (0xd800 + (c.toNat - 0x10000) / 0x400)).toNat =
        0xd800 + (c.toNat - 0x10000) / 0x400 := by
      rw [UInt16.toNat_ofNat', Nat.mod_eq_of_lt (by omega)]
    have hlow : (UInt16.ofNat (0xdc00 + (c.toNat - 0x10000) % 0x400)).toNat =
        0xdc00 + (c.toNat - 0x10000) % 0x400 := by
      rw [UInt16.toNat_ofNat', Nat.mod_eq_of_lt (by omega)]
    have hjoin : 0x10000 + (0xd800 + (c.toNat - 0x10000) / 0x400 - 0xd800) * 0x400 +
        (0xdc00 + (c.toNat - 0x10000) % 0x400 - 0xdc00) = c.toNat := by omega
    rw [unitsOf, if_neg h, List.cons_append, List.singleton_append,
      decodeLossy_pair (isHighSurrogate_iff.mpr (by omega)) (isLowSurrogate_iff.mpr (by omega)),
      joinSurrogates, hhigh, hlow, hjoin, Char.ofNat_toNat]

theorem decodeLossy_encode (text : List Char) : decodeLossy (encode text) = text := by
  induction text with
  | nil => rfl
  | cons c text ih =>
    rw [encode, List.flatMap_cons, decodeLossy_unitsOf, ← encode, ih]

end Utf16

namespace ModifiedUtf8

/-- The group that a unit is written as. -/
def groupOf (unit : UInt16) : ByteGroup :=
  ⟨if unit.toNat = 0 ∨ 0x80 ≤ unit.toNat ∧ unit.toNat < 0x800 then 2
    else if unit.toNat < 0x80 then 1 else 3, unit.toNat⟩

theorem fits_groupOf (unit : UInt16) : (groupOf unit).Fits := by
  have hlt : unit.toNat < 65536 := unit.toNat_lt
  rw [ByteGroup.fits_iff, groupOf]
  grind

theorem bytes_groupOf (unit : UInt16) : (groupOf unit).bytes = encodeUnit unit := by
  unfold encodeUnit groupOf
  by_cases htwo : unit.toNat = 0 ∨ 0x80 ≤ unit.toNat ∧ unit.toNat < 0x800
  · simp only [if_pos htwo]
    simp [ByteGroup.bytes, ByteGroup.mark, ByteGroup.tails]
  · by_cases hone : unit.toNat < 0x80
    · simp only [if_neg htwo, if_pos hone]
      simp [ByteGroup.bytes, ByteGroup.mark, ByteGroup.tails]
    · simp only [if_neg htwo, if_neg hone]
      simp [ByteGroup.bytes, ByteGroup.mark, ByteGroup.tails]

theorem encodeUnits_eq (units : List UInt16) :
    encodeUnits units = (units.map groupOf).flatMap ByteGroup.bytes := by
  rw [encodeUnits, List.flatMap_map]
  simp only [bytes_groupOf]

theorem width_groupOf_le (unit : UInt16) : (groupOf unit).width ≤ 3 := by
  unfold groupOf
  grind

theorem unitOf_groupOf (unit : UInt16) : unitOf (groupOf unit) = unit := by
  simp [unitOf, groupOf]

theorem groupedAs_encodeUnits (units : List UInt16) :
    GroupedAs (encodeUnits units) (units.map groupOf) := by
  refine ⟨?_, encodeUnits_eq units⟩
  simp [fits_groupOf, width_groupOf_le]

theorem units?_encodeUnits (units : List UInt16) : units? (encodeUnits units) = some units := by
  refine units?_eq_some_iff.mpr ⟨_, groupedAs_encodeUnits units, ?_⟩
  simp [Function.comp_def, unitOf_groupOf]

/-- Whichever form the bytes are read in, they are the lossy decoding of the units. -/
theorem decode?_encodeUnits (units : List UInt16) :
    decode? (encodeUnits units) = some (.ofList (Utf16.decodeLossy units)) := by
  unfold decode?
  cases hutf8 : Utf8.decode? (encodeUnits units) with
  | none => simp only [units?_encodeUnits, Option.map_some]
  | some text =>
    have hunits := units?_encodeUnits units
    rw [Utf8.decode?_eq_some_iff.mp hutf8, units?_standard, Option.ite_none_left_eq_some] at hunits
    rw [← Option.some.inj hunits.2, Utf16.decodeLossy_encode]

theorem decode?_encode (text : String) : decode? (encode text) = some text := by
  rw [encode, decode?_encodeUnits, Utf16.decodeLossy_encode, String.ofList_toList]

end ModifiedUtf8

end Jvm
