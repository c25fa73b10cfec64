import Jvm.Proofs.Text.Acceptance

/-! # The modified form and what else is read

In the modified form a zero takes two bytes and any other unit as few as hold it
(`ByteGroup.IsModified`). Longer groups are read all the same, and so is a zero byte, so a text that
was read is written back as the bytes it came from exactly if all their groups are in this form
(`ModifiedUtf8.written_back_iff`). -/

namespace Jvm

namespace Utf16

/-- Every surrogate is half of a pair. -/
inductive Paired : List UInt16 → Prop
  | nil : Paired []
  | whole {unit : UInt16} {units : List UInt16} :
      IsWhole unit → Paired units → Paired (unit :: units)
  | pair {high low : UInt16} {units : List UInt16} :
      isHighSurrogate high = true → isLowSurrogate low = true → Paired units →
      Paired (high :: low :: units)

variable {unit high low : UInt16} {units : List UInt16}

theorem unitsOf_whole (h : IsWhole unit) : unitsOf (Char.ofNat unit.toNat) = [unit] := by
  rw [unitsOf, toNat_ofNat_of_isWhole h, if_pos unit.toNat_lt, UInt16.ofNat_toNat]

theorem unitsOf_joinSurrogates (hhigh : isHighSurrogate high = true)
    (hlow : isLowSurrogate low = true) : unitsOf (joinSurrogates high low) = [high, low] := by
  have hjoin := toNat_joinSurrogates hhigh hlow
  rw [isHighSurrogate_iff] at hhigh
  rw [isLowSurrogate_iff] at hlow
  have hfirst : 0xd800 + ((joinSurrogates high low).toNat - 0x10000) / 0x400 = high.toNat := by
    omega
  have hsecond : 0xdc00 + ((joinSurrogates high low).toNat - 0x10000) % 0x400 = low.toNat := by
    omega
  rw [unitsOf, if_neg (by omega), hfirst, hsecond, UInt16.ofNat_toNat, UInt16.ofNat_toNat]

/-- Units are given back by the text that they spell, unless a surrogate was replaced. -/
theorem Paired.encode_decodeLossy (h : Paired units) : encode (decodeLossy units) = units := by
  induction h with
  | nil => rfl
  | whole hunit _ ih =>
    rw [decodeLossy_whole hunit, encode, List.flatMap_cons, unitsOf_whole hunit, ← encode, ih]
    rfl
  | pair hhigh hlow _ ih =>
    rw [decodeLossy_pair hhigh hlow, encode, List.flatMap_cons, unitsOf_joinSurrogates hhigh hlow,
      ← encode, ih]
    rfl

end Utf16

namespace ByteGroup

/-- Zero in two bytes, any other number in as few as hold it. -/
def IsModified (group : ByteGroup) : Prop :=
  group.code = 0 ∧ group.width = 2 ∨ group.code ≠ 0 ∧ Utf8.least group.width ≤ group.code

instance (group : ByteGroup) : Decidable group.IsModified := inferInstanceAs (Decidable (_ ∨ _))

end ByteGroup

namespace ModifiedUtf8

variable {bytes : List UInt8} {text : String} {group : ByteGroup} {groups : List ByteGroup}

theorem toNat_unitOf (hfits : group.Fits) (hwidth : group.width ≤ 3) :
    (unitOf group).toNat = group.code := by
  have hcases := ByteGroup.fits_iff.mp hfits
  rw [unitOf, UInt16.toNat_ofNat', Nat.mod_eq_of_lt (by omega)]

/-- The groups in the modified form are those that units are written as. -/
theorem groupOf_unitOf_iff (hfits : group.Fits) (hwidth : group.width ≤ 3) :
    groupOf (unitOf group) = group ↔ group.IsModified := by
  have hcode := toNat_unitOf hfits hwidth
  obtain ⟨width, code⟩ := group
  have hcases := ByteGroup.fits_iff.mp hfits
  simp only [groupOf, hcode, ByteGroup.mk.injEq, and_true] at hcases ⊢
  obtain ⟨rfl, hlt⟩ | ⟨rfl, hlt⟩ | ⟨rfl, hlt⟩ | ⟨rfl, hlt⟩ := hcases
  · simp only [ByteGroup.IsModified, Utf8.least]
    grind
  · simp only [ByteGroup.IsModified, Utf8.least]
    grind
  · simp only [ByteGroup.IsModified, Utf8.least]
    grind
  · simp at hwidth

/-- Units are written as the groups they were read from if these are in the modified form. -/
theorem encodeUnits_eq_iff (h : GroupedAs bytes groups) :
    encodeUnits (groups.map unitOf) = bytes ↔ ∀ group ∈ groups, group.IsModified := by
  -- Both are bytes of groups, and bytes fall into groups in one way.
  have hwritten := groupedAs_encodeUnits (groups.map unitOf)
  have hsame : encodeUnits (groups.map unitOf) = bytes ↔
      (groups.map unitOf).map groupOf = groups := by
    constructor
    · intro heq
      rw [heq] at hwritten
      exact hwritten.unique h
    · intro heq
      rw [hwritten.2, heq, h.2]
  have hself : (groups.map unitOf).map groupOf = groups ↔
      ∀ group ∈ groups, groupOf (unitOf group) = group := by
    simpa using List.map_inj_left (f := groupOf ∘ unitOf) (g := id) (l := groups)
  rw [hsame, hself]
  refine forall₂_congr ?_
  intro group hgroup
  obtain ⟨hfits, hwidth⟩ := h.1 group hgroup
  exact groupOf_unitOf_iff hfits hwidth

/-- Bytes that fall into groups are read as what the units spell, standard UTF-8 too. -/
theorem decode?_of_groupedAs (h : GroupedAs bytes groups) :
    decode? bytes = some (.ofList (Utf16.decodeLossy (groups.map unitOf))) := by
  have hunits := decodeUnits?_of_groupedAs h
  by_cases hvalid : bytes.toByteArray.IsValidUTF8
  · obtain ⟨text, htext⟩ := exists_standard_of_isValid hvalid
    rw [decodeUnits?_standard htext, Option.ite_none_left_eq_some] at hunits
    rw [decode?_of_standard htext, hunits.2]
  · rw [decode?_of_not_standard hvalid, hunits]

/-- The text tells the units if none of them is a surrogate on its own. -/
theorem units_of_decode? (h : GroupedAs bytes groups) (hpaired : Utf16.Paired (groups.map unitOf))
    (hread : decode? bytes = some text) : Utf16.encode text.toList = groups.map unitOf := by
  rw [decode?_of_groupedAs h] at hread
  rw [← Option.some.inj hread, String.toList_ofList, hpaired.encode_decodeLossy]

/-- Bytes that are read but are no standard UTF-8 fall into groups. Where no surrogate among their
units is on its own, the text that is read is written back as these bytes exactly if each group is
in the modified form. Others read as the same text have the same units, so of all of them only one
is in the modified form. -/
theorem written_back_iff (hstandard : ¬ bytes.toByteArray.IsValidUTF8)
    (hread : decode? bytes = some text) :
    ∃ groups, GroupedAs bytes groups ∧ (Utf16.Paired (groups.map unitOf) →
      (encode text = bytes ↔ ∀ group ∈ groups, group.IsModified) ∧
      ∀ bytes' groups', GroupedAs bytes' groups' → Utf16.Paired (groups'.map unitOf) →
        decode? bytes' = some text → groups'.map unitOf = groups.map unitOf ∧
          ((∀ group ∈ groups, group.IsModified) → (∀ group ∈ groups', group.IsModified) →
            bytes' = bytes)) := by
  obtain ⟨groups, hgroups, -⟩ :=
    exists_groupedAs_of_decodeUnits? (decode?_of_not_standard hstandard ▸ hread)
  refine ⟨groups, hgroups, ?_⟩
  intro hpaired
  have hunits := units_of_decode? hgroups hpaired hread
  have hwritten : encode text = bytes ↔ ∀ group ∈ groups, group.IsModified := by
    rw [encode, hunits, encodeUnits_eq_iff hgroups]
  refine ⟨hwritten, ?_⟩
  intro bytes' groups' hgroups' hpaired' hread'
  have hunits' := units_of_decode? hgroups' hpaired' hread'
  refine ⟨hunits'.symm.trans hunits, ?_⟩
  intro hmodified hmodified'
  rw [← hwritten.mpr hmodified, encode, hunits', (encodeUnits_eq_iff hgroups').mpr hmodified']

theorem written_back_iff_zeroAndPair :
    ¬ [0xc0, 0x80, 0xed, 0xa0, 0xbd, 0xed, 0xb8, 0x80].toByteArray.IsValidUTF8 ∧
    decode? [0xc0, 0x80, 0xed, 0xa0, 0xbd, 0xed, 0xb8, 0x80] = some "\x00😀" ∧
    encode "\x00😀" = [0xc0, 0x80, 0xed, 0xa0, 0xbd, 0xed, 0xb8, 0x80] := by
  have hstandard : ¬ [0xc0, 0x80, 0xed, 0xa0, 0xbd, 0xed, 0xb8, 0x80].toByteArray.IsValidUTF8 := by
    decide +kernel
  have hread : decode? [0xc0, 0x80, 0xed, 0xa0, 0xbd, 0xed, 0xb8, 0x80] = some "\x00😀" := by
    decide +kernel
  obtain ⟨groups, hgroups, hback⟩ := written_back_iff hstandard hread
  obtain rfl : groups = [⟨2, 0⟩, ⟨3, 0xd83d⟩, ⟨3, 0xde00⟩] := hgroups.unique (by decide)
  have hpaired : Utf16.Paired [0, 0xd83d, 0xde00] :=
    .whole (by simp [Utf16.IsWhole]) (.pair rfl rfl .nil)
  exact ⟨hstandard, hread, (hback hpaired).1.mpr (by decide)⟩

/-- A letter in two bytes is read, and written back in one. It makes two names the same text. -/
theorem not_written_back_overlong :
    ¬ [0xc1, 0x81].toByteArray.IsValidUTF8 ∧ decode? [0xc1, 0x81] = some "A" ∧
    GroupedAs [0xc1, 0x81] [⟨2, 0x41⟩] ∧ Utf16.Paired ([⟨2, 0x41⟩].map unitOf) ∧
    encode "A" ≠ [0xc1, 0x81] ∧
    ¬ [0xc1, 0x81, 0xc0, 0x80].toByteArray.IsValidUTF8 ∧
    ¬ [0x41, 0xc0, 0x80].toByteArray.IsValidUTF8 ∧
    decode? [0xc1, 0x81, 0xc0, 0x80] = some "A\x00" ∧ decode? [0x41, 0xc0, 0x80] = some "A\x00" := by
  have hpaired : Utf16.Paired ([⟨2, 0x41⟩].map unitOf) :=
    .whole (by simp [Utf16.IsWhole, unitOf]) .nil
  refine ⟨?_, ?_, by decide, hpaired, ?_, ?_, ?_, ?_, ?_⟩
  all_goals decide +kernel

end ModifiedUtf8

end Jvm
