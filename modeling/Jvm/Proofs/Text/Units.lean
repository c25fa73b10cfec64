import Jvm.Proofs.Text.Utf8
import Jvm.Text.ModifiedUtf8

/-! # Groups read as units

Read as units, bytes have to fall into groups of one to three bytes, and each group is one unit
(`ModifiedUtf8.units?_eq_some_iff`). Standard UTF-8 without a group of four bytes gives the units of
its text in this way, and with one it gives none (`ModifiedUtf8.units?_standard`). -/

namespace Jvm.ModifiedUtf8

variable {bytes : List UInt8} {units : List UInt16} {groups : List ByteGroup}

/-- The bytes are those of the groups one behind the other, of at most three bytes each. -/
def GroupedAs (bytes : List UInt8) (groups : List ByteGroup) : Prop :=
  (∀ group ∈ groups, group.Fits ∧ group.width ≤ 3) ∧ bytes = groups.flatMap ByteGroup.bytes

instance (bytes : List UInt8) (groups : List ByteGroup) : Decidable (GroupedAs bytes groups) :=
  inferInstanceAs (Decidable (_ ∧ _))

/-- The unit that the free bits of a group spell. -/
def unitOf (group : ByteGroup) : UInt16 := .ofNat group.code

theorem groupedAs_iff : GroupedAs bytes groups ↔
    ByteGroup.split? bytes = some groups ∧ ∀ group ∈ groups, group.width ≤ 3 := by
  have hboth : (∀ group ∈ groups, group.Fits ∧ group.width ≤ 3) ↔
      (∀ group ∈ groups, group.Fits) ∧ ∀ group ∈ groups, group.width ≤ 3 :=
    ⟨fun h => ⟨fun group hmem => (h group hmem).1, fun group hmem => (h group hmem).2⟩,
      fun h group hmem => ⟨h.1 group hmem, h.2 group hmem⟩⟩
  rw [ByteGroup.split?_eq_some_iff, GroupedAs, hboth, and_right_comm]

theorem GroupedAs.unique {groups' : List ByteGroup} (h : GroupedAs bytes groups)
    (h' : GroupedAs bytes groups') : groups = groups' := by
  rw [groupedAs_iff] at h h'
  exact Option.some.inj (h.1.symm.trans h'.1)

theorem mapM_unit?_eq_some_iff : groups.mapM unit? = some units ↔
    (∀ group ∈ groups, group.width ≤ 3) ∧ units = groups.map unitOf := by
  rw [mapM_eq_some_iff]
  induction groups generalizing units with
  | nil => cases units <;> simp
  | cons group groups ih =>
    cases units with
    | nil => simp
    | cons unit units =>
      have hunit : unit? group = some unit ↔ group.width ≤ 3 ∧ unit = unitOf group := by
        simp [unit?, unitOf, eq_comm]
      simp only [List.map_cons, List.cons.injEq, hunit, ih, List.forall_mem_cons]
      exact and_and_and_comm

/-- Each group gives one unit, in their order. -/
theorem units?_eq_some_iff : units? bytes = some units ↔
    ∃ groups, GroupedAs bytes groups ∧ units = groups.map unitOf := by
  rw [units?, Option.bind_eq_bind, Option.bind_eq_some_iff]
  simp only [mapM_unit?_eq_some_iff, groupedAs_iff, and_assoc]

theorem width_groupOf_le_iff (c : Char) : (Utf8.groupOf c).width ≤ 3 ↔ c.toNat < 0x10000 := by
  rw [Utf8.groupOf, Utf8.utf8Size_eq]
  grind

/-- The groups of standard UTF-8 are those of the characters. -/
theorem groupedAs_standard_iff {text : List Char} :
    GroupedAs (text.flatMap String.utf8EncodeChar) groups ↔
      groups = text.map Utf8.groupOf ∧ ∀ c ∈ text, c.toNat < 0x10000 := by
  have hsplit : ByteGroup.split? (text.flatMap String.utf8EncodeChar) =
      some (text.map Utf8.groupOf) := by
    rw [Utf8.utf8Encode_eq_flatMap]
    exact ByteGroup.split?_eq_some_iff.mpr ⟨by simp [Utf8.fits_groupOf], rfl⟩
  rw [groupedAs_iff, hsplit, Option.some.injEq, eq_comm]
  refine and_congr_right fun hgroups => ?_
  simp [hgroups, width_groupOf_le_iff]

theorem encode_eq_map {text : List Char} (h : ∀ c ∈ text, c.toNat < 0x10000) :
    Utf16.encode text = (text.map Utf8.groupOf).map unitOf := by
  induction text with
  | nil => rfl
  | cons c text ih =>
    obtain ⟨hc, htext⟩ := List.forall_mem_cons.mp h
    rw [Utf16.encode, List.flatMap_cons, Utf16.unitsOf, if_pos hc, ← Utf16.encode, ih htext]
    rfl

/-- The units of a text in standard UTF-8. -/
theorem units?_standard (text : List Char) : units? (text.flatMap String.utf8EncodeChar) =
    if text.any (·.utf8Size == 4) then none else some (Utf16.encode text) := by
  have hwide : text.any (·.utf8Size == 4) = true ↔ ¬ ∀ c ∈ text, c.toNat < 0x10000 := by
    simp [Utf8.utf8Size_eq_four_iff]
  by_cases hnarrow : ∀ c ∈ text, c.toNat < 0x10000
  · rw [if_neg (mt hwide.mp (not_not_intro hnarrow))]
    exact units?_eq_some_iff.mpr
      ⟨_, groupedAs_standard_iff.mpr ⟨rfl, hnarrow⟩, encode_eq_map hnarrow⟩
  · rw [if_pos (hwide.mpr hnarrow), Option.eq_none_iff_forall_ne_some]
    intro units hunits
    obtain ⟨groups, hgroups, -⟩ := units?_eq_some_iff.mp hunits
    exact hnarrow (groupedAs_standard_iff.mp hgroups).2

end Jvm.ModifiedUtf8
