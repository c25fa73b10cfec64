import Jvm.Proofs.Text.Encoding

/-! # What a list of units spells

UTF-16 told without a decoder: a unit outside the surrogates spells its own character, a high
surrogate spells one character beyond U+FFFF with the low one behind it, and a surrogate that is
not part of such a pair spells U+FFFD (`Utf16.Spells`). Every list of units spells exactly one
text, which is the one that decoding gives (`Utf16.spells_iff`) and so the one that is read back
from the bytes of the units. -/

namespace Jvm

namespace Utf16

/-- A high surrogate with a low one behind it. -/
def BeginsPair (unit : UInt16) (rest : List UInt16) : Prop :=
  isHighSurrogate unit = true ∧ ∃ low, rest.head? = some low ∧ isLowSurrogate low = true

/-- The units spell the text. -/
inductive Spells : List UInt16 → List Char → Prop
  | nil : Spells [] []
  | whole {unit : UInt16} {c : Char} {units : List UInt16} {text : List Char} :
      c.toNat = unit.toNat → Spells units text → Spells (unit :: units) (c :: text)
  | pair {high low : UInt16} {c : Char} {units : List UInt16} {text : List Char} :
      isHighSurrogate high = true → isLowSurrogate low = true →
      c.toNat = 0x10000 + (high.toNat - 0xd800) * 0x400 + (low.toNat - 0xdc00) →
      Spells units text → Spells (high :: low :: units) (c :: text)
  | lone {unit : UInt16} {units : List UInt16} {text : List Char} :
      0xd800 ≤ unit.toNat → unit.toNat < 0xe000 → ¬ BeginsPair unit units →
      Spells units text → Spells (unit :: units) ('\uFFFD' :: text)

variable {unit high low : UInt16} {units : List UInt16} {text : List Char}

theorem isWhole_of_char {c : Char} (h : c.toNat = unit.toNat) : IsWhole unit := by
  have hvalid : c.toNat < 0xd800 ∨ 0xdfff < c.toNat ∧ c.toNat < 0x110000 := c.valid
  intro hsurrogate
  omega

theorem toNat_ofNat_of_isWhole (h : IsWhole unit) : (Char.ofNat unit.toNat).toNat = unit.toNat := by
  have hlt : unit.toNat < 65536 := unit.toNat_lt
  unfold IsWhole at h
  exact toNat_ofNat_of_valid (by rw [Nat.isValidChar]; omega)

theorem toNat_joinSurrogates (hhigh : isHighSurrogate high = true)
    (hlow : isLowSurrogate low = true) : (joinSurrogates high low).toNat =
      0x10000 + (high.toNat - 0xd800) * 0x400 + (low.toNat - 0xdc00) := by
  rw [isHighSurrogate_iff] at hhigh
  rw [isLowSurrogate_iff] at hlow
  exact toNat_ofNat_of_valid (by rw [Nat.isValidChar]; omega)

theorem decodeLossy_lone (hge : 0xd800 ≤ unit.toNat) (hlt : unit.toNat < 0xe000)
    (h : ¬ BeginsPair unit units) :
    decodeLossy (unit :: units) = '\uFFFD' :: decodeLossy units := by
  by_cases hhigh : isHighSurrogate unit = true
  · cases units with
    | nil => simp [decodeLossy, decodeOnto, hhigh, replacement]
    | cons low units =>
      have hlow : ¬ isLowSurrogate low = true := fun hlow => h ⟨hhigh, low, rfl, hlow⟩
      rw [decodeLossy, decodeOnto.eq_def]
      simp only [if_pos hhigh, if_neg hlow]
      rw [decodeOnto_eq]
      simp [replacement]
  · have hlow : isLowSurrogate unit = true := by
      rw [isHighSurrogate_iff] at hhigh
      rw [isLowSurrogate_iff]
      omega
    rw [decodeLossy, decodeOnto.eq_def]
    simp only [if_neg hhigh, if_pos hlow]
    rw [decodeOnto_eq]
    simp [replacement]

theorem Spells.decodeLossy_eq (h : Spells units text) : decodeLossy units = text := by
  induction h with
  | nil => rfl
  | @whole unit c units text hc _ ih =>
    rw [decodeLossy_whole (isWhole_of_char hc), ih, ← hc, Char.ofNat_toNat]
  | @pair high low c units text hhigh hlow hc _ ih =>
    have hjoin : joinSurrogates high low = c := by
      rw [joinSurrogates, ← hc, Char.ofNat_toNat]
    rw [decodeLossy_pair hhigh hlow, ih, hjoin]
  | lone hge hlt hpair _ ih => rw [decodeLossy_lone hge hlt hpair, ih]

/-- Every list of units spells a text. -/
theorem spells_decodeLossy (units : List UInt16) : Spells units (decodeLossy units) := by
  match units with
  | [] => exact .nil
  | unit :: units =>
    by_cases hwhole : IsWhole unit
    · rw [decodeLossy_whole hwhole]
      exact .whole (toNat_ofNat_of_isWhole hwhole) (spells_decodeLossy units)
    · unfold IsWhole at hwhole
      by_cases hpair : BeginsPair unit units
      · obtain ⟨hhigh, low, hhead, hlow⟩ := hpair
        obtain ⟨rest, rfl⟩ := List.head?_eq_some_iff.mp hhead
        rw [decodeLossy_pair hhigh hlow]
        exact .pair hhigh hlow (toNat_joinSurrogates hhigh hlow) (spells_decodeLossy rest)
      · rw [decodeLossy_lone (by omega) (by omega) hpair]
        exact .lone (by omega) (by omega) hpair (spells_decodeLossy units)
termination_by units.length

theorem spells_iff : Spells units text ↔ text = decodeLossy units := by
  constructor
  · intro h
    exact h.decodeLossy_eq.symm
  · intro h
    exact h ▸ spells_decodeLossy units

end Utf16

namespace ModifiedUtf8

/-- The bytes of any list of units, be its surrogates paired or not, are read as the one text that
the units spell, and the bytes of a text are read as that text. -/
theorem encoded_read_as_spelled :
    (∀ units : List UInt16, ∃ text : String, decode? (encodeUnits units) = some text ∧
      ∀ chars, Utf16.Spells units chars ↔ chars = text.toList) ∧
    ∀ text : String, decode? (encode text) = some text := by
  refine ⟨fun units => ?_, decode?_encode⟩
  refine ⟨.ofList (Utf16.decodeLossy units), decode?_encodeUnits units, fun chars => ?_⟩
  rw [Utf16.spells_iff, String.toList_ofList]

/-- A zero unit takes two bytes, a letter one, and each surrogate three, with its partner or not. -/
example : encodeUnits [0, 0x41, 0xd83d, 0xde00, 0xd83d] =
    [0xc0, 0x80, 0x41, 0xed, 0xa0, 0xbd, 0xed, 0xb8, 0x80, 0xed, 0xa0, 0xbd] := by decide

end ModifiedUtf8

end Jvm
