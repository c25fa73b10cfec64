import Jvm.Proofs.Text.Spelling

/-! # Which bytes are read as text

Bytes are read either as standard UTF-8 or as groups of at most three bytes, a unit each, whether
or not a group is longer than its number needs (`ModifiedUtf8.decode?_isSome_iff`). Where both ways
are open they agree; a character in four bytes closes the second one
(`ModifiedUtf8.decodeUnits?_standard`). -/

namespace Jvm.ModifiedUtf8

variable {bytes : List UInt8}

/-- The text that the bytes have as groups of units, be they standard UTF-8 or not. -/
def decodeUnits? (bytes : List UInt8) : Option String :=
  (units? bytes).map fun units => .ofList (Utf16.decodeLossy units)

/-- Standard UTF-8 is tried first. -/
theorem decode?_of_standard {text : String} (h : text.toUTF8 = bytes.toByteArray) :
    decode? bytes = some text := by
  rw [decode?, Utf8.decode?_eq_some_toList_iff.mpr h]
  simp

theorem decode?_of_not_standard (h : ¬ bytes.toByteArray.IsValidUTF8) :
    decode? bytes = decodeUnits? bytes := by
  cases hutf8 : Utf8.decode? bytes with
  | none => rw [decode?, hutf8, decodeUnits?]
  | some text => exact absurd (Utf8.isValid_iff.mpr ⟨text, hutf8⟩) h

theorem exists_standard_of_isValid (h : bytes.toByteArray.IsValidUTF8) :
    ∃ text : String, text.toUTF8 = bytes.toByteArray := by
  obtain ⟨text, htext⟩ := Utf8.isValid_iff.mp h
  refine ⟨.ofList text, Utf8.decode?_eq_some_toList_iff.mp ?_⟩
  rwa [String.toList_ofList]

theorem decodeUnits?_of_groupedAs {groups : List ByteGroup} (h : GroupedAs bytes groups) :
    decodeUnits? bytes = some (.ofList (Utf16.decodeLossy (groups.map unitOf))) := by
  rw [decodeUnits?, units?_eq_some_iff.mpr ⟨groups, h, rfl⟩, Option.map_some]

theorem exists_groupedAs_of_decodeUnits? {text : String} (h : decodeUnits? bytes = some text) :
    ∃ groups, GroupedAs bytes groups ∧
      text = .ofList (Utf16.decodeLossy (groups.map unitOf)) := by
  obtain ⟨units, hunits, rfl⟩ := Option.map_eq_some_iff.mp h
  obtain ⟨groups, hgroups, rfl⟩ := units?_eq_some_iff.mp hunits
  exact ⟨groups, hgroups, rfl⟩

/-- The two ways of reading standard UTF-8 agree unless a character takes four bytes, which cannot
be read as units. -/
theorem decodeUnits?_standard {text : String} (h : text.toUTF8 = bytes.toByteArray) :
    decodeUnits? bytes = if text.toList.any (·.utf8Size == 4) then none else some text := by
  have hbytes := Utf8.decode?_eq_some_iff.mp (Utf8.decode?_eq_some_toList_iff.mpr h)
  rw [decodeUnits?, hbytes, units?_standard]
  split
  · rfl
  · rw [Option.map_some, Utf16.decodeLossy_encode, String.ofList_toList]

theorem decode?_isSome_iff : (∃ text, decode? bytes = some text) ↔
    bytes.toByteArray.IsValidUTF8 ∨ ∃ groups, GroupedAs bytes groups := by
  by_cases hvalid : bytes.toByteArray.IsValidUTF8
  · obtain ⟨text, htext⟩ := exists_standard_of_isValid hvalid
    simp only [hvalid, true_or, iff_true]
    exact ⟨text, decode?_of_standard htext⟩
  · rw [decode?_of_not_standard hvalid, or_iff_right hvalid]
    constructor
    · intro h
      obtain ⟨text, htext⟩ := h
      obtain ⟨groups, hgroups, -⟩ := exists_groupedAs_of_decodeUnits? htext
      exact ⟨groups, hgroups⟩
    · intro h
      obtain ⟨groups, hgroups⟩ := h
      exact ⟨_, decodeUnits?_of_groupedAs hgroups⟩

/-- Bytes are read if they are standard UTF-8 or fall into groups of one to three bytes. Standard
UTF-8 is read as the text it encodes, as it would be by its groups if no character takes four bytes,
and with such a character its groups alone would be rejected. All other bytes are read as the text
that the units of their groups spell, one unit from each group, and there is only one way to fall
into groups. -/
theorem reads_standard_or_groups (bytes : List UInt8) :
    ((∃ text, decode? bytes = some text) ↔
      bytes.toByteArray.IsValidUTF8 ∨ ∃ groups, GroupedAs bytes groups) ∧
    (∀ text : String, text.toUTF8 = bytes.toByteArray → decode? bytes = some text ∧
      decodeUnits? bytes = if text.toList.any (·.utf8Size == 4) then none else some text) ∧
    ∀ groups, GroupedAs bytes groups → (∀ groups', GroupedAs bytes groups' → groups' = groups) ∧
      (¬ bytes.toByteArray.IsValidUTF8 → ∃ text, decode? bytes = some text ∧
        Utf16.Spells (groups.map unitOf) text.toList) := by
  refine ⟨decode?_isSome_iff, ?_, ?_⟩
  · intro text htext
    exact ⟨decode?_of_standard htext, decodeUnits?_standard htext⟩
  · intro groups hgroups
    refine ⟨?_, ?_⟩
    · intro groups' hgroups'
      exact hgroups'.unique hgroups
    · intro hstandard
      rw [decode?_of_not_standard hstandard]
      refine ⟨_, decodeUnits?_of_groupedAs hgroups, ?_⟩
      rw [String.toList_ofList]
      exact Utf16.spells_decodeLossy _

theorem reads_standard_or_groups_loneSurrogate :
    "a😀".toUTF8 = [0x61, 0xf0, 0x9f, 0x98, 0x80].toByteArray ∧
    decode? [0x61, 0xf0, 0x9f, 0x98, 0x80] = some "a😀" ∧
    decodeUnits? [0x61, 0xf0, 0x9f, 0x98, 0x80] = none ∧
    GroupedAs [0xc0, 0x80, 0xed, 0xa0, 0xbd, 0x41] [⟨2, 0⟩, ⟨3, 0xd83d⟩, ⟨1, 0x41⟩] ∧
    ¬ [0xc0, 0x80, 0xed, 0xa0, 0xbd, 0x41].toByteArray.IsValidUTF8 ∧
    ∃ text, decode? [0xc0, 0x80, 0xed, 0xa0, 0xbd, 0x41] = some text ∧
      Utf16.Spells [0, 0xd83d, 0x41] text.toList := by
  have hbytes : "a😀".toUTF8 = [0x61, 0xf0, 0x9f, 0x98, 0x80].toByteArray := by decide +kernel
  have hgroups : GroupedAs [0xc0, 0x80, 0xed, 0xa0, 0xbd, 0x41]
      [⟨2, 0⟩, ⟨3, 0xd83d⟩, ⟨1, 0x41⟩] := by decide
  have hstandard : ¬ [0xc0, 0x80, 0xed, 0xa0, 0xbd, 0x41].toByteArray.IsValidUTF8 := by
    decide +kernel
  obtain ⟨hread, hunits⟩ := (reads_standard_or_groups _).2.1 "a😀" hbytes
  rw [if_pos (by decide +kernel)] at hunits
  exact ⟨hbytes, hread, hunits, hgroups, hstandard,
    ((reads_standard_or_groups _).2.2 _ hgroups).2 hstandard⟩

end Jvm.ModifiedUtf8
