import Jvm.Proofs.Layout.RoundTrip

/-! # What a fault says about the input

`FormatError.TellsTruth` is what each fault claims, in terms of the bytes alone: which of them it
is about, where they stand and what is wrong with them. A decoder is `Truthful` if its faults claim
nothing false wherever in the bytes it starts. The offsets in a fault are those of the cursor, so
the invariant to carry along is that the cursor stands in the bytes. -/

namespace Jvm

open BigEndian Decoder

namespace Cursor

/-- The cursor is a place in these bytes. -/
structure StandsIn (bytes : List UInt8) (c : Cursor) : Prop where
  rest_eq : c.rest = bytes.drop c.position
  position_le : c.position ≤ bytes.length

theorem standsIn_start (bytes : List UInt8) : (start bytes).StandsIn bytes :=
  ⟨rfl, Nat.zero_le _⟩

variable {bytes taken : List UInt8} {c next : Cursor}

theorem StandsIn.position_add_remaining (h : c.StandsIn bytes) :
    c.position + c.remaining = bytes.length := by
  have hle := h.position_le
  rw [remaining, h.rest_eq, List.length_drop]
  omega

theorem StandsIn.passes (h : c.StandsIn bytes) (hpass : c.Passes taken next) :
    next.StandsIn bytes := by
  have hlength := h.position_add_remaining
  have hremaining := hpass.remaining_eq
  have hposition := hpass.position_eq
  refine ⟨?_, by omega⟩
  rw [hposition, ← List.drop_drop, ← h.rest_eq, hpass.rest_eq, List.drop_left]

/-- The bytes passed over are those at the place where that began. -/
theorem StandsIn.prefix_drop (h : c.StandsIn bytes) (hpass : c.Passes taken next) :
    taken <+: bytes.drop c.position := by
  rw [← h.rest_eq, hpass.rest_eq]
  exact List.prefix_append taken next.rest

end Cursor

/-- The number spelled by the `width` bytes at `offset`, if they are there. -/
def numberAt (bytes : List UInt8) (offset width : Nat) : Option Nat :=
  if offset + width ≤ bytes.length then some (value ((bytes.drop offset).take width)) else none

theorem numberAt_of_digits {bytes : List UInt8} {offset width n : Nat} (hn : n < capacity width)
    (h : digits width n <+: bytes.drop offset) (hoffset : offset ≤ bytes.length) :
    numberAt bytes offset width = some n := by
  have hlength := h.length_le
  rw [length_digits, List.length_drop] at hlength
  have htake := List.prefix_iff_eq_take.mp h
  rw [length_digits] at htake
  rw [numberAt, if_pos (by omega), ← htake, value_digits_of_lt hn]

/-- The pool stands behind the version. -/
def ConstantPool.PlacedIn (bytes : List UInt8) (pool : ConstantPool) : Prop :=
  pool.Arranged ∧ ∃ count texts, pool.WrittenAs count texts ∧
    pool.layout count texts <+: bytes.drop 8

namespace FormatError

/-- What the fault says about the bytes. -/
def TellsTruth (bytes : List UInt8) : FormatError → Prop
  | truncated offset needed => offset ≤ bytes.length ∧ bytes.length < offset + needed
  | badMagic found => numberAt bytes 0 4 = some found.toNat ∧ found ≠ magic
  | unsupportedVersion major minor => numberAt bytes 6 2 = some major.toNat ∧
      numberAt bytes 4 2 = some minor.toNat ∧ ¬ Version.Accepted ⟨major, minor⟩
  | unknownTag tag offset => bytes[offset]? = some tag ∧ ∀ kind : Tag, kind.byte ≠ tag
  | malformedText offset => 3 ≤ offset ∧ bytes[offset - 3]? = some Tag.utf8.byte ∧
      ∃ length, numberAt bytes (offset - 2) 2 = some length ∧ offset + length ≤ bytes.length ∧
        ModifiedUtf8.decode? ((bytes.drop offset).take length) = none
  | wideAtEnd index => numberAt bytes 8 2 = some (index + 1)
  | indexOutOfRange index slots => ∃ pool : ConstantPool, pool.PlacedIn bytes ∧
      slots = pool.size ∧ slots ≤ index.toNat
  | unusableIndex index => ∃ pool : ConstantPool, pool.PlacedIn bytes ∧
      pool.slots[index.toNat]? = some none
  | kindMismatch index expected found => expected = .utf8 ∧ found ≠ .utf8 ∧
      ∃ (pool : ConstantPool) (constant : Constant), pool.PlacedIn bytes ∧
        pool.slots[index.toNat]? = some (some constant) ∧ constant.tag = found
  | notMemberRef _ _ => False
  | invalidDescriptor _ => False

end FormatError

namespace Decoder

variable {α β : Type} {bytes : List UInt8}

/-- From `c` the decoder goes to a place in the bytes, and a fault there is true. -/
structure TruthfulAt (bytes : List UInt8) (c : Cursor) (step : Decoder α) : Prop where
  stands : (step c).cursor.StandsIn bytes
  truth : ∀ fault, (step c).result = .error fault → fault.TellsTruth bytes

def Truthful (bytes : List UInt8) (step : Decoder α) : Prop :=
  ∀ c : Cursor, c.StandsIn bytes → TruthfulAt bytes c step

theorem TruthfulAt.bind {c : Cursor} {first : Decoder α} {second : α → Decoder β}
    (hf : TruthfulAt bytes c first)
    (hs : ∀ value next events, first c = ⟨.ok value, next, events⟩ → next.StandsIn bytes →
      TruthfulAt bytes next (second value)) : TruthfulAt bytes c (first >>= second) := by
  obtain ⟨hstands, htruth⟩ := hf
  rcases h : first c with ⟨fault | value, next, events⟩
  · rw [h] at hstands htruth
    refine ⟨?_, fun fault' hfault => ?_⟩
    · rw [bind_of_error h]; exact hstands
    · rw [bind_of_error h] at hfault
      cases hfault
      exact htruth fault rfl
  · rw [h] at hstands
    obtain ⟨hstands', htruth'⟩ := hs value next events h hstands
    refine ⟨?_, fun fault hfault => ?_⟩
    · rw [bind_of_ok h]; exact hstands'
    · rw [bind_of_ok h] at hfault
      exact htruth' fault hfault

/-- A decoder may be replaced by what it is known to do from this place. -/
theorem TruthfulAt.of_eq {c : Cursor} {step other : Decoder α} (h : TruthfulAt bytes c other)
    (heq : step c = other c) : TruthfulAt bytes c step := by
  refine ⟨?_, ?_⟩
  · rw [heq]; exact h.stands
  · rw [heq]; exact h.truth

/-- A decoder that asks for its place first is told where it stands. -/
theorem truthfulAt_position_bind {c : Cursor} {second : Nat → Decoder α} (hc : c.StandsIn bytes)
    (h : TruthfulAt bytes c (second c.position)) : TruthfulAt bytes c (position >>= second) := by
  have hposition : TruthfulAt bytes c position := ⟨hc, fun _ h => (nomatch h)⟩
  refine hposition.bind fun _ _ _ hstep _ => ?_
  cases hstep
  exact h

theorem TruthfulAt.map {c : Cursor} {f : α → β} {step : Decoder α} (h : TruthfulAt bytes c step) :
    TruthfulAt bytes c (f <$> step) := by
  rw [← bind_pure_comp]
  exact h.bind fun _ _ _ _ hnext => ⟨hnext, fun _ h => (nomatch h)⟩

theorem truthfulAt_ofExcept {found : Except FormatError α} {c : Cursor} (hc : c.StandsIn bytes)
    (h : ∀ fault, found = .error fault → fault.TellsTruth bytes) :
    TruthfulAt bytes c (ofExcept found) := ⟨hc, h⟩

theorem truthfulAt_fail {fault : FormatError} {c : Cursor} (hc : c.StandsIn bytes)
    (h : fault.TellsTruth bytes) : TruthfulAt bytes c (fail fault : Decoder α) :=
  ⟨hc, fun other hother => by cases hother; exact h⟩

theorem truthful_pure (value : α) : Truthful bytes (pure value : Decoder α) :=
  fun _ hc => ⟨hc, fun _ h => (nomatch h)⟩

theorem truthful_report (event : Event) : Truthful bytes (report event) :=
  fun _ hc => ⟨hc, fun _ h => (nomatch h)⟩

theorem truthful_bytes (count : Nat) : Truthful bytes (Decoder.bytes count) := by
  intro c hc
  have hlength := hc.position_add_remaining
  by_cases h : count ≤ c.remaining
  · have hpass : c.Passes (c.rest.take count) ⟨c.position + count, c.rest.drop count⟩ :=
      ⟨(List.take_append_drop count c.rest).symm, by rw [List.length_take_of_le h]⟩
    refine ⟨?_, fun fault hfault => ?_⟩
    · rw [bytes_of_le h]; exact hc.passes hpass
    · rw [bytes_of_le h] at hfault; cases hfault
  · have hlt : c.remaining < count := Nat.lt_of_not_le h
    refine ⟨?_, fun fault hfault => ?_⟩
    · rw [bytes_of_lt hlt]; exact hc
    · rw [bytes_of_lt hlt] at hfault
      cases hfault
      exact ⟨hc.position_le, by omega⟩

theorem truthful_steps (bytes : List UInt8) : Steps (Truthful bytes) where
  pure := truthful_pure
  bind hf hs c hc := (hf c hc).bind fun value next _ _ hnext => hs value next hnext
  bytes := truthful_bytes

/-- What a number read at a place says about the bytes there. -/
theorem numberAt_of_u16 {c next : Cursor} {n : UInt16} {events : List Event} (hc : c.StandsIn bytes)
    (h : u16 c = ⟨.ok n, next, events⟩) :
    numberAt bytes c.position 2 = some n.toNat ∧ next.position = c.position + 2 := by
  obtain ⟨taken, ⟨rfl, -⟩, hpass⟩ := reads_u16.of_ok h
  refine ⟨numberAt_of_digits n.toNat_lt (hc.prefix_drop hpass) hc.position_le, ?_⟩
  rw [hpass.position_eq, length_word16]

end Decoder

/-! ## Constants -/

namespace Constant

variable {bytes : List UInt8}

/-- A text behind its tag. -/
theorem truthfulAt_decodeText {c : Cursor} (hc : c.StandsIn bytes) (hpos : 1 ≤ c.position)
    (htag : bytes[c.position - 1]? = some Tag.utf8.byte) : TruthfulAt bytes c decodeText := by
  refine ((truthful_steps bytes).u16 c hc).bind fun length start _ hlength hstart => ?_
  obtain ⟨hnumber, hposition⟩ := numberAt_of_u16 hc hlength
  refine truthfulAt_position_bind hstart ?_
  refine (truthful_bytes length.toNat start hstart).bind fun encoded next _ hencoded hnext => ?_
  obtain ⟨taken, ⟨rfl, htaken, -⟩, hpass⟩ :=
    (reads_bytes length.toNat).of_ok hencoded
  have hprefix := List.prefix_iff_eq_take.mp (hstart.prefix_drop hpass)
  have hlength_le := hnext.position_le
  have hnext_eq := hpass.position_eq
  cases hdecode : ModifiedUtf8.decode? encoded with
  | some text => exact truthful_pure text next hnext
  | none =>
    refine truthfulAt_fail hnext ⟨by omega, ?_, length.toNat, ?_, by omega, ?_⟩
    · rwa [show start.position - 3 = c.position - 1 by omega]
    · rwa [show start.position - 2 = c.position by omega]
    · rwa [← htaken, ← hprefix]

theorem truthful_decode : Truthful bytes decode := by
  intro c hc
  refine truthfulAt_position_bind hc ?_
  refine ((truthful_steps bytes).u8 c hc).bind fun byte next _ hbyte hnext => ?_
  obtain ⟨taken, ⟨rfl, -⟩, hpass⟩ := reads_u8.of_ok hbyte
  have hposition : next.position = c.position + 1 := hpass.position_eq
  have hat : bytes[c.position]? = some byte := by
    obtain ⟨behind, hbehind⟩ := hc.prefix_drop hpass
    rw [← Nat.add_zero c.position, ← List.getElem?_drop, ← hbehind]
    rfl
  cases htag : Tag.ofByte? byte with
  | none =>
    refine truthfulAt_fail hnext ⟨hat, fun kind hkind => ?_⟩
    rw [← hkind, Tag.ofByte?_byte] at htag
    cases htag
  | some kind =>
    by_cases hkind : kind = .utf8
    · subst hkind
      obtain rfl := Tag.ofByte?_eq_some_iff.mp htag
      refine TruthfulAt.map ?_
      refine truthfulAt_decodeText hnext (by omega) ?_
      rwa [hposition, Nat.add_sub_cancel]
    · exact (truthful_steps bytes).constantPayload (fun h => absurd h hkind) next hnext

end Constant

/-! ## The pool -/

namespace ConstantPool

variable {bytes : List UInt8}

theorem truthful_decodeSlot (slots : Array (Option Constant)) :
    Truthful bytes (decodeSlot slots) := by
  have steps := truthful_steps bytes
  unfold decodeSlot
  split
  · exact steps.pure _
  · exact steps.bind Constant.truthful_decode fun _ =>
      steps.bind (truthful_report _) fun _ => steps.pure _

/-- The slots have the count behind the version for their number. -/
theorem truthfulAt_decodeSlots {c : Cursor} (hc : c.StandsIn bytes) (hposition : c.position = 8) :
    TruthfulAt bytes c decodeSlots := by
  have steps := truthful_steps bytes
  refine (steps.u16 c hc).bind fun count start _ hcount hstart => ?_
  obtain ⟨hnumber, -⟩ := numberAt_of_u16 hc hcount
  rw [hposition] at hnumber
  refine (steps.rounds truthful_decodeSlot (count.toNat - 1) #[none] start hstart).bind
    fun slots next _ hslots hnext => ?_
  obtain ⟨-, ⟨more, hmore, hlength, -⟩, -⟩ :=
    (reads_rounds (count.toNat - 1) #[none]).of_ok hslots
  have hsize : slots.size = more.length + 1 := by
    rw [← Array.length_toList, hmore]; simp
  by_cases hwide : endsWide slots = true
  · rw [if_pos hwide]
    refine truthfulAt_fail hnext ?_
    -- with no slots announced there is the empty one alone, which holds nothing wide
    have hcount : count.toNat ≠ 0 := by
      intro hzero
      rw [hzero] at hlength
      obtain rfl := List.length_eq_zero_iff.mp hlength
      have hslots : slots = #[none] := Array.toList_inj.mp hmore
      rw [hslots] at hwide
      cases hwide
    change numberAt bytes 8 2 = some (slots.size - 1 + 1)
    rw [hnumber]
    exact congrArg some (by omega)
  · rw [if_neg hwide]
    exact truthful_pure _ next hnext

theorem truth_of_get {pool : ConstantPool} (hpool : pool.PlacedIn bytes) {index : UInt16}
    {fault : FormatError} (h : pool.get index = .error fault) : fault.TellsTruth bytes := by
  rcases get_eq_error_iff.mp h with ⟨rfl, hsize⟩ | ⟨rfl, hslot⟩
  · exact ⟨pool, hpool, rfl, hsize⟩
  · exact ⟨pool, hpool, hslot⟩

theorem truth_of_utf8 {pool : ConstantPool} (hpool : pool.PlacedIn bytes) {index : UInt16}
    {fault : FormatError} (h : pool.utf8 index = .error fault) : fault.TellsTruth bytes := by
  unfold utf8 at h
  cases hget : pool.get index with
  | error fault' =>
    rw [hget] at h
    cases h
    exact truth_of_get hpool hget
  | ok constant =>
    rw [hget] at h
    have hslot := get_eq_ok_iff.mp hget
    by_cases htag : constant.tag = .utf8
    · have htext : ∃ text, constant = .utf8 text := by grind
      obtain ⟨text, rfl⟩ := htext
      cases h
    · have hfault : fault = .kindMismatch index .utf8 constant.tag := by
        cases constant with
        | utf8 text => exact absurd rfl htag
        | _ => cases h; rfl
      rw [hfault]
      exact ⟨rfl, htag, pool, constant, hpool, hslot, rfl⟩

/-- Faults of lookups are true once the pool stands where it belongs. -/
theorem truthful_law {pool : ConstantPool} (hpool : pool.PlacedIn bytes) :
    Law pool (Truthful bytes) where
  toSteps := truthful_steps bytes
  report event _ _ := truthful_report event
  knownLength _ := (truthful_steps bytes).bind (truthful_steps bytes).u32 fun _ => truthful_report _
  lookup _ _ hc := truthfulAt_ofExcept hc fun _ => truth_of_utf8 hpool
  limit h c hc := by
    obtain ⟨other, hother, heq⟩ := h (c.remaining + 1)
    exact (hother c hc).of_eq (heq c (Nat.lt_succ_self _))

theorem truthfulAt_decode {c : Cursor} (hc : c.StandsIn bytes) (hposition : c.position = 8) :
    TruthfulAt bytes c decode := by
  rw [decode_eq]
  refine (truthfulAt_decodeSlots hc hposition).bind fun pool next _ hslots hnext => ?_
  obtain ⟨taken, ⟨harranged, count, texts, hwritten, rfl, -⟩, hpass⟩ :=
    reads_decodeSlots.of_ok hslots
  have hpool : pool.PlacedIn bytes :=
    ⟨harranged, count, texts, hwritten, hposition ▸ hc.prefix_drop hpass⟩
  refine TruthfulAt.bind (truthfulAt_ofExcept hnext fun fault hfault => ?_)
    fun _ last _ _ hlast => truthful_pure pool last hlast
  obtain ⟨index, hindex⟩ := get_of_checkReferences_eq_error hfault
  exact truth_of_get hpool hindex

end ConstantPool

/-! ## The class -/

namespace ClassFile

variable {bytes : List UInt8}

theorem truthfulAt_decodeMagic : TruthfulAt bytes (.start bytes) decodeMagic := by
  have hstart := Cursor.standsIn_start bytes
  refine ((truthful_steps bytes).u32 _ hstart).bind fun found next _ hfound hnext => ?_
  obtain ⟨taken, ⟨rfl, -⟩, hpass⟩ := reads_u32.of_ok hfound
  by_cases h : found = magic
  · rw [if_neg (not_not.mpr h)]
    exact truthful_pure () next hnext
  · rw [if_pos h]
    exact truthfulAt_fail hnext
      ⟨numberAt_of_digits found.toNat_lt (hstart.prefix_drop hpass) (Nat.zero_le _), h⟩

theorem truthfulAt_decodeVersion {c : Cursor} (hc : c.StandsIn bytes) (hposition : c.position = 4) :
    TruthfulAt bytes c decodeVersion := by
  have steps := truthful_steps bytes
  refine (steps.u16 c hc).bind fun minor middle _ hminor hmiddle => ?_
  obtain ⟨hminorAt, hmiddleAt⟩ := numberAt_of_u16 hc hminor
  refine (steps.u16 middle hmiddle).bind fun major next _ hmajor hnext => ?_
  obtain ⟨hmajorAt, -⟩ := numberAt_of_u16 hmiddle hmajor
  rw [hmiddleAt, hposition] at hmajorAt
  rw [hposition] at hminorAt
  dsimp only
  by_cases h : Version.isSupported ⟨major, minor⟩ = true
  · rw [if_pos h]
    exact truthful_pure _ next hnext
  · rw [if_neg h]
    rw [Version.isSupported_iff] at h
    exact truthfulAt_fail hnext ⟨hmajorAt, hminorAt, h⟩

theorem truthfulAt_decodeContent : TruthfulAt bytes (.start bytes) decodeContent := by
  rw [decodeContent_eq]
  refine truthfulAt_decodeMagic.bind fun _ atVersion _ hmagic hatVersion => ?_
  obtain ⟨_, ⟨rfl, -⟩, hpassMagic⟩ := reads_decodeMagic.of_ok hmagic
  have hfour : atVersion.position = 4 := hpassMagic.position_eq
  refine (truthfulAt_decodeVersion hatVersion hfour).bind fun version atPool _ hversion hatPool => ?_
  obtain ⟨_, ⟨-, rfl, -⟩, hpassVersion⟩ := reads_decodeVersion.of_ok hversion
  have height : atPool.position = 8 := by rw [hpassVersion.position_eq, hfour]; rfl
  refine (ConstantPool.truthfulAt_decode hatPool height).bind fun pool next _ hpool hnext => ?_
  obtain ⟨_, ⟨harranged, -, count, texts, hwritten, rfl, -⟩, hpassPool⟩ :=
    ConstantPool.reads_decode.of_ok hpool
  have hplaced : pool.PlacedIn bytes :=
    ⟨harranged, count, texts, hwritten, height ▸ hatPool.prefix_drop hpassPool⟩
  exact law_decodeBody (ConstantPool.truthful_law hplaced) version next hnext

/-- Whatever is wrong with the bytes is as the fault says. -/
theorem tellsTruth_of_ofBytes {fault : FormatError} (h : (ofBytes bytes).result = .error fault) :
    fault.TellsTruth bytes := by
  have hresult := (decode_result_cursor (.start bytes)).1
  exact truthfulAt_decodeContent.truth fault (hresult ▸ h)

/-- The one text has a lone tail byte. -/
theorem tellsTruth_of_ofBytes_loneTail :
    (ofBytes [0xca, 0xfe, 0xba, 0xbe, 0, 0, 0, 52, 0, 2, 1, 0, 1, 0x80]).result =
      .error (.malformedText 13) ∧
    (FormatError.malformedText 13).TellsTruth
      [0xca, 0xfe, 0xba, 0xbe, 0, 0, 0, 52, 0, 2, 1, 0, 1, 0x80] := by
  have hread : (ofBytes [0xca, 0xfe, 0xba, 0xbe, 0, 0, 0, 52, 0, 2, 1, 0, 1, 0x80]).result =
      .error (.malformedText 13) := by decide +kernel
  exact ⟨hread, tellsTruth_of_ofBytes hread⟩

end ClassFile

end Jvm
