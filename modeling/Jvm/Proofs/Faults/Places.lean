import Jvm.Proofs.Faults.Truth

/-! # Where a decoder stops

A decoder goes from a place in the bytes to a place further on. Where it fails for want of bytes, it
stands where the bytes ran out; behind a byte that is no tag, it stands behind that byte; and behind
a text that is malformed, it stands behind the text. The place depends on the fault, so a loop has to
stop with the first one: sequencing keeps `PlacedAt` because a failed step ends the sequence where
it stands. -/

namespace Jvm

open BigEndian Decoder

/-- Where a decoder stands that failed so. The two bytes in front of a text declare its length. -/
def FormatError.LeavesAt (bytes : List UInt8) (c : Cursor) : FormatError → Prop
  | truncated offset needed => c.position = offset ∧ c.remaining < needed
  | unknownTag _ offset => c.position = offset + 1
  | malformedText offset => 2 ≤ offset ∧ ∃ length,
      numberAt bytes (offset - 2) 2 = some length ∧ c.position = offset + length
  | _ => True

namespace Decoder

variable {α β : Type} {bytes : List UInt8} {c : Cursor}

/-- From `c` the decoder goes on to a place in the bytes, where its fault leaves it. -/
structure PlacedAt (bytes : List UInt8) (c : Cursor) (step : Decoder α) : Prop where
  stands : (step c).cursor.StandsIn bytes
  forward : c.position ≤ (step c).cursor.position
  leaves : ∀ fault, (step c).result = .error fault → fault.LeavesAt bytes (step c).cursor

/-- From any place in the bytes. -/
def Placed (bytes : List UInt8) (step : Decoder α) : Prop :=
  ∀ c : Cursor, c.StandsIn bytes → PlacedAt bytes c step

theorem PlacedAt.bind {first : Decoder α} {second : α → Decoder β} (hf : PlacedAt bytes c first)
    (hs : ∀ value next events, first c = ⟨.ok value, next, events⟩ → next.StandsIn bytes →
      PlacedAt bytes next (second value)) : PlacedAt bytes c (first >>= second) := by
  obtain ⟨hstands, hforward, hleaves⟩ := hf
  rcases h : first c with ⟨fault | value, next, events⟩
  · rw [h] at hstands hforward hleaves
    refine ⟨?_, ?_, fun fault' hfault => ?_⟩
    · rw [bind_of_error h]; exact hstands
    · rw [bind_of_error h]; exact hforward
    · rw [bind_of_error h] at hfault ⊢
      cases hfault
      exact hleaves fault rfl
  · rw [h] at hstands hforward
    obtain ⟨hstands', hforward', hleaves'⟩ := hs value next events h hstands
    refine ⟨?_, ?_, fun fault hfault => ?_⟩
    · rw [bind_of_ok h]; exact hstands'
    · rw [bind_of_ok h]; exact Nat.le_trans hforward hforward'
    · rw [bind_of_ok h] at hfault ⊢
      exact hleaves' fault hfault

/-- A step that stays where it is. -/
theorem placedAt_of_still {step : Decoder α} (hc : c.StandsIn bytes) (hstep : (step c).cursor = c)
    (hleaves : ∀ fault, (step c).result = .error fault → fault.LeavesAt bytes c) :
    PlacedAt bytes c step := by
  refine ⟨?_, ?_, ?_⟩
  · rwa [hstep]
  · rw [hstep]
  · rwa [hstep]

theorem placed_of_silent {step : Decoder α} (hstep : ∀ c, (step c).cursor = c)
    (hleaves : ∀ c fault, (step c).result ≠ .error fault) : Placed bytes step :=
  fun c hc => placedAt_of_still hc (hstep c) fun fault h => absurd h (hleaves c fault)

theorem placedAt_fail {fault : FormatError} (hc : c.StandsIn bytes) (h : fault.LeavesAt bytes c) :
    PlacedAt bytes c (fail fault : Decoder α) :=
  placedAt_of_still hc rfl fun other hother => by cases hother; exact h

theorem placedAt_ofExcept {found : Except FormatError α} (hc : c.StandsIn bytes)
    (h : ∀ fault, found = .error fault → fault.LeavesAt bytes c) :
    PlacedAt bytes c (ofExcept found) :=
  placedAt_of_still hc rfl h

theorem placed_pure (value : α) : Placed bytes (pure value : Decoder α) :=
  placed_of_silent (fun _ => rfl) fun _ _ h => (nomatch h)

theorem placed_report (event : Event) : Placed bytes (report event) :=
  placed_of_silent (fun _ => rfl) fun _ _ h => (nomatch h)

theorem placed_bytes (count : Nat) : Placed bytes (Decoder.bytes count) := by
  intro c hc
  obtain ⟨taken, hpass⟩ := (steady_bytes count).forward c
  refine ⟨hc.passes hpass, (steady_bytes count).position_le c, fun fault hfault => ?_⟩
  by_cases h : count ≤ c.remaining
  · rw [bytes_of_le h] at hfault
    cases hfault
  · rw [bytes_of_lt (Nat.lt_of_not_le h)] at hfault ⊢
    cases hfault
    exact ⟨rfl, Nat.lt_of_not_le h⟩

theorem placed_steps (bytes : List UInt8) : Steps (Placed bytes) where
  pure := placed_pure
  bind hf hs c hc := (hf c hc).bind fun value next _ _ hnext => hs value next hnext
  bytes := placed_bytes

/-- A decoder that asks for its place first is told where it stands. -/
theorem placedAt_position_bind {second : Nat → Decoder α} (hc : c.StandsIn bytes)
    (h : PlacedAt bytes c (second c.position)) : PlacedAt bytes c (position >>= second) := by
  have hposition : PlacedAt bytes c position := placedAt_of_still hc rfl fun _ h => (nomatch h)
  refine hposition.bind fun _ _ _ hstep _ => ?_
  cases hstep
  exact h

end Decoder

/-! ## Constants and pools -/

namespace Constant

variable {bytes : List UInt8}

theorem placed_decodeText : Placed bytes decodeText := by
  intro c hc
  refine ((placed_steps bytes).u16 c hc).bind fun length start _ hlength hstart => ?_
  obtain ⟨hnumber, hposition⟩ := numberAt_of_u16 hc hlength
  refine placedAt_position_bind hstart ?_
  refine (placed_bytes length.toNat start hstart).bind fun encoded next _ hencoded hnext => ?_
  obtain ⟨taken, ⟨rfl, htaken, -⟩, hpass⟩ := (reads_bytes length.toNat).of_ok hencoded
  cases hdecode : ModifiedUtf8.decode? encoded with
  | some text => exact placed_pure text next hnext
  | none =>
    refine placedAt_fail hnext ⟨by omega, length.toNat, ?_, ?_⟩
    · rwa [hposition, Nat.add_sub_cancel]
    · rw [hpass.position_eq, htaken]

theorem placed_decode : Placed bytes decode := by
  intro c hc
  refine placedAt_position_bind hc ?_
  refine ((placed_steps bytes).u8 c hc).bind fun byte next _ hbyte hnext => ?_
  obtain ⟨taken, ⟨rfl, -⟩, hpass⟩ := reads_u8.of_ok hbyte
  cases htag : Tag.ofByte? byte with
  | none => exact placedAt_fail hnext hpass.position_eq
  | some kind => exact (placed_steps bytes).constantPayload (fun _ => placed_decodeText) next hnext

end Constant

namespace ConstantPool

variable {bytes : List UInt8}

theorem placed_decodeSlot (slots : Array (Option Constant)) : Placed bytes (decodeSlot slots) := by
  have steps := placed_steps bytes
  unfold decodeSlot
  split
  · exact steps.pure _
  · exact steps.bind Constant.placed_decode fun _ =>
      steps.bind (placed_report _) fun _ => steps.pure _

/-- Looking up an index has no place in the bytes. -/
theorem leavesAt_of_get {pool : ConstantPool} {index : UInt16} {fault : FormatError}
    (h : pool.get index = .error fault) (c : Cursor) : fault.LeavesAt bytes c := by
  rcases get_eq_error_iff.mp h with ⟨rfl, -⟩ | ⟨rfl, -⟩
  · trivial
  · trivial

theorem leavesAt_of_utf8 {pool : ConstantPool} {index : UInt16} {fault : FormatError}
    (h : pool.utf8 index = .error fault) (c : Cursor) : fault.LeavesAt bytes c := by
  unfold utf8 at h
  cases hget : pool.get index with
  | error fault' =>
    rw [hget] at h
    cases h
    exact leavesAt_of_get hget c
  | ok constant =>
    rw [hget] at h
    cases constant <;> cases h <;> trivial

theorem placed_decode : Placed bytes decode := by
  have steps := placed_steps bytes
  refine steps.bind steps.u16 fun count =>
    steps.bind (steps.rounds placed_decodeSlot (count.toNat - 1) #[none]) fun slots => ?_
  split
  · exact fun c hc => placedAt_fail hc trivial
  · refine steps.bind (fun c hc => placedAt_ofExcept hc fun fault hfault => ?_) fun _ =>
      steps.pure _
    obtain ⟨index, hindex⟩ := get_of_checkReferences_eq_error hfault
    exact leavesAt_of_get hindex c

theorem placed_law (bytes : List UInt8) (pool : ConstantPool) : Law pool (Placed bytes) where
  toSteps := placed_steps bytes
  report event _ _ := placed_report event
  knownLength _ := (placed_steps bytes).bind (placed_steps bytes).u32 fun _ => placed_report _
  lookup _ _ hc := placedAt_ofExcept hc fun _ hfault => leavesAt_of_utf8 hfault _
  limit h c hc := by
    obtain ⟨other, hother, heq⟩ := h (c.remaining + 1)
    have hplaced := hother c hc
    have hsame := heq c (Nat.lt_succ_self _)
    exact ⟨hsame ▸ hplaced.stands, hsame ▸ hplaced.forward, hsame ▸ hplaced.leaves⟩

end ConstantPool

/-! ## All that read more than one number -/

/-- The decoders that read what is made of several parts. -/
inductive Composite (pool : ConstantPool) : {α : Type} → Decoder α → Prop where
  | u16s : Composite pool u16s
  | constant : Composite pool Constant.decode
  | constantPool : Composite pool ConstantPool.decode
  | oneAttribute : Composite pool (Attribute.decode pool)
  | attributes : Composite pool (Attribute.decodeAll pool)
  | oneMember : Composite pool (Member.decode pool)
  | members : Composite pool (Member.decodeAll pool)

theorem Composite.placed {pool : ConstantPool} {α : Type} {step : Decoder α}
    (h : Composite pool step) (bytes : List UInt8) : Placed bytes step := by
  have law := ConstantPool.placed_law bytes pool
  cases h with
  | u16s => exact law.counted law.u16
  | constant => exact Constant.placed_decode
  | constantPool => exact ConstantPool.placed_decode
  | oneAttribute => exact law.attribute
  | attributes => exact law.attributes
  | oneMember => exact law.member
  | members => exact law.members

/-- An attribute without a name is given up behind the index of the name. -/
theorem Attribute.decode_of_no_name {pool : ConstantPool} {c next : Cursor} {index : UInt16}
    {fault : FormatError} (hindex : u16 c = ⟨.ok index, next, []⟩)
    (hname : pool.utf8 index = .error fault) : decode pool c = ⟨.error fault, next, []⟩ := by
  have hlookup : ofExcept (pool.utf8 index) next = ⟨.error fault, next, []⟩ := by
    rw [hname]
    rfl
  rw [decode_eq_decodeWith, decodeWith_eq, bind_of_ok hindex, bind_of_error hlookup]
  rfl

/-- Wherever in some bytes it starts, a decoder goes on to a place in these bytes. A fault tells
which: where the missing bytes should start, behind the byte that is no tag, behind the malformed
text, or behind the index that leads to no name. -/
theorem Composite.leavesAt {bytes : List UInt8} {c : Cursor} (hc : c.StandsIn bytes)
    (pool : ConstantPool) :
    (∀ {α : Type} {step : Decoder α}, Composite pool step →
      c.position ≤ (step c).cursor.position ∧
      (step c).cursor.position ≤ bytes.length ∧
      (step c).cursor.position + (step c).cursor.remaining = bytes.length ∧
      (∀ offset needed, (step c).result = .error (.truncated offset needed) →
        (step c).cursor.position = offset ∧ (step c).cursor.remaining < needed) ∧
      (∀ tag offset, (step c).result = .error (.unknownTag tag offset) →
        (step c).cursor.position = offset + 1) ∧
      ∀ offset, (step c).result = .error (.malformedText offset) → 2 ≤ offset ∧ ∃ length,
        numberAt bytes (offset - 2) 2 = some length ∧
          (step c).cursor.position = offset + length) ∧
    ∀ index next fault, u16 c = ⟨.ok index, next, []⟩ → pool.utf8 index = .error fault →
      Attribute.decode pool c = ⟨.error fault, next, []⟩ ∧ next.position = c.position + 2 := by
  refine ⟨fun h => ?_, fun index next fault hindex hname => ?_⟩
  · obtain ⟨hstands, hforward, hleaves⟩ := h.placed bytes c hc
    exact ⟨hforward, hstands.position_le, hstands.position_add_remaining,
      fun _ _ hfault => hleaves _ hfault, fun _ _ hfault => hleaves _ hfault,
      fun _ hfault => hleaves _ hfault⟩
  · exact ⟨Attribute.decode_of_no_name hindex hname, (numberAt_of_u16 hc hindex).2⟩

/-- A text with a lone tail byte, and behind it an attribute whose name is a long. -/
theorem Composite.leavesAt_loneTail :
    let bytes : List UInt8 := [9, 1, 0, 1, 0x80, 0, 2]
    let atText : Cursor := ⟨1, [1, 0, 1, 0x80, 0, 2]⟩
    let atName : Cursor := ⟨5, [0, 2]⟩
    atText.StandsIn bytes ∧ (Constant.decode atText).result = .error (.malformedText 4) ∧
      (∃ length, numberAt bytes 2 2 = some length ∧
        (Constant.decode atText).cursor.position = 4 + length) ∧
      atName.StandsIn bytes ∧ Attribute.decode ClassFile.nestedCode.pool atName =
        ⟨.error (.kindMismatch 2 .utf8 .long), ⟨7, []⟩, []⟩ := by
  intro bytes atText atName
  have htext : atText.StandsIn bytes := ⟨rfl, by decide⟩
  have hname : atName.StandsIn bytes := ⟨rfl, by decide⟩
  have hfault : (Constant.decode atText).result = .error (.malformedText 4) := by decide +kernel
  obtain ⟨-, -, -, -, -, hleaves⟩ := (Composite.leavesAt htext ⟨#[]⟩).1 .constant
  have hmismatch := (Composite.leavesAt hname ClassFile.nestedCode.pool).2 2 ⟨7, []⟩ _ rfl rfl
  exact ⟨htext, hfault, (hleaves 4 hfault).2, hname, hmismatch.1⟩

end Jvm
