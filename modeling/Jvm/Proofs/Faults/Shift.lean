import Jvm.Proofs.Faults.Places

/-! # The same bytes further on

What a decoder does hangs on the bytes ahead and not on how many lie behind: further on in longer
bytes it gives the same value and the same reports, and only the offsets in its faults count the
bytes in front. A decoder that asks for its place puts it into a fault and nowhere else, so the
relation to keep along is between two decoders, of which the second one knows of a place further
on (`Shifts`). -/

namespace Jvm

/-- The fault with that many more bytes in front. Only some faults name a place in the bytes. -/
def FormatError.shift (distance : Nat) : FormatError → FormatError
  | truncated offset needed => truncated (offset + distance) needed
  | unknownTag tag offset => unknownTag tag (offset + distance)
  | malformedText offset => malformedText (offset + distance)
  | fault => fault

/-- The place with that many more bytes behind. -/
def Cursor.shift (distance : Nat) (c : Cursor) : Cursor := ⟨c.position + distance, c.rest⟩

def Outcome.shift {α : Type} (distance : Nat) (outcome : Outcome α) : Outcome α :=
  ⟨outcome.result.mapError (·.shift distance), outcome.cursor.shift distance, outcome.events⟩

@[simp] theorem Cursor.remaining_shift (distance : Nat) (c : Cursor) :
    (c.shift distance).remaining = c.remaining := rfl

theorem Outcome.shift_after {α : Type} (distance : Nat) (earlier : List Event)
    (outcome : Outcome α) :
    (outcome.after earlier).shift distance = (outcome.shift distance).after earlier := rfl

namespace Decoder

variable {α β : Type} {distance : Nat}

/-- The second decoder does further on what the first one does. -/
def Shifts (distance : Nat) (step step' : Decoder α) : Prop :=
  ∀ c : Cursor, step' (c.shift distance) = (step c).shift distance

theorem Shifts.bind {first first' : Decoder α} {second second' : α → Decoder β}
    (hf : Shifts distance first first')
    (hs : ∀ value, Shifts distance (second value) (second' value)) :
    Shifts distance (first >>= second) (first' >>= second') := by
  intro c
  have hfirst := hf c
  rcases h : first c with ⟨fault | value, next, events⟩
  · rw [h] at hfirst
    rw [bind_of_error h, bind_of_error hfirst]
    rfl
  · rw [h] at hfirst
    rw [bind_of_ok h, bind_of_ok hfirst, Outcome.shift_after]
    exact congrArg (Outcome.after events) (hs value next)

theorem shifts_pure (value : α) : Shifts distance (pure value : Decoder α) (pure value) :=
  fun _ => rfl

theorem shifts_report (event : Event) : Shifts distance (report event) (report event) :=
  fun _ => rfl

theorem shifts_fail (fault : FormatError) :
    Shifts distance (fail fault : Decoder α) (fail (fault.shift distance)) :=
  fun _ => rfl

/-- Looking something up has no place in the bytes. -/
theorem shifts_ofExcept {found : Except FormatError α}
    (h : ∀ fault, found = .error fault → fault.shift distance = fault) :
    Shifts distance (ofExcept found) (ofExcept found) := by
  intro c
  cases found with
  | error fault => simp only [ofExcept, Outcome.shift, Except.mapError, h fault rfl]
  | ok value => rfl

theorem shifts_bytes (count : Nat) : Shifts distance (bytes count) (bytes count) := by
  intro c
  by_cases h : count ≤ c.remaining
  · rw [bytes_of_le h, bytes_of_le (by rwa [Cursor.remaining_shift]), Outcome.shift]
    simp only [Cursor.shift, Nat.add_right_comm]
    rfl
  · have hlt := Nat.lt_of_not_le h
    rw [bytes_of_lt hlt, bytes_of_lt (by rwa [Cursor.remaining_shift])]
    rfl

/-- What goes on from its place goes on from a place further on. -/
theorem shifts_position_bind {second second' : Nat → Decoder α}
    (h : ∀ place, Shifts distance (second place) (second' (place + distance))) :
    Shifts distance (position >>= second) (position >>= second') := by
  intro c
  exact congrArg (Outcome.after []) (h c.position c)

theorem shifts_steps (distance : Nat) : Steps fun step => Shifts distance step step where
  pure := shifts_pure
  bind := Shifts.bind
  bytes := shifts_bytes

end Decoder

open Decoder

variable {distance : Nat}

namespace ConstantPool

theorem shift_of_get {pool : ConstantPool} {index : UInt16} {fault : FormatError}
    (h : pool.get index = .error fault) : fault.shift distance = fault := by
  rcases get_eq_error_iff.mp h with ⟨rfl, -⟩ | ⟨rfl, -⟩ <;> rfl

theorem shift_of_utf8 {pool : ConstantPool} {index : UInt16} {fault : FormatError}
    (h : pool.utf8 index = .error fault) : fault.shift distance = fault := by
  unfold utf8 at h
  cases hget : pool.get index with
  | error fault' =>
    rw [hget] at h
    cases h
    exact shift_of_get hget
  | ok constant =>
    rw [hget] at h
    cases constant <;> cases h <;> rfl

theorem shifts_law (distance : Nat) (pool : ConstantPool) :
    Law pool fun step => Shifts distance step step where
  toSteps := shifts_steps distance
  report event _ _ := shifts_report event
  knownLength _ := (shifts_steps distance).u32.bind fun _ => shifts_report _
  lookup _ := shifts_ofExcept fun _ => shift_of_utf8
  limit h c := by
    obtain ⟨other, hother, heq⟩ := h (c.remaining + 1)
    rw [heq c (Nat.lt_succ_self _), heq (c.shift distance) (Nat.lt_succ_self _), hother c]

end ConstantPool

theorem Constant.shifts_decodeText : Shifts distance decodeText decodeText := by
  refine (shifts_steps distance).u16.bind fun length => shifts_position_bind fun start =>
    (shifts_bytes length.toNat).bind fun encoded => ?_
  cases ModifiedUtf8.decode? encoded with
  | some text => exact shifts_pure text
  | none => exact shifts_fail (.malformedText start)

theorem Constant.shifts_decode : Shifts distance decode decode := by
  refine shifts_position_bind fun offset => (shifts_steps distance).u8.bind fun byte => ?_
  cases Tag.ofByte? byte with
  | some kind => exact (shifts_steps distance).constantPayload fun _ => shifts_decodeText
  | none => exact shifts_fail (.unknownTag byte offset)

namespace ConstantPool

theorem shifts_decodeSlot (slots : Array (Option Constant)) :
    Shifts distance (decodeSlot slots) (decodeSlot slots) := by
  unfold decodeSlot
  split
  · exact shifts_pure _
  · exact Constant.shifts_decode.bind fun _ => (shifts_report _).bind fun _ => shifts_pure _

theorem shifts_decode : Shifts distance decode decode := by
  have steps := shifts_steps distance
  refine steps.u16.bind fun count =>
    Shifts.bind (steps.rounds shifts_decodeSlot (count.toNat - 1) #[none]) fun slots => ?_
  split
  · exact shifts_fail (.wideAtEnd (slots.size - 1))
  · refine Shifts.bind (shifts_ofExcept fun fault hfault => ?_) fun _ => shifts_pure _
    obtain ⟨index, hindex⟩ := get_of_checkReferences_eq_error hfault
    exact shift_of_get hindex

end ConstantPool

theorem Composite.shifts {pool : ConstantPool} {α : Type} {step : Decoder α}
    (h : Composite pool step) (distance : Nat) : Shifts distance step step := by
  have law := ConstantPool.shifts_law distance pool
  cases h with
  | u16s => exact law.counted law.u16
  | constant => exact Constant.shifts_decode
  | constantPool => exact ConstantPool.shifts_decode
  | oneAttribute => exact law.attribute
  | attributes => exact law.attributes
  | oneMember => exact law.member
  | members => exact law.members

/-- Behind other bytes a decoder gives the value that it gives at the start, with the same reports,
and comes as far. If it fails, it is with the same fault, whose place is further on by as many bytes
as stand in front. -/
theorem Composite.decodes_alike_behind {pool : ConstantPool} {α : Type} {step : Decoder α}
    (h : Composite pool step) {front bytes : List UInt8} {c : Cursor}
    (hc : (Cursor.start (front ++ bytes)).Passes front c) :
    (step c).result = (step (.start bytes)).result.mapError (·.shift front.length) ∧
      (step c).events = (step (.start bytes)).events ∧
      (step c).cursor.position = (step (.start bytes)).cursor.position + front.length ∧
      (step c).cursor.rest = (step (.start bytes)).cursor.rest := by
  have hplace : c = (Cursor.start bytes).shift front.length :=
    hc.unique ⟨rfl, rfl⟩
  rw [hplace, h.shifts front.length (.start bytes)]
  exact ⟨rfl, rfl, rfl, rfl⟩

/-- A constant with a lone tail byte in its text, behind three bytes. -/
theorem Composite.decodes_alike_behind_loneTail :
    let front : List UInt8 := [7, 0, 1]
    let bytes : List UInt8 := [1, 0, 1, 0x80, 9]
    let c : Cursor := ⟨3, bytes⟩
    (Cursor.start (front ++ bytes)).Passes front c ∧
      (Constant.decode (.start bytes)).result = .error (.malformedText 3) ∧
      (Constant.decode c).result = .error (.malformedText 6) ∧
      (Constant.decode c).cursor.position = (Constant.decode (.start bytes)).cursor.position + 3 := by
  intro front bytes c
  have hc : (Cursor.start (front ++ bytes)).Passes front c := ⟨rfl, rfl⟩
  have hstart : (Constant.decode (.start bytes)).result = .error (.malformedText 3) := by
    decide +kernel
  obtain ⟨hresult, -, hposition, -⟩ :=
    (Composite.constant : Composite ⟨#[]⟩ Constant.decode).decodes_alike_behind hc
  refine ⟨hc, hstart, ?_, hposition⟩
  rw [hresult, hstart]
  rfl

end Jvm
