import Jvm.Decoder

/-! # Decoders on longer and shorter inputs

A decoder sees its input one step at a time, so what it does with some bytes says what it does
with more of them: unless it ran out, the bytes behind change nothing, and if it ran out, any input
on which it succeeds reaches at least as far as it asked for. `Steady` is that statement, and
sequencing keeps it. -/

namespace Jvm

namespace Cursor

/-- From `c`, over the bytes `taken`, to `next`. -/
structure Passes (c : Cursor) (taken : List UInt8) (next : Cursor) : Prop where
  rest_eq : c.rest = taken ++ next.rest
  position_eq : next.position = c.position + taken.length

theorem Passes.refl (c : Cursor) : c.Passes [] c := ⟨rfl, rfl⟩

theorem Passes.trans {c middle next : Cursor} {front back : List UInt8}
    (h : c.Passes front middle) (h' : middle.Passes back next) : c.Passes (front ++ back) next := by
  refine ⟨by rw [h.rest_eq, h'.rest_eq, List.append_assoc], ?_⟩
  rw [h'.position_eq, h.position_eq, List.length_append, Nat.add_assoc]

theorem Passes.remaining_eq {c next : Cursor} {taken : List UInt8} (h : c.Passes taken next) :
    c.remaining = taken.length + next.remaining := by
  simp [remaining, h.rest_eq]

theorem Passes.remaining_le {c next : Cursor} {taken : List UInt8} (h : c.Passes taken next) :
    next.remaining ≤ c.remaining := by
  have := h.remaining_eq
  omega

/-- The bytes taken say where one ends. -/
theorem Passes.unique {c next next' : Cursor} {taken : List UInt8}
    (h : c.Passes taken next) (h' : c.Passes taken next') : next = next' := by
  obtain ⟨position, rest⟩ := next
  obtain ⟨position', rest'⟩ := next'
  have hrest := List.append_cancel_left (h.rest_eq.symm.trans h'.rest_eq)
  have hposition := h.position_eq.trans h'.position_eq.symm
  simp_all

/-- A stretch of two parts has a place between them. -/
theorem Passes.split {c next : Cursor} {front back : List UInt8}
    (h : c.Passes (front ++ back) next) :
    ∃ middle, c.Passes front middle ∧ middle.Passes back next := by
  refine ⟨⟨c.position + front.length, back ++ next.rest⟩, ⟨?_, rfl⟩, ⟨rfl, ?_⟩⟩
  · rw [h.rest_eq, List.append_assoc]
  · rw [h.position_eq, List.length_append, Nat.add_assoc]

theorem passes_of_take? {c next : Cursor} {count : Nat} {taken : List UInt8}
    (h : c.take? count = some (taken, next)) : taken.length = count ∧ c.Passes taken next := by
  obtain ⟨hlength, hrest, hposition⟩ := take?_eq_some_iff.mp h
  exact ⟨hlength, hrest, by rw [hposition, hlength]⟩

/-- The same place with more bytes at the end. -/
def extend (c : Cursor) (more : List UInt8) : Cursor := ⟨c.position, c.rest ++ more⟩

@[simp] theorem remaining_extend (c : Cursor) (more : List UInt8) :
    (c.extend more).remaining = c.remaining + more.length := by
  simp [remaining, extend]

end Cursor

/-- The same outcome with more bytes left behind it. -/
def Outcome.extend {α : Type} (outcome : Outcome α) (more : List UInt8) : Outcome α :=
  { outcome with cursor := outcome.cursor.extend more }

/-- The input ended too early. -/
def Outcome.RanOut {α : Type} (outcome : Outcome α) : Prop :=
  ∃ offset needed, outcome.result = .error (.truncated offset needed)

namespace Decoder

variable {α β : Type}

theorem bind_of_ok {first : Decoder α} {second : α → Decoder β} {c next : Cursor} {value : α}
    {events : List Event} (h : first c = ⟨.ok value, next, events⟩) :
    (first >>= second) c = (second value next).after events := by
  rw [bind_apply, h]

theorem bind_of_error {first : Decoder α} {second : α → Decoder β} {c next : Cursor}
    {fault : FormatError} {events : List Event} (h : first c = ⟨.error fault, next, events⟩) :
    (first >>= second) c = ⟨.error fault, next, events⟩ := by
  rw [bind_apply, h]

/-- What a decoder does with its input does not hang on bytes it has not come to. -/
structure Steady (step : Decoder α) : Prop where
  forward : ∀ c : Cursor, ∃ taken, c.Passes taken (step c).cursor
  /-- A truncation names the place reached and asks for more than is left there. -/
  stalled : ∀ (c : Cursor) offset needed, (step c).result = .error (.truncated offset needed) →
    (step c).cursor.position = offset ∧ (step c).cursor.remaining < needed
  extend : ∀ (c : Cursor) more, ¬ (step c).RanOut → step (c.extend more) = (step c).extend more
  /-- A success on the longer input has come past the bytes that were missing. -/
  resumed : ∀ (c : Cursor) more offset needed value, (step c).result = .error (.truncated offset needed) →
    (step (c.extend more)).result = .ok value →
    offset + needed ≤ (step (c.extend more)).cursor.position
  events_kept : ∀ (c : Cursor) more, (step c).events <+: (step (c.extend more)).events

theorem Steady.remaining_le {step : Decoder α} (h : Steady step) (c : Cursor) :
    (step c).cursor.remaining ≤ c.remaining := by
  obtain ⟨taken, hpass⟩ := h.forward c
  exact hpass.remaining_le

theorem Steady.position_le {step : Decoder α} (h : Steady step) (c : Cursor) :
    c.position ≤ (step c).cursor.position := by
  obtain ⟨taken, hpass⟩ := h.forward c
  have := hpass.position_eq
  omega

/-- A step that neither moves nor looks at the input, and does not claim that the input ended. -/
theorem Steady.of_still {step : Decoder α} {result : Except FormatError α} {events : List Event}
    (h : ∀ c, step c = ⟨result, c, events⟩)
    (hresult : ∀ offset needed, result ≠ .error (.truncated offset needed)) : Steady step where
  forward c := ⟨[], by rw [h]; exact .refl c⟩
  stalled c offset needed hc := by rw [h] at hc; exact absurd hc (hresult offset needed)
  extend c more _ := by rw [h, h]; rfl
  resumed c more offset needed value hc := by rw [h] at hc; exact absurd hc (hresult offset needed)
  events_kept c more := ⟨[], by rw [List.append_nil, h, h]⟩

theorem steady_pure (value : α) : Steady (pure value : Decoder α) :=
  .of_still (fun _ => rfl) (by simp)

theorem steady_report (event : Event) : Steady (report event) :=
  .of_still (fun _ => rfl) (by simp)

theorem steady_ofExcept {found : Except FormatError α}
    (h : ∀ offset needed, found ≠ .error (.truncated offset needed)) : Steady (ofExcept found) :=
  .of_still (fun _ => rfl) h

theorem steady_bytes (count : Nat) : Steady (bytes count) where
  forward c := by
    by_cases h : count ≤ c.remaining
    · rw [bytes_of_le h]
      exact ⟨c.rest.take count, (List.take_append_drop count c.rest).symm, by
        rw [List.length_take_of_le h]⟩
    · rw [bytes_of_lt (by omega)]
      exact ⟨[], .refl c⟩
  stalled c offset needed hc := by
    by_cases h : count ≤ c.remaining
    · rw [bytes_of_le h] at hc; cases hc
    · rw [bytes_of_lt (by omega)] at hc ⊢
      cases hc
      exact ⟨rfl, Nat.lt_of_not_le h⟩
  extend c more hc := by
    by_cases h : count ≤ c.remaining
    · rw [bytes_of_le h, bytes_of_le (by rw [Cursor.remaining_extend]; omega)]
      simp only [Cursor.extend, Outcome.extend]
      rw [List.take_append_of_le_length h, List.drop_append_of_le_length h]
    · rw [bytes_of_lt (by omega)] at hc
      exact absurd ⟨_, _, rfl⟩ hc
  resumed c more offset needed value hc hm := by
    by_cases h : count ≤ c.remaining
    · rw [bytes_of_le h] at hc; cases hc
    · rw [bytes_of_lt (by omega)] at hc
      cases hc
      by_cases h' : count ≤ (c.extend more).remaining
      · rw [bytes_of_le h']; exact Nat.le_refl _
      · rw [bytes_of_lt (by omega)] at hm; cases hm
  events_kept c more := by
    have hnone (c : Cursor) : (bytes count c).events = [] := by
      unfold bytes; split <;> rfl
    exact ⟨[], by rw [List.append_nil, hnone, hnone]⟩

/-- Sequencing keeps steadiness. Where the first step ran out, a success on the longer input
includes a success of the first step there, which came far enough, and the second moves on. -/
theorem Steady.bind {first : Decoder α} {second : α → Decoder β} (hf : Steady first)
    (hs : ∀ value, Steady (second value)) : Steady (first >>= second) where
  forward c := by
    obtain ⟨front, hfront⟩ := hf.forward c
    rcases h : first c with ⟨_ | value, next, events⟩
    · rw [bind_of_error h]; rw [h] at hfront; exact ⟨front, hfront⟩
    · rw [bind_of_ok h]; rw [h] at hfront
      obtain ⟨back, hback⟩ := (hs value).forward next
      exact ⟨front ++ back, hfront.trans hback⟩
  stalled c offset needed hc := by
    rcases h : first c with ⟨fault | value, next, events⟩
    · rw [bind_of_error h] at hc ⊢
      have := hf.stalled c offset needed
      rw [h] at this
      exact this (by simpa using hc)
    · rw [bind_of_ok h] at hc ⊢
      exact (hs value).stalled next offset needed hc
  extend c more hc := by
    rcases h : first c with ⟨fault | value, next, events⟩
    · have hran : ¬ (first c).RanOut := by
        rintro ⟨offset, needed, he⟩
        rw [h] at he
        cases he
        exact hc ⟨offset, needed, by rw [bind_of_error h]⟩
      have hmore := hf.extend c more hran
      rw [h] at hmore
      rw [bind_of_error h, bind_of_error hmore]
      rfl
    · have hmore := hf.extend c more (by rw [h]; rintro ⟨_, _, he⟩; cases he)
      rw [h] at hmore
      rw [bind_of_ok h] at hc
      rw [bind_of_ok h, bind_of_ok hmore, (hs value).extend next more hc]
      rfl
  resumed c more offset needed value hc hm := by
    rcases h : first c with ⟨fault | reached, next, events⟩
    · rw [bind_of_error h] at hc
      have hfirst := hf.resumed c more offset needed
      rcases hmore : first (c.extend more) with ⟨fault' | reached, next', events'⟩
      · rw [bind_of_error hmore] at hm; cases hm
      · rw [h, hmore] at hfirst
        rw [bind_of_ok hmore]
        exact Nat.le_trans (hfirst reached (by simpa using hc) rfl)
          ((hs reached).position_le next')
    · have hmore := hf.extend c more (by rw [h]; rintro ⟨_, _, he⟩; cases he)
      rw [h] at hmore
      rw [bind_of_ok h] at hc
      rw [bind_of_ok hmore] at hm ⊢
      exact (hs reached).resumed next more offset needed value hc hm
  events_kept c more := by
    have hfirst := hf.events_kept c more
    rcases h : first c with ⟨fault | value, next, events⟩
    · rw [bind_of_error h]
      rw [h] at hfirst
      rcases hmore : first (c.extend more) with ⟨fault' | value', next', events'⟩
      · rw [bind_of_error hmore]; rw [hmore] at hfirst; exact hfirst
      · rw [bind_of_ok hmore]; rw [hmore] at hfirst
        exact hfirst.trans (List.prefix_append _ _)
    · have hmore := hf.extend c more (by rw [h]; rintro ⟨_, _, he⟩; cases he)
      rw [h] at hmore
      rw [bind_of_ok h, bind_of_ok hmore]
      exact (List.prefix_append_right_inj _).mpr ((hs value).events_kept next more)

end Decoder

end Jvm
