import Jvm.Proofs.Decoding.Steady

/-! # What decoders accept

A grammar relates values to the bytes that spell them and to the reports made while they are read.
`Reads` says that a decoder succeeds exactly on what its grammar allows, in both directions at
once: what it returned was spelled by the bytes it took, and whatever the grammar spells is
returned, with any bytes behind it. One rule for each way to build a decoder gives the grammar of
the whole. -/

namespace Jvm

/-- The values, the bytes each is spelled by, and what reading it reports. -/
abbrev Grammar (α : Type) : Type := α → List UInt8 → List Event → Prop

namespace Grammar

variable {α β : Type}

/-- One spelling for each value, and nothing to report. -/
def spelled (spell : α → List UInt8) : Grammar α := fun value taken events =>
  taken = spell value ∧ events = []

/-- First one value, then another that may depend on it. -/
def andThen (first : Grammar α) (second : α → Grammar β) : Grammar β := fun value taken events =>
  ∃ reached front back early late, first reached front early ∧ second reached value back late ∧
    taken = front ++ back ∧ events = early ++ late

/-- Values side by side. -/
def each (item : Grammar α) : Grammar (List α)
  | [], taken, events => taken = [] ∧ events = []
  | value :: values, taken, events => ∃ front back early late, item value front early ∧
      each item values back late ∧ taken = front ++ back ∧ events = early ++ late

end Grammar

namespace Decoder

variable {α β : Type} {bound : Nat}

/-- With fewer than `bound` bytes left, the decoder succeeds exactly as the grammar says. -/
def Reads (bound : Nat) (step : Decoder α) (grammar : Grammar α) : Prop :=
  ∀ c : Cursor, c.remaining < bound → ∀ value next events,
    step c = ⟨.ok value, next, events⟩ ↔
      ∃ taken, grammar value taken events ∧ c.Passes taken next

/-- The bound need not be more than what is left where the decoder starts. -/
theorem Reads.of_ok {step : Decoder α} {grammar : Grammar α} {c next : Cursor} {value : α}
    {events : List Event} (h : Reads (c.remaining + 1) step grammar)
    (hstep : step c = ⟨.ok value, next, events⟩) :
    ∃ taken, grammar value taken events ∧ c.Passes taken next :=
  (h c (Nat.lt_succ_self _) value next events).mp hstep

theorem Reads.congr {step : Decoder α} {grammar grammar' : Grammar α} (h : Reads bound step grammar)
    (hiff : ∀ value taken events, grammar value taken events ↔ grammar' value taken events) :
    Reads bound step grammar' := by
  have heq : grammar = grammar' := by
    funext value taken events
    exact propext (hiff value taken events)
  exact heq ▸ h

theorem reads_pure (value : α) :
    Reads bound (pure value) fun other taken events => other = value ∧ taken = [] ∧ events = [] := by
  intro c _ other next events
  constructor
  · intro h
    cases h
    exact ⟨[], ⟨rfl, rfl, rfl⟩, .refl c⟩
  · rintro ⟨_, ⟨rfl, rfl, rfl⟩, hpass⟩
    rw [hpass.unique (.refl c)]
    rfl

/-- Two steps in a row. Behind the first one fewer bytes can be left, so the second one may be
known for shorter inputs only. -/
theorem Reads.bind_within {bound' : Nat} {first : Decoder α} {second : α → Decoder β}
    {grammar : Grammar α} {grammar' : α → Grammar β} (hf : Reads bound first grammar)
    (hs : ∀ value, Reads bound' (second value) (grammar' value))
    (htaken : ∀ value taken events, grammar value taken events → bound ≤ bound' + taken.length) :
    Reads bound (first >>= second) (grammar.andThen grammar') := by
  intro c hc value last events
  refine ⟨fun h => ?_, fun h => ?_⟩
  · rcases hfirst : first c with ⟨fault | reached, next, early⟩
    · rw [bind_of_error hfirst] at h; cases h
    · obtain ⟨front, hfront, hpass⟩ := (hf c hc _ _ _).mp hfirst
      rw [bind_of_ok hfirst] at h
      rcases hsecond : second reached next with ⟨fault | value', next', late⟩
      · rw [hsecond] at h; cases h
      · have hbound := htaken reached front early hfront
        have hremaining := hpass.remaining_eq
        obtain ⟨back, hback, hpass'⟩ := (hs reached next (by omega) _ _ _).mp hsecond
        rw [hsecond] at h
        cases h
        exact ⟨front ++ back, ⟨reached, front, back, early, late, hfront, hback, rfl, rfl⟩,
          hpass.trans hpass'⟩
  · obtain ⟨_, ⟨reached, front, back, early, late, hfront, hback, rfl, rfl⟩, hpass⟩ := h
    obtain ⟨middle, hpass, hpass'⟩ := hpass.split
    have hbound := htaken reached front early hfront
    have hremaining := hpass.remaining_eq
    have hfirst := (hf c hc _ _ _).mpr ⟨front, hfront, hpass⟩
    have hsecond := (hs reached middle (by omega) _ _ _).mpr ⟨back, hback, hpass'⟩
    rw [bind_of_ok hfirst, hsecond]
    rfl

theorem Reads.bind {first : Decoder α} {second : α → Decoder β} {grammar : Grammar α}
    {grammar' : α → Grammar β} (hf : Reads bound first grammar)
    (hs : ∀ value, Reads bound (second value) (grammar' value)) :
    Reads bound (first >>= second) (grammar.andThen grammar') :=
  hf.bind_within hs fun _ _ _ _ => Nat.le_add_right _ _

theorem Reads.map {step : Decoder α} {grammar : Grammar α} (h : Reads bound step grammar)
    (f : α → β) : Reads bound (f <$> step) fun value taken events =>
      ∃ before, grammar before taken events ∧ value = f before := by
  rw [← bind_pure_comp]
  refine (h.bind fun value => reads_pure (f value)).congr fun value taken events => ?_
  constructor
  · rintro ⟨before, front, _, early, _, hbefore, ⟨rfl, rfl, rfl⟩, rfl, rfl⟩
    exact ⟨before, by simpa using hbefore, rfl⟩
  · rintro ⟨before, hbefore, rfl⟩
    exact ⟨before, taken, [], events, [], hbefore, ⟨rfl, rfl, rfl⟩, by simp, by simp⟩

theorem reads_report (event : Event) :
    Reads bound (report event) fun _ taken events => taken = [] ∧ events = [event] := by
  intro c _ value next events
  constructor
  · intro h
    cases h
    exact ⟨[], ⟨rfl, rfl⟩, .refl c⟩
  · rintro ⟨_, ⟨rfl, rfl⟩, hpass⟩
    rw [hpass.unique (.refl c)]
    rfl

theorem reads_ofExcept (found : Except FormatError α) :
    Reads bound (ofExcept found) fun value taken events =>
      found = .ok value ∧ taken = [] ∧ events = [] := by
  intro c _ value next events
  constructor
  · intro h
    cases h
    exact ⟨[], ⟨rfl, rfl, rfl⟩, .refl c⟩
  · rintro ⟨_, ⟨rfl, rfl, rfl⟩, hpass⟩
    rw [hpass.unique (.refl c)]
    rfl

theorem reads_fail (fault : FormatError) :
    Reads bound (fail fault : Decoder α) fun _ _ _ => False := by
  intro c _ value next events
  constructor
  · intro h; cases h
  · rintro ⟨_, h, _⟩; exact h.elim

theorem reads_bytes (count : Nat) : Reads bound (bytes count) fun value taken events =>
    value = taken ∧ taken.length = count ∧ events = [] := by
  intro c _ value next events
  constructor
  · intro h
    unfold bytes at h
    split at h
    · rename_i taken next' htake
      cases h
      obtain ⟨hlength, hpass⟩ := Cursor.passes_of_take? htake
      exact ⟨value, ⟨rfl, hlength, rfl⟩, hpass⟩
    · cases h
  · rintro ⟨_, ⟨rfl, hlength, rfl⟩, hpass⟩
    have htake : c.take? count = some (value, next) :=
      Cursor.take?_eq_some_iff.mpr ⟨hlength, hpass.rest_eq, by rw [hpass.position_eq, hlength]⟩
    rw [bytes, htake]

/-- Where a decoder that starts by asking for its place accepts the same everywhere. -/
theorem reads_position_bind {second : Nat → Decoder α} {grammar : Grammar α}
    (h : ∀ offset, Reads bound (second offset) grammar) :
    Reads bound (position >>= second) grammar := by
  intro c hc value next events
  have hposition : (position >>= second) c = second c.position c :=
    (bind_of_ok (show position c = ⟨.ok c.position, c, []⟩ from rfl)).trans rfl
  rw [hposition]
  exact h c.position c hc value next events

end Decoder

end Jvm
