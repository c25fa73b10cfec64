import Jvm.Proofs.Faults.Truth

/-! # Where the lengths of known kinds stand

The places are told by the decoder itself (`LengthAt`): with the input ended at such a place it asks
for four bytes there, and once it has them it reports an attribute of a known kind. The places of
two steps in a row are those of the first and those of the second (`lengthAt_bind_iff`), because a
step that has nothing to read reports no attribute. -/

namespace Jvm

open BigEndian Decoder

namespace Cursor

/-- The same place with the input ended at `stop`. -/
def upTo (c : Cursor) (stop : Nat) : Cursor := ⟨c.position, c.rest.take (stop - c.position)⟩

/-- The number in the four bytes at a place ahead. -/
def wordAt (c : Cursor) (offset : Nat) : Option Nat := numberAt c.rest (offset - c.position) 4

theorem extend_upTo (c : Cursor) (stop : Nat) :
    (c.upTo stop).extend (c.rest.drop (stop - c.position)) = c := by
  simp [upTo, extend]

theorem remaining_upTo (c : Cursor) (stop : Nat) :
    (c.upTo stop).remaining = min (stop - c.position) c.remaining := by
  simp [upTo, remaining]

theorem upTo_upTo (c : Cursor) {stop stop' : Nat} (h : stop ≤ stop') :
    (c.upTo stop').upTo stop = c.upTo stop := by
  simp [upTo, List.take_take, Nat.min_eq_left (Nat.sub_le_sub_right h c.position)]

variable {c next : Cursor} {taken : List UInt8} {stop i : Nat}

theorem Passes.extend (h : c.Passes taken next) (more : List UInt8) :
    (c.extend more).Passes taken (next.extend more) := by
  refine ⟨?_, h.position_eq⟩
  show c.rest ++ more = taken ++ (next.rest ++ more)
  rw [h.rest_eq, List.append_assoc]

theorem Passes.upTo (h : c.Passes taken next) (hstop : next.position ≤ stop) :
    (c.upTo stop).Passes taken (next.upTo stop) := by
  have hposition := h.position_eq
  have hcount : stop - c.position = taken.length + (stop - next.position) := by omega
  refine ⟨?_, hposition⟩
  show c.rest.take (stop - c.position) = taken ++ next.rest.take (stop - next.position)
  rw [h.rest_eq, hcount, List.take_length_add_append]

/-- Places behind the bytes taken hold the same from either side of them. -/
theorem Passes.getElem?_rest (h : c.Passes taken next) (hi : next.position ≤ i) :
    next.rest[i - next.position]? = c.rest[i - c.position]? := by
  have hposition := h.position_eq
  rw [h.rest_eq, List.getElem?_append_right (by omega)]
  congr 1
  omega

theorem Passes.wordAt_eq (h : c.Passes taken next) (hi : next.position ≤ i) :
    next.wordAt i = c.wordAt i := by
  have hposition := h.position_eq
  have hcount : i - c.position = taken.length + (i - next.position) := by omega
  simp only [wordAt, numberAt, h.rest_eq, hcount, List.length_append, List.drop_length_add_append]
  congr 1
  simp only [eq_iff_iff]
  omega

end Cursor

namespace Decoder

variable {α β : Type} {step first : Decoder α} {second : α → Decoder β} {c next : Cursor}
  {value : α} {events : List Event} {fault : FormatError} {stop offset : Nat}

/-! ## Where lengths stand -/

/-- With the input ended at `offset` the decoder asks for four bytes there, and with these it
reports an attribute of a known kind. -/
structure LengthAt (step : Decoder α) (c : Cursor) (offset : Nat) : Prop where
  ahead : c.position ≤ offset
  asks : (step (c.upTo offset)).result = .error (.truncated offset 4)
  reports : ∃ (kind : AttributeKind) (length : Nat),
    (step (c.upTo offset)).events ++ [.attributeRead kind.name length] <+:
      (step (c.upTo (offset + 4))).events

/-- Without any input there is no report on an attribute of a known kind. -/
def Quiet (step : Decoder α) : Prop :=
  ∀ c : Cursor, c.remaining = 0 → ∀ event ∈ (step c).events, ¬ event.OnKnownKind

/-- A decoder that stopped at or before `stop` does not run out of an input that ends there. -/
theorem Steady.not_ranOut_upTo (h : Steady step) (hstep : step c = ⟨.ok value, next, events⟩)
    (hstop : next.position ≤ stop) : ¬ (step (c.upTo stop)).RanOut := by
  rintro ⟨offset, needed, hran⟩
  have hwhole := c.extend_upTo stop
  obtain ⟨taken, hpass⟩ := h.forward c
  obtain ⟨taken', hpass'⟩ := h.forward (c.upTo stop)
  obtain ⟨hoffset, hneeded⟩ := h.stalled _ _ _ hran
  have hresumed := h.resumed (c.upTo stop) _ offset needed value hran (by rw [hwhole, hstep])
  rw [hwhole, hstep] at hresumed
  rw [hstep] at hpass
  change offset + needed ≤ next.position at hresumed
  change c.Passes taken next at hpass
  have := c.remaining_upTo stop
  have := hpass.position_eq
  have := hpass.remaining_eq
  have : (step (c.upTo stop)).cursor.position = c.position + taken'.length := hpass'.position_eq
  have := hpass'.remaining_eq
  omega

/-- An input that ends where the decoder stopped or further on is long enough. -/
theorem Steady.upTo_of_ok (h : Steady step) (hstep : step c = ⟨.ok value, next, events⟩)
    (hstop : next.position ≤ stop) :
    step (c.upTo stop) = ⟨.ok value, next.upTo stop, events⟩ := by
  have hwhole := c.extend_upTo stop
  obtain ⟨taken, hpass⟩ := h.forward c
  obtain ⟨taken', hpass'⟩ := h.forward (c.upTo stop)
  have hextend := h.extend (c.upTo stop) (c.rest.drop (stop - c.position))
    (h.not_ranOut_upTo hstep hstop)
  rw [hstep] at hpass
  rw [hwhole, hstep] at hextend
  rcases hcut : step (c.upTo stop) with ⟨result, reached, events'⟩
  rw [hcut] at hextend hpass'
  change (c.upTo stop).Passes taken' reached at hpass'
  injection hextend with hresult hnext hevents
  obtain rfl : result = .ok value := hresult.symm
  obtain rfl : events' = events := hevents.symm
  have htaken : taken' = taken := by
    have hlong := hpass'.extend (c.rest.drop (stop - c.position))
    rw [hwhole, ← hnext] at hlong
    exact List.append_cancel_right (hlong.rest_eq.symm.trans hpass.rest_eq)
  rw [hpass'.unique (htaken ▸ hpass.upTo hstop)]

/-- An input that ends before the place reached is too short. -/
theorem Steady.ranOut_upTo (h : Steady step) (hstop : c.position ≤ stop)
    (hlt : stop < (step c).cursor.position) : (step (c.upTo stop)).RanOut := by
  refine Classical.byContradiction fun hran => ?_
  have hextend := h.extend (c.upTo stop) (c.rest.drop (stop - c.position)) hran
  obtain ⟨taken, hpass⟩ := h.forward (c.upTo stop)
  have hposition : (step (c.upTo stop)).cursor.position = c.position + taken.length :=
    hpass.position_eq
  have hremaining := hpass.remaining_eq
  rw [c.remaining_upTo] at hremaining
  rw [c.extend_upTo] at hextend
  rw [hextend] at hlt
  change stop < (step (c.upTo stop)).cursor.position at hlt
  omega

/-- Reports come in as the input grows. -/
theorem Steady.events_upTo (h : Steady step) (c : Cursor) {stop stop' : Nat} (hle : stop ≤ stop') :
    (step (c.upTo stop)).events <+: (step (c.upTo stop')).events := by
  have hkept := h.events_kept ((c.upTo stop').upTo stop)
    ((c.upTo stop').rest.drop (stop - (c.upTo stop').position))
  rwa [(c.upTo stop').extend_upTo, c.upTo_upTo hle] at hkept

/-- What fails on the whole input succeeds on no part of it. -/
theorem Steady.error_upTo (h : Steady step) (hstep : step c = ⟨.error fault, next, events⟩)
    (stop : Nat) : ∃ fault', (step (c.upTo stop)).result = .error fault' := by
  cases hcut : (step (c.upTo stop)).result with
  | error fault' => exact ⟨fault', rfl⟩
  | ok value =>
    have hran : ¬ (step (c.upTo stop)).RanOut := by
      rintro ⟨offset, needed, hran⟩
      rw [hcut] at hran
      cases hran
    have hextend := h.extend (c.upTo stop) (c.rest.drop (stop - c.position)) hran
    rw [c.extend_upTo, hstep] at hextend
    have hresult := congrArg Outcome.result hextend
    change Except.error fault = (step (c.upTo stop)).result at hresult
    rw [hcut] at hresult
    cases hresult

theorem LengthAt.le_position (hl : LengthAt first c offset) (hf : Steady first)
    (h : first c = ⟨.ok value, next, events⟩) : offset + 4 ≤ next.position := by
  have hresumed := hf.resumed (c.upTo offset) (c.rest.drop (offset - c.position)) offset 4 value
    hl.asks (by rw [c.extend_upTo, h])
  rwa [c.extend_upTo, h] at hresumed

/-- If the last of several reports is not among the later ones, it is among the earlier ones. -/
theorem prefix_of_quiet {early late : List Event} {event : Event} (hearly : early <+: events)
    (hlate : event ∉ late) (h : early ++ [event] <+: events ++ late) :
    early ++ [event] <+: events := by
  obtain ⟨more, rfl⟩ := hearly
  rw [List.append_assoc, List.prefix_append_right_inj] at h
  rw [List.prefix_append_right_inj]
  cases more with
  | nil => exact absurd (h.subset List.mem_cons_self) hlate
  | cons first more =>
    obtain ⟨others, hothers⟩ := h
    cases hothers
    exact ⟨more, rfl⟩

/-- As long as the input ends before the second step has anything to read, nothing that it reports
is about a known kind. -/
theorem bind_events_upTo (hf : Steady first) (hq : Quiet (second value))
    (h : first c = ⟨.ok value, next, events⟩) (hahead : c.position ≤ stop)
    (hstop : stop ≤ next.position) : ∃ late,
      ((first >>= second) (c.upTo stop)).events = (first (c.upTo stop)).events ++ late ∧
        ∀ event ∈ late, ¬ event.OnKnownKind := by
  rcases Nat.lt_or_eq_of_le hstop with hlt | rfl
  · obtain ⟨offset, needed, hran⟩ := hf.ranOut_upTo hahead (by rwa [h])
    rcases hcut : first (c.upTo stop) with ⟨result, reached, early⟩
    rw [hcut] at hran
    cases hran
    rw [bind_of_error hcut]
    exact ⟨[], by simp, by simp⟩
  · have hcut := hf.upTo_of_ok h (Nat.le_refl _)
    rw [bind_of_ok hcut, hcut]
    refine ⟨_, rfl, hq _ ?_⟩
    rw [next.remaining_upTo]
    omega

/-- The lengths that the first step reads stay in place. -/
theorem LengthAt.bind (hl : LengthAt first c offset) (hf : Steady first) (hq : Quiet (second value))
    (h : first c = ⟨.ok value, next, events⟩) : LengthAt (first >>= second) c offset := by
  have hle := hl.le_position hf h
  obtain ⟨hahead, hasks, kind, length, hreports⟩ := hl
  rcases hcut : first (c.upTo offset) with ⟨result, reached, early⟩
  rw [hcut] at hasks hreports
  cases hasks
  obtain ⟨late, hevents, -⟩ := bind_events_upTo hf hq h (by omega) hle
  refine ⟨hahead, by rw [bind_of_error hcut], kind, length, ?_⟩
  rw [bind_of_error hcut, hevents]
  exact hreports.trans (List.prefix_append _ late)

/-- In front of the place where the second step starts it is the first one that reads lengths. -/
theorem LengthAt.of_bind (hl : LengthAt (first >>= second) c offset) (hf : Steady first)
    (hq : Quiet (second value)) (h : first c = ⟨.ok value, next, events⟩)
    (hlt : offset < next.position) : LengthAt first c offset := by
  obtain ⟨hahead, hasks, kind, length, hreports⟩ := hl
  obtain ⟨_, _, hran⟩ := hf.ranOut_upTo hahead (by rwa [h])
  have hresumed := hf.resumed (c.upTo offset) (c.rest.drop (offset - c.position)) _ _ value hran
    (by rw [c.extend_upTo, h])
  rw [c.extend_upTo, h] at hresumed
  rcases hcut : first (c.upTo offset) with ⟨result, reached, early⟩
  rw [hcut] at hran
  cases hran
  rw [bind_of_error hcut] at hasks hreports
  cases hasks
  obtain ⟨late, hevents, hlate⟩ := bind_events_upTo hf hq h (by omega) hresumed
  have hgrown := hf.events_upTo c (Nat.le_add_right offset 4)
  refine ⟨hahead, by rw [hcut], kind, length, ?_⟩
  rw [hevents] at hreports
  rw [hcut] at hgrown ⊢
  exact prefix_of_quiet hgrown (fun hmem => hlate _ hmem ⟨kind, length, rfl⟩) hreports

/-- From there on it is the second one. -/
theorem lengthAt_bind_iff_of_le (hf : Steady first) (h : first c = ⟨.ok value, next, events⟩)
    (hle : next.position ≤ offset) :
    LengthAt (first >>= second) c offset ↔ LengthAt (second value) next offset := by
  have hposition : c.position ≤ next.position := by simpa [h] using hf.position_le c
  have hcut (stop : Nat) (hstop : next.position ≤ stop) :
      (first >>= second) (c.upTo stop) = (second value (next.upTo stop)).after events :=
    bind_of_ok (hf.upTo_of_ok h hstop)
  have hreports (kind : AttributeKind) (length : Nat) :
      ((first >>= second) (c.upTo offset)).events ++ [.attributeRead kind.name length] <+:
          ((first >>= second) (c.upTo (offset + 4))).events ↔
        (second value (next.upTo offset)).events ++ [.attributeRead kind.name length] <+:
          (second value (next.upTo (offset + 4))).events := by
    rw [hcut offset hle, hcut (offset + 4) (by omega)]
    simp [Outcome.after, List.append_assoc, List.prefix_append_right_inj]
  constructor
  · rintro ⟨-, hasks, kind, length, hreported⟩
    rw [hcut offset hle] at hasks
    exact ⟨hle, hasks, kind, length, (hreports kind length).mp hreported⟩
  · rintro ⟨-, hasks, kind, length, hreported⟩
    refine ⟨by omega, ?_, kind, length, (hreports kind length).mpr hreported⟩
    rw [hcut offset hle]
    exact hasks

/-- The lengths read by two steps in a row are those that either of them reads. -/
theorem lengthAt_bind_iff (hf : Steady first) (hq : Quiet (second value))
    (h : first c = ⟨.ok value, next, events⟩) :
    LengthAt (first >>= second) c offset ↔
      LengthAt first c offset ∨ LengthAt (second value) next offset := by
  constructor
  · intro hl
    rcases Nat.lt_or_ge offset next.position with hlt | hle
    · exact .inl (hl.of_bind hf hq h hlt)
    · exact .inr ((lengthAt_bind_iff_of_le hf h hle).mp hl)
  · rintro (hl | hl)
    · exact hl.bind hf hq h
    · exact (lengthAt_bind_iff_of_le hf h hl.ahead).mpr hl

theorem lengthAt_bind_of_error (hf : Steady first) (h : first c = ⟨.error fault, next, events⟩) :
    LengthAt (first >>= second) c offset ↔ LengthAt first c offset := by
  have hcut (stop : Nat) :
      (∀ wanted, ((first >>= second) (c.upTo stop)).result = .error wanted ↔
        (first (c.upTo stop)).result = .error wanted) ∧
      ((first >>= second) (c.upTo stop)).events = (first (c.upTo stop)).events := by
    obtain ⟨fault', hfault⟩ := hf.error_upTo h stop
    rcases hfirst : first (c.upTo stop) with ⟨result, reached, early⟩
    rw [hfirst] at hfault
    cases hfault
    rw [bind_of_error hfirst]
    simp
  constructor
  · rintro ⟨hahead, hasks, hreports⟩
    rw [(hcut offset).2, (hcut (offset + 4)).2] at hreports
    exact ⟨hahead, ((hcut offset).1 _).mp hasks, hreports⟩
  · rintro ⟨hahead, hasks, hreports⟩
    refine ⟨hahead, ((hcut offset).1 _).mpr hasks, ?_⟩
    rwa [(hcut offset).2, (hcut (offset + 4)).2]

end Decoder

end Jvm
