import Jvm.Proofs.Attributes.LengthPlaces
import Jvm.Proofs.Faults.Truncation

/-! # The length of a known kind changes nothing

`IgnoresLengths` compares two runs of a decoder on inputs that agree, as far as the first run gets,
except in the lengths that it reads for attributes of known kinds. Both runs end alike, and their
reports differ in these lengths alone, each of which is the number that stands in the input. The
property is one of all steps of class reading and sequencing keeps it, so reading a class has it
(`ofBytes_relengthed`). -/

namespace Jvm

open BigEndian Decoder

/-- `c'` differs from `c` only in the four bytes at each of the `places`, as far as `stop`. -/
structure Cursor.Overwritten (places : Nat → Prop) (stop : Nat) (c c' : Cursor) : Prop where
  position_eq : c'.position = c.position
  remaining_eq : c'.remaining = c.remaining
  bytes_eq : ∀ i, c.position ≤ i → i < stop →
    (∀ offset, places offset → ¬ (offset ≤ i ∧ i < offset + 4)) →
    c'.rest[i - c.position]? = c.rest[i - c.position]?

namespace Cursor.Overwritten

variable {places places' : Nat → Prop} {stop stop' : Nat} {c c' next next' : Cursor}
  {taken taken' : List UInt8}

/-- Places behind an earlier end can be left out. -/
theorem restrict (h : c.Overwritten places stop c') (hstop : stop' ≤ stop)
    (hplaces : ∀ offset, places offset → places' offset ∨ stop' ≤ offset) :
    c.Overwritten places' stop' c' := by
  refine ⟨h.position_eq, h.remaining_eq, fun i hi hlt hnot => ?_⟩
  refine h.bytes_eq i hi (Nat.lt_of_lt_of_le hlt hstop) fun offset hoffset => ?_
  rcases hplaces offset hoffset with hkept | hbehind
  · exact hnot offset hkept
  · omega

/-- Places in front of a later start can be left out. -/
theorem advance (h : c.Overwritten places stop c') (hpass : c.Passes taken next)
    (hpass' : c'.Passes taken' next') (hposition : next'.position = next.position)
    (hremaining : next'.remaining = next.remaining)
    (hplaces : ∀ offset, places offset → places' offset ∨ offset + 4 ≤ next.position) :
    next.Overwritten places' stop next' := by
  have hstart := hpass.position_eq
  refine ⟨hposition, hremaining, fun i hi hlt hnot => ?_⟩
  have hbytes := h.bytes_eq i (by omega) hlt fun offset hoffset => by
    rcases hplaces offset hoffset with hkept | hfront
    · exact hnot offset hkept
    · omega
  rw [hpass.getElem?_rest hi, ← hbytes, ← hposition, hpass'.getElem?_rest (by omega), h.position_eq]

end Cursor.Overwritten

/-- The same report, but for the length of a known kind, which is in either case the number at one
of the `places`. -/
inductive Event.SameButLength (places : Nat → Prop) (c c' : Cursor) : Event → Event → Prop
  | same {event : Event} : ¬ event.OnKnownKind → SameButLength places c c' event event
  | length {kind : AttributeKind} {offset n n' : Nat} : places offset →
      c.wordAt offset = some n → c'.wordAt offset = some n' →
      SameButLength places c c' (.attributeRead kind.name n) (.attributeRead kind.name n')

theorem Event.SameButLength.mono {places places' : Nat → Prop} {c c' d d' : Cursor}
    {event event' : Event} (h : SameButLength places c c' event event')
    (hplaces : ∀ offset, places offset → places' offset)
    (hword : ∀ offset, places offset → d.wordAt offset = c.wordAt offset ∧
      d'.wordAt offset = c'.wordAt offset) : SameButLength places' d d' event event' := by
  cases h with
  | same hunknown => exact .same hunknown
  | length hplace hn hn' =>
    obtain ⟨hd, hd'⟩ := hword _ hplace
    exact .length (hplaces _ hplace) (hd.trans hn) (hd'.trans hn')

theorem Event.SameButLength.exists_place {places : Nat → Prop} {c c' : Cursor}
    {event event' : Event} {kind : AttributeKind} {length : Nat}
    (h : SameButLength places c c' event event')
    (hevent : event = .attributeRead kind.name length) :
    ∃ offset, places offset ∧ c.wordAt offset = some length := by
  cases h with
  | same hunknown => exact absurd ⟨kind, length, hevent⟩ hunknown
  | length hplace hn _ =>
    injection hevent with _ hlength
    exact ⟨_, hplace, hlength ▸ hn⟩

/-- The same outcome, but for lengths reported on the way. -/
structure Outcome.SameButLengths {α : Type} (places : Nat → Prop) (c c' : Cursor)
    (outcome outcome' : Outcome α) : Prop where
  result_eq : outcome'.result = outcome.result
  position_eq : outcome'.cursor.position = outcome.cursor.position
  remaining_eq : outcome'.cursor.remaining = outcome.cursor.remaining
  events_same : List.Forall₂ (Event.SameButLength places c c') outcome.events outcome'.events

namespace Decoder

variable {α β : Type}

/-- Overwriting the lengths that are read changes nothing but the reports on them. -/
def IgnoresLengths (step : Decoder α) : Prop :=
  ∀ c c' : Cursor, c.Overwritten (LengthAt step c) (step c).cursor.position c' →
    Outcome.SameButLengths (LengthAt step c) c c' (step c) (step c')

/-- Two steps in a row. The lengths of the first one end before the second one starts, and those of
the second one start there, so each step sees an input in which only its own lengths differ. -/
theorem IgnoresLengths.bind {first : Decoder α} {second : α → Decoder β} (hsteady : Steady first)
    (hf : IgnoresLengths first) (hs : ∀ value, IgnoresLengths (second value))
    (hq : ∀ value, Quiet (second value))
    (hforward : ∀ value (c : Cursor), c.position ≤ (second value c).cursor.position) :
    IgnoresLengths (first >>= second) := by
  intro c c' hover
  rcases hfirst : first c with ⟨fault | value, next, events⟩
  · have hplaces : LengthAt (first >>= second) c = LengthAt first c := by
      funext offset
      exact propext (lengthAt_bind_of_error hsteady hfirst)
    rw [bind_of_error hfirst, hplaces] at hover ⊢
    have hsame := hf c c' (by rwa [hfirst])
    rcases hfirst' : first c' with ⟨result', next', events'⟩
    rw [hfirst, hfirst'] at hsame
    obtain ⟨rfl, hposition, hremaining, hevents⟩ := hsame
    rw [bind_of_error hfirst']
    exact ⟨rfl, hposition, hremaining, hevents⟩
  · have hplaces (offset : Nat) : LengthAt (first >>= second) c offset ↔
        LengthAt first c offset ∨ LengthAt (second value) next offset :=
      lengthAt_bind_iff hsteady (hq value) hfirst
    obtain ⟨taken, hpass⟩ := hsteady.forward c
    have hstop := hforward value next
    rw [hfirst] at hpass
    rw [bind_of_ok hfirst] at hover ⊢
    have hover₁ : c.Overwritten (LengthAt first c) next.position c' :=
      hover.restrict hstop fun offset hl => ((hplaces offset).mp hl).imp_right LengthAt.ahead
    have hsame₁ := hf c c' (by rwa [hfirst])
    rcases hfirst' : first c' with ⟨result', next', events'⟩
    obtain ⟨taken', hpass'⟩ := hsteady.forward c'
    rw [hfirst, hfirst'] at hsame₁
    rw [hfirst'] at hpass'
    change c'.Passes taken' next' at hpass'
    obtain ⟨rfl, hposition, hremaining, hevents⟩ := hsame₁
    change next'.position = next.position at hposition
    have hover₂ : next.Overwritten (LengthAt (second value) next)
        (second value next).cursor.position next' :=
      hover.advance hpass hpass' hposition hremaining fun offset hl =>
        ((hplaces offset).mp hl).symm.imp_right fun hl => hl.le_position hsteady hfirst
    have hsame₂ := hs value next next' hover₂
    rw [bind_of_ok hfirst']
    refine ⟨hsame₂.result_eq, hsame₂.position_eq, hsame₂.remaining_eq, List.rel_append ?_ ?_⟩
    · exact hevents.imp fun _ _ h =>
        h.mono (fun offset hl => (hplaces offset).mpr (.inl hl)) fun _ _ => ⟨rfl, rfl⟩
    · refine hsame₂.events_same.imp fun _ _ h =>
        h.mono (fun offset hl => (hplaces offset).mpr (.inr hl)) fun offset hl => ?_
      have hahead := hl.ahead
      exact ⟨(hpass.wordAt_eq hahead).symm, (hpass'.wordAt_eq (by omega)).symm⟩

/-! ## Steps -/

/-- Reports on no known kind stay as they are. -/
theorem events_same_of_unknown {places : Nat → Prop} {c c' : Cursor} {events : List Event}
    (h : ∀ event ∈ events, ¬ event.OnKnownKind) :
    List.Forall₂ (Event.SameButLength places c c') events events :=
  List.forall₂_same.mpr fun event hmem => .same (h event hmem)

/-- A step that stays where it is and looks only at the place and at how many bytes are left. -/
theorem ignoresLengths_of_still {step : Decoder α} {result : Cursor → Except FormatError α}
    {events : Cursor → List Event} (h : ∀ c, step c = ⟨result c, c, events c⟩)
    (hsame : ∀ c c' : Cursor, c'.position = c.position → c'.remaining = c.remaining →
      result c' = result c ∧ events c' = events c)
    (hevents : ∀ c, ∀ event ∈ events c, ¬ event.OnKnownKind) : IgnoresLengths step := by
  intro c c' hover
  obtain ⟨hposition, hremaining, -⟩ := hover
  obtain ⟨hresult, hreports⟩ := hsame c c' hposition hremaining
  rw [h c, h c', hresult, hreports]
  exact ⟨rfl, hposition, hremaining, events_same_of_unknown (hevents c)⟩

theorem bytes_events (count : Nat) (c : Cursor) : (bytes count c).events = [] := by
  unfold bytes
  split <;> rfl

theorem ignoresLengths_bytes (count : Nat) : IgnoresLengths (bytes count) := by
  intro c c' hover
  obtain ⟨hposition, hremaining, hbytes⟩ := hover
  by_cases h : count ≤ c.remaining
  · have htaken : c'.rest.take count = c.rest.take count := by
      refine List.ext_getElem? fun i => ?_
      by_cases hi : i < count
      · rw [List.getElem?_take_of_lt hi, List.getElem?_take_of_lt hi]
        -- bytes are read without a report, so none of them are a length
        have hnone (offset : Nat) : ¬ LengthAt (bytes count) c offset := by
          rintro ⟨-, -, _, _, hreports⟩
          rw [bytes_events, bytes_events] at hreports
          simp at hreports
        have hbyte := hbytes (c.position + i) (Nat.le_add_right _ _) (by
          rw [bytes_of_le h]
          show c.position + i < c.position + count
          omega) fun offset hl => absurd hl (hnone offset)
        rwa [Nat.add_sub_cancel_left] at hbyte
      · rw [List.getElem?_eq_none (by simp; omega), List.getElem?_eq_none (by simp; omega)]
    rw [bytes_of_le h, bytes_of_le (by omega)]
    refine ⟨congrArg Except.ok htaken, congrArg (· + count) hposition, ?_, .nil⟩
    simp only [Cursor.remaining, List.length_drop] at hremaining ⊢
    rw [hremaining]
  · rw [bytes_of_lt (by omega), bytes_of_lt (by omega), hposition]
    exact ⟨rfl, hposition, hremaining, .nil⟩

theorem decodeLength_of_le {c : Cursor} (name : String) (h : 4 ≤ c.remaining) :
    Attribute.decodeLength name c = ⟨.ok (), ⟨c.position + 4, c.rest.drop 4⟩,
      [.attributeRead name (value (c.rest.take 4))]⟩ ∧
    c.wordAt c.position = some (value (c.rest.take 4)) := by
  have hlt := value_lt (c.rest.take 4)
  rw [List.length_take_of_le h] at hlt
  have hnumber : (UInt32.ofNat (value (c.rest.take 4))).toNat = value (c.rest.take 4) :=
    UInt32.toNat_ofNat_of_lt hlt
  have hu32 : u32 c =
      ⟨.ok (.ofNat (value (c.rest.take 4))), ⟨c.position + 4, c.rest.drop 4⟩, []⟩ := by
    rw [u32, word, map_apply, map_apply, bytes_of_le h]
    rfl
  constructor
  · rw [Attribute.decodeLength, bind_of_ok hu32]
    show (⟨_, _, [.attributeRead name _]⟩ : Outcome Unit) = _
    rw [hnumber]
    rfl
  · have hle : c.position - c.position + 4 ≤ c.rest.length := by
      rw [Nat.sub_self]
      exact h
    rw [Cursor.wordAt, numberAt, if_pos hle, Nat.sub_self, List.drop_zero]

theorem decodeLength_of_lt {c : Cursor} (name : String) (h : c.remaining < 4) :
    Attribute.decodeLength name c = ⟨.error (.truncated c.position 4), c, []⟩ := by
  refine bind_of_error ?_
  rw [u32, word, map_apply, map_apply, bytes_of_lt h]
  rfl

/-- The length of a known kind stands where it is read. -/
theorem lengthAt_decodeLength {c : Cursor} (kind : AttributeKind) (h : 4 ≤ c.remaining) :
    LengthAt (Attribute.decodeLength kind.name) c c.position := by
  have hbefore : (c.upTo c.position).remaining < 4 := by
    rw [c.remaining_upTo]
    omega
  have hbehind : 4 ≤ (c.upTo (c.position + 4)).remaining := by
    rw [c.remaining_upTo]
    omega
  refine ⟨Nat.le_refl _, ?_, kind, value ((c.upTo (c.position + 4)).rest.take 4), ?_⟩
  · rw [decodeLength_of_lt _ hbefore]
    rfl
  · rw [decodeLength_of_lt _ hbefore, (decodeLength_of_le _ hbehind).1]
    exact List.prefix_rfl

theorem ignoresLengths_decodeLength (kind : AttributeKind) :
    IgnoresLengths (Attribute.decodeLength kind.name) := by
  intro c c' hover
  obtain ⟨hposition, hremaining, -⟩ := hover
  by_cases h : 4 ≤ c.remaining
  · obtain ⟨hstep, hword⟩ := decodeLength_of_le kind.name h
    obtain ⟨hstep', hword'⟩ := decodeLength_of_le (c := c') kind.name (by omega)
    have hplace := lengthAt_decodeLength kind h
    rw [hposition] at hword'
    rw [hstep, hstep']
    refine ⟨rfl, congrArg (· + 4) hposition, ?_, .cons (.length hplace hword hword') .nil⟩
    simp only [Cursor.remaining, List.length_drop] at hremaining ⊢
    rw [hremaining]
  · rw [decodeLength_of_lt _ (by omega), decodeLength_of_lt _ (by omega), hposition]
    exact ⟨rfl, hposition, hremaining, .nil⟩

/-! ## Decoders -/

/-- Whether an input is cut short or has lengths overwritten, the decoder does the same with the
part that it reads. -/
structure LengthBlind (step : Decoder α) : Prop where
  steady : Steady step
  quiet : Quiet step
  ignores : IgnoresLengths step

theorem Quiet.of_still {step : Decoder α} {result : Cursor → Except FormatError α}
    {events : Cursor → List Event} (h : ∀ c, step c = ⟨result c, c, events c⟩)
    (hevents : ∀ c, ∀ event ∈ events c, ¬ event.OnKnownKind) : Quiet step := by
  intro c _ event hmem
  rw [h c] at hmem
  exact hevents c event hmem

theorem Quiet.bind {first : Decoder α} {second : α → Decoder β} (hsteady : Steady first)
    (hf : Quiet first) (hs : ∀ value, Quiet (second value)) : Quiet (first >>= second) := by
  intro c hc event hmem
  have hempty := hsteady.remaining_le c
  rcases hfirst : first c with ⟨fault | value, next, events⟩
  · rw [bind_of_error hfirst] at hmem
    exact hf c hc event (by rwa [hfirst])
  · rw [hfirst] at hempty
    rw [bind_of_ok hfirst] at hmem
    rcases List.mem_append.mp hmem with hmem | hmem
    · exact hf c hc event (by rwa [hfirst])
    · exact hs value next (Nat.le_zero.mp (hc ▸ hempty)) event hmem

theorem LengthBlind.of_still {step : Decoder α} {result : Cursor → Except FormatError α}
    {events : List Event} (hsteady : Steady step) (h : ∀ c, step c = ⟨result c, c, events⟩)
    (hsame : ∀ c c' : Cursor, c'.position = c.position → result c' = result c)
    (hevents : ∀ event ∈ events, ¬ event.OnKnownKind) : LengthBlind step where
  steady := hsteady
  quiet := .of_still h fun _ => hevents
  ignores := ignoresLengths_of_still h (fun c c' hposition _ => ⟨hsame c c' hposition, rfl⟩)
    fun _ => hevents

theorem LengthBlind.bind {first : Decoder α} {second : α → Decoder β} (hf : LengthBlind first)
    (hs : ∀ value, LengthBlind (second value)) : LengthBlind (first >>= second) where
  steady := hf.steady.bind fun value => (hs value).steady
  quiet := hf.quiet.bind hf.steady fun value => (hs value).quiet
  ignores := hf.ignores.bind hf.steady (fun value => (hs value).ignores)
    (fun value => (hs value).quiet) fun value => (hs value).steady.position_le

theorem lengthBlind_bytes (count : Nat) : LengthBlind (bytes count) where
  steady := steady_bytes count
  quiet c _ event hmem := by
    rw [bytes_events] at hmem
    cases hmem
  ignores := ignoresLengths_bytes count

theorem lengthBlind_decodeLength (kind : AttributeKind) :
    LengthBlind (Attribute.decodeLength kind.name) where
  steady := steady_classLaw.knownLength kind
  quiet c hc event hmem := by
    rw [decodeLength_of_lt _ (by omega)] at hmem
    cases hmem
  ignores := ignoresLengths_decodeLength kind

/-- All that is compared are inputs no longer than the first of the two. -/
theorem lengthBlind_limit {step : Decoder α}
    (h : ∀ bound, ∃ other : Decoder α, LengthBlind other ∧
      ∀ c, c.remaining < bound → step c = other c) : LengthBlind step where
  steady := steady_limit fun bound => by
    obtain ⟨other, hother, heq⟩ := h bound
    exact ⟨other, hother.steady, heq⟩
  quiet c hc event hmem := by
    obtain ⟨other, hother, heq⟩ := h 1
    rw [heq c (by omega)] at hmem
    exact hother.quiet c hc event hmem
  ignores c c' hover := by
    obtain ⟨other, hother, heq⟩ := h (c.remaining + 1)
    have hplaces : LengthAt step c = LengthAt other c := by
      have hcut (stop : Nat) : step (c.upTo stop) = other (c.upTo stop) :=
        heq _ (by rw [c.remaining_upTo]; omega)
      funext offset
      refine propext ⟨fun hl => ?_, fun hl => ?_⟩
      · exact ⟨hl.ahead, hcut offset ▸ hl.asks, hcut offset ▸ hcut (offset + 4) ▸ hl.reports⟩
      · exact ⟨hl.ahead, hcut offset ▸ hl.asks, hcut offset ▸ hcut (offset + 4) ▸ hl.reports⟩
    have hremaining := hover.remaining_eq
    rw [hplaces, heq c (by omega)] at hover ⊢
    rw [heq c' (by omega)]
    exact hother.ignores c c' hover

theorem lengthBlind_classLaw : ClassLaw LengthBlind where
  pure value := .of_still (steady_pure value) (fun _ => rfl) (fun _ _ _ => rfl) (by simp)
  bind := LengthBlind.bind
  bytes := lengthBlind_bytes
  position := .of_still steady_position (fun _ => rfl) (fun _ _ h => congrArg Except.ok h) (by simp)
  report event _ h := .of_still (steady_report event) (fun _ => rfl) (fun _ _ _ => rfl) (by simpa)
  knownLength := lengthBlind_decodeLength
  found h := .of_still (steady_classLaw.found h) (fun _ => rfl) (fun _ _ _ => rfl) (by simp)
  limit := lengthBlind_limit

end Decoder

namespace ClassFile

theorem closingReports_unknown (cls : ClassFile) (trailing : Nat) :
    ∀ event ∈ cls.closingReports trailing, ¬ event.OnKnownKind := by
  intro event hmem
  rintro ⟨kind, length, rfl⟩
  unfold closingReports at hmem
  split at hmem <;> simp [parsedEvent] at hmem

theorem ignoresLengths_decode : IgnoresLengths decode := by
  have hcontent := lengthBlind_classLaw.content
  rw [decode_eq]
  refine hcontent.ignores.bind hcontent.steady (fun cls => ?_) (fun cls => ?_) fun cls c => ?_
  · refine ignoresLengths_of_still (closing_apply cls) (fun c c' _ hremaining => ?_) fun _ =>
      cls.closingReports_unknown _
    exact ⟨rfl, by rw [hremaining]⟩
  · exact .of_still (closing_apply cls) fun _ => cls.closingReports_unknown _
  · rw [closing_apply]

/-- The length of an attribute of a known kind stands there: reading the bytes in front of it comes
to nothing for want of four bytes, and with these an attribute of a known kind is reported. -/
def IsKnownLength (bytes : List UInt8) (offset : Nat) : Prop :=
  (ofBytes (bytes.take offset)).result = .error (.truncated offset 4) ∧
    ∃ (kind : AttributeKind) (length : Nat),
      (ofBytes (bytes.take offset)).events ++ [.attributeRead kind.name length] <+:
        (ofBytes (bytes.take (offset + 4))).events

/-- The bytes differ only in the lengths of attributes of known kinds. -/
structure Relengthed (bytes bytes' : List UInt8) : Prop where
  length_eq : bytes'.length = bytes.length
  bytes_eq : ∀ i, (∀ offset, IsKnownLength bytes offset → ¬ (offset ≤ i ∧ i < offset + 4)) →
    bytes'[i]? = bytes[i]?

theorem lengthAt_decode_iff {bytes : List UInt8} {offset : Nat} :
    LengthAt decode (.start bytes) offset ↔ IsKnownLength bytes offset :=
  ⟨fun h => ⟨h.asks, h.reports⟩, fun h => ⟨Nat.zero_le _, h.1, h.2⟩⟩

/-- No length of a known kind is missed: each one that is reported is the number at its place. -/
theorem exists_isKnownLength_of_reported {bytes : List UInt8} {kind : AttributeKind} {length : Nat}
    (h : .attributeRead kind.name length ∈ (ofBytes bytes).events) :
    ∃ offset, IsKnownLength bytes offset ∧ (Cursor.start bytes).wordAt offset = some length := by
  have hself : (Cursor.start bytes).Overwritten (LengthAt decode (.start bytes))
      (ofBytes bytes).cursor.position (.start bytes) := ⟨rfl, rfl, fun _ _ _ _ => rfl⟩
  have hsame := List.forall₂_same.mp (ignoresLengths_decode _ _ hself).events_same _ h
  obtain ⟨offset, hplace, hword⟩ := hsame.exists_place rfl
  exact ⟨offset, lengthAt_decode_iff.mp hplace, hword⟩

/-- Whatever the lengths of known kinds are overwritten with, the same class or fault comes out, the
same bytes are left, and the reports differ only in these lengths. The places overwritten miss none:
the length in each report on a known kind stands at one of them. -/
theorem ofBytes_relengthed {bytes bytes' : List UInt8} (h : Relengthed bytes bytes') :
    (ofBytes bytes').result = (ofBytes bytes).result ∧
      (ofBytes bytes').cursor.remaining = (ofBytes bytes).cursor.remaining ∧
      List.Forall₂ (Event.SameButLength (IsKnownLength bytes) (.start bytes) (.start bytes'))
        (ofBytes bytes).events (ofBytes bytes').events ∧
      ∀ (kind : AttributeKind) (length : Nat),
        .attributeRead kind.name length ∈ (ofBytes bytes).events →
          ∃ offset, IsKnownLength bytes offset ∧
            (Cursor.start bytes).wordAt offset = some length := by
  have hplaces : LengthAt decode (.start bytes) = IsKnownLength bytes := by
    funext offset
    exact propext lengthAt_decode_iff
  have hover : (Cursor.start bytes).Overwritten (LengthAt decode (.start bytes))
      (ofBytes bytes).cursor.position (.start bytes') := by
    rw [hplaces]
    exact ⟨rfl, h.length_eq, fun i _ _ hnot => h.bytes_eq i hnot⟩
  obtain ⟨hresult, -, hremaining, hevents⟩ := ignoresLengths_decode _ _ hover
  rw [hplaces] at hevents
  exact ⟨hresult, hremaining, hevents, fun kind length => exists_isKnownLength_of_reported⟩

/-- The class with a byte behind its end again, with the length of its code as large as it gets. -/
def longCodeBytes : List UInt8 :=
  nestedCodeBytes.take 60 ++ [0xff, 0xff, 0xff, 0xff] ++ nestedCodeBytes.drop 64

theorem ofBytes_relengthed_longCode :
    Relengthed nestedCodeBytes longCodeBytes ∧
      (ofBytes longCodeBytes).result = .ok nestedCode ∧
      (ofBytes longCodeBytes).cursor.remaining = 1 ∧
      List.Forall₂
        (Event.SameButLength (IsKnownLength nestedCodeBytes) (.start nestedCodeBytes)
          (.start longCodeBytes))
        (ofBytes nestedCodeBytes).events (ofBytes longCodeBytes).events ∧
      ∃ offset, IsKnownLength nestedCodeBytes offset ∧
        (Cursor.start nestedCodeBytes).wordAt offset = some 0 := by
  have hread : (ofBytes nestedCodeBytes).result = .ok nestedCode := by decide +kernel
  have hleft : (ofBytes nestedCodeBytes).cursor.remaining = 1 := by decide +kernel
  have hcode : IsKnownLength nestedCodeBytes 60 :=
    ⟨by decide +kernel, .code, 0, by decide +kernel⟩
  have hlength : longCodeBytes.length = nestedCodeBytes.length := by decide
  have hbytes : ∀ i < nestedCodeBytes.length,
      60 ≤ i ∧ i < 60 + 4 ∨ longCodeBytes[i]? = nestedCodeBytes[i]? := by decide +kernel
  have hsame : Relengthed nestedCodeBytes longCodeBytes := by
    refine ⟨hlength, fun i hnot => ?_⟩
    by_cases hi : i < nestedCodeBytes.length
    · exact (hbytes i hi).resolve_left (hnot 60 hcode)
    · rw [List.getElem?_eq_none (by omega), List.getElem?_eq_none (by omega)]
  have hreported : .attributeRead AttributeKind.code.name 0 ∈ (ofBytes nestedCodeBytes).events := by
    decide +kernel
  obtain ⟨hresult, hremaining, hevents, hplaces⟩ := ofBytes_relengthed hsame
  exact ⟨hsame, hresult.trans hread, hremaining.trans hleft, hevents, hplaces _ _ hreported⟩

end ClassFile

end Jvm
