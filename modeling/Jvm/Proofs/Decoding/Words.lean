import Mathlib.Algebra.Ring.Nat
import Jvm.Proofs.Decoding.Grammar

/-! # Words and counted lists

The grammars of the fixed-width words, which have one spelling each, and of lists behind a
two-byte count. -/

namespace Jvm

namespace BigEndian

def word16 (n : UInt16) : List UInt8 := digits 2 n.toNat

def word32 (n : UInt32) : List UInt8 := digits 4 n.toNat

def word64 (n : UInt64) : List UInt8 := digits 8 n.toNat

/-- A two-byte count and the items behind it. -/
def counted {α : Type} (spell : α → List UInt8) (items : List α) : List UInt8 :=
  digits 2 items.length ++ items.flatMap spell

@[simp] theorem length_word16 (n : UInt16) : (word16 n).length = 2 := length_digits 2 n.toNat

@[simp] theorem length_word32 (n : UInt32) : (word32 n).length = 4 := length_digits 4 n.toNat

@[simp] theorem length_word64 (n : UInt64) : (word64 n).length = 8 := length_digits 8 n.toNat

end BigEndian

open BigEndian

namespace Grammar

variable {α : Type}

theorem andThen_spelled {β : Type} {spell : α → List UInt8} {grammar : α → Grammar β} {value : β}
    {taken : List UInt8} {events : List Event} :
    (spelled spell).andThen grammar value taken events ↔
      ∃ reached back, grammar reached value back events ∧ taken = spell reached ++ back := by
  refine ⟨fun h => ?_, fun h => ?_⟩
  · obtain ⟨reached, _, back, _, late, ⟨rfl, rfl⟩, hback, rfl, rfl⟩ := h
    exact ⟨reached, back, hback, rfl⟩
  · obtain ⟨reached, back, hback, rfl⟩ := h
    exact ⟨reached, _, back, [], events, ⟨rfl, rfl⟩, hback, rfl, rfl⟩

theorem each_spelled {spell : α → List UInt8} {values : List α} {taken : List UInt8}
    {events : List Event} :
    (spelled spell).each values taken events ↔ taken = values.flatMap spell ∧ events = [] := by
  induction values generalizing taken events with
  | nil => rfl
  | cons value values ih =>
    constructor
    · intro h
      obtain ⟨_, back, _, late, ⟨rfl, rfl⟩, hback, rfl, rfl⟩ := h
      obtain ⟨rfl, rfl⟩ := ih.mp hback
      exact ⟨rfl, rfl⟩
    · intro h
      obtain ⟨rfl, rfl⟩ := h
      exact ⟨spell value, _, [], [], ⟨rfl, rfl⟩, ih.mpr ⟨rfl, rfl⟩, rfl, rfl⟩

end Grammar

namespace Decoder

variable {α β : Type} {bound : Nat}

theorem Reads.bind_spelled {first : Decoder α} {second : α → Decoder β} {spell : α → List UInt8}
    {grammar : α → Grammar β} (hf : Reads bound first (.spelled spell))
    (hs : ∀ value, Reads bound (second value) (grammar value)) :
    Reads bound (first >>= second) fun value taken events =>
      ∃ reached back, grammar reached value back events ∧ taken = spell reached ++ back :=
  (hf.bind hs).congr fun _ _ _ => Grammar.andThen_spelled

theorem reads_word (width : Nat) : Reads bound (word width) fun value taken events =>
    value < capacity width ∧ taken = digits width value ∧ events = [] := by
  refine ((reads_bytes width).map value).congr fun number taken events => ?_
  constructor
  · intro h
    obtain ⟨_, ⟨rfl, rfl, rfl⟩, rfl⟩ := h
    exact ⟨value_lt _, (digits_value _).symm, rfl⟩
  · intro h
    obtain ⟨hlt, rfl, rfl⟩ := h
    exact ⟨_, ⟨rfl, length_digits width number, rfl⟩, (value_digits_of_lt hlt).symm⟩

/-- A type whose values are the numbers of `width` bytes. -/
theorem reads_word_as {width : Nat} {ofNat : Nat → α} {toNat : α → Nat}
    (hlt : ∀ value, toNat value < capacity width) (hof : ∀ value, ofNat (toNat value) = value)
    (hto : ∀ number, number < capacity width → toNat (ofNat number) = number) :
    Reads bound (ofNat <$> word width) (.spelled fun value => digits width (toNat value)) := by
  refine ((reads_word width).map ofNat).congr fun value taken events => ⟨fun h => ?_, fun h => ?_⟩
  · obtain ⟨number, ⟨hnumber, rfl, rfl⟩, rfl⟩ := h
    exact ⟨congrArg (digits width) (hto number hnumber).symm, rfl⟩
  · obtain ⟨rfl, rfl⟩ := h
    exact ⟨toNat value, ⟨hlt value, rfl, rfl⟩, (hof value).symm⟩

theorem reads_u8 : Reads bound u8 (.spelled fun n => [n]) := by
  have hspell (n : UInt8) : digits 1 n.toNat = [n] := by simp [digits]
  have hread : Reads bound u8 (.spelled fun n : UInt8 => digits 1 n.toNat) :=
    reads_word_as UInt8.toNat_lt (fun _ => UInt8.ofNat_toNat)
      fun _ h => UInt8.toNat_ofNat_of_lt h
  refine hread.congr fun n taken events => ?_
  rw [Grammar.spelled, Grammar.spelled, hspell]

theorem reads_u16 : Reads bound u16 (.spelled word16) :=
  reads_word_as UInt16.toNat_lt (fun _ => UInt16.ofNat_toNat)
    fun _ h => UInt16.toNat_ofNat_of_lt h

theorem u16_eq_ok_iff {c next : Cursor} {n : UInt16} :
    u16 c = ⟨.ok n, next, []⟩ ↔ c.Passes (word16 n) next := by
  rw [reads_u16 c (Nat.lt_succ_self _)]
  constructor
  · intro h
    obtain ⟨_, ⟨rfl, -⟩, hpass⟩ := h
    exact hpass
  · intro h
    exact ⟨_, ⟨rfl, rfl⟩, h⟩

theorem reads_u32 : Reads bound u32 (.spelled word32) :=
  reads_word_as UInt32.toNat_lt (fun _ => UInt32.ofNat_toNat)
    fun _ h => UInt32.toNat_ofNat_of_lt h

theorem reads_u64 : Reads bound u64 (.spelled word64) :=
  reads_word_as UInt64.toNat_lt (fun _ => UInt64.ofNat_toNat)
    fun _ h => UInt64.toNat_ofNat_of_lt h

/-- Behind a word the input is shorter. -/
theorem reads_u16_bind {second : UInt16 → Decoder β} {grammar : UInt16 → Grammar β}
    (hs : ∀ value, Reads bound (second value) (grammar value)) :
    Reads (bound + 1) (u16 >>= second) fun value taken events =>
      ∃ reached back, grammar reached value back events ∧ taken = word16 reached ++ back := by
  refine (reads_u16.bind_within hs ?_).congr fun _ _ _ => Grammar.andThen_spelled
  intro value taken events h
  rw [h.1, length_word16]
  omega

/-- One spelling is carried along a function that can be undone. -/
theorem Reads.map_spelled {step : Decoder α} {spell : α → List UInt8} {f : α → β} {g : β → α}
    (h : Reads bound step (.spelled spell)) (hfg : ∀ value, f (g value) = value)
    (hgf : ∀ value, g (f value) = value) :
    Reads bound (f <$> step) (.spelled fun value => spell (g value)) := by
  refine (h.map f).congr fun value taken events => ?_
  constructor
  · intro h
    obtain ⟨before, ⟨rfl, rfl⟩, rfl⟩ := h
    exact ⟨by simp only [hgf], rfl⟩
  · intro h
    obtain ⟨rfl, rfl⟩ := h
    exact ⟨g value, ⟨rfl, rfl⟩, (hfg value).symm⟩

theorem reads_binary32 : Reads bound binary32 (.spelled fun x => word32 x.bits) :=
  reads_u32.map_spelled (fun _ => rfl) fun _ => rfl

theorem reads_binary64 : Reads bound binary64 (.spelled fun x => word64 x.bits) :=
  reads_u64.map_spelled (fun _ => rfl) fun _ => rfl

/-! ## Lists -/

theorem Reads.times {item : Decoder α} {grammar : Grammar α} (h : Reads bound item grammar)
    (count : Nat) : Reads bound (times item count) fun values taken events =>
      values.length = count ∧ grammar.each values taken events := by
  induction count with
  | zero =>
    rw [times_zero]
    refine (reads_pure []).congr fun values taken events => ?_
    constructor
    · intro h
      obtain ⟨rfl, rfl, rfl⟩ := h
      exact ⟨rfl, rfl, rfl⟩
    · intro h
      obtain ⟨hlength, heach⟩ := h
      obtain rfl := List.length_eq_zero_iff.mp hlength
      exact ⟨rfl, heach⟩
  | succ count ih =>
    rw [times_succ]
    refine (h.bind fun first => ih.bind fun others => reads_pure (first :: others)).congr
      fun values taken events => ?_
    constructor
    · intro h
      obtain ⟨first, front, _, early, _, hfirst, ⟨others, back, _, late, _, ⟨hlength, hothers⟩,
        ⟨rfl, rfl, rfl⟩, rfl, rfl⟩, rfl, rfl⟩ := h
      exact ⟨by simp [hlength], front, back, early, late, hfirst, hothers, by simp, by simp⟩
    · intro h
      obtain ⟨hlength, heach⟩ := h
      cases values with
      | nil => cases hlength
      | cons first others =>
        obtain ⟨front, back, early, late, hfirst, hothers, rfl, rfl⟩ := heach
        exact ⟨first, front, back, early, late, hfirst, ⟨others, back, [], late, [],
          ⟨by simpa using hlength, hothers⟩, ⟨rfl, rfl, rfl⟩, by simp, by simp⟩, rfl, rfl⟩

theorem Reads.counted {item : Decoder α} {grammar : Grammar α} (h : Reads bound item grammar) :
    Reads bound (counted item) fun values taken events => values.length < 2 ^ 16 ∧
      ∃ back, taken = digits 2 values.length ++ back ∧ grammar.each values back events := by
  refine (reads_u16.bind_spelled fun count => h.times count.toNat).congr
    fun values taken events => ?_
  constructor
  · intro h
    obtain ⟨count, back, ⟨hlength, heach⟩, rfl⟩ := h
    exact ⟨hlength ▸ count.toNat_lt, back, by rw [word16, hlength], heach⟩
  · intro h
    obtain ⟨hlt, back, rfl, heach⟩ := h
    have hcount : (UInt16.ofNat values.length).toNat = values.length := by
      rw [UInt16.toNat_ofNat', Nat.mod_eq_of_lt hlt]
    exact ⟨.ofNat values.length, back, ⟨hcount.symm, heach⟩, by rw [word16, hcount]⟩

theorem Reads.counted_spelled {item : Decoder α} {spell : α → List UInt8}
    (h : Reads bound item (.spelled spell)) :
    Reads bound (Decoder.counted item) fun values taken events =>
      values.length < 2 ^ 16 ∧ taken = BigEndian.counted spell values ∧ events = [] := by
  refine h.counted.congr fun values taken events => ?_
  constructor
  · intro h
    obtain ⟨hlt, back, rfl, heach⟩ := h
    obtain ⟨rfl, rfl⟩ := Grammar.each_spelled.mp heach
    exact ⟨hlt, rfl, rfl⟩
  · intro h
    obtain ⟨hlt, rfl, rfl⟩ := h
    exact ⟨hlt, _, rfl, Grammar.each_spelled.mpr ⟨rfl, rfl⟩⟩

end Decoder

end Jvm
