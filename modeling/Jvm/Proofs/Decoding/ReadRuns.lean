import Jvm.Proofs.Faults.Truth

/-! # Reading step by step

A run of reads, some of which may fail, starts in front of the first byte and goes on from wherever
the read before it stopped. What has been read so far, spelled again, is just the bytes behind the
cursor (`ReadStep.run_accounted`): a read that fails takes nothing, except that a counted read keeps
the count and the words in front of the one that is missing. -/

namespace Jvm

open BigEndian Decoder

/-- A value that a read gives. -/
inductive ReadValue where
  | u8 (n : UInt8)
  | u16 (n : UInt16)
  | u32 (n : UInt32)
  | u64 (n : UInt64)
  | binary32 (x : Binary32)
  | binary64 (x : Binary64)
  | bytes (taken : List UInt8)
  | u16s (words : List UInt16)

/-- The bytes of the value, most significant byte first. -/
def ReadValue.encode : ReadValue → List UInt8
  | u8 n => [n]
  | u16 n => word16 n
  | u32 n => word32 n
  | u64 n => word64 n
  | binary32 x => word32 x.bits
  | binary64 x => word64 x.bits
  | bytes taken => taken
  | u16s words => counted word16 words

/-- Everything that can be read at once. -/
inductive ReadStep where
  | u8
  | u16
  | u32
  | u64
  | binary32
  | binary64
  | bytes (count : Nat)
  | u16s

/-- The words that are read in turn, up to the first that is missing. -/
def Decoder.wordsRead : Nat → Cursor → List UInt16
  | 0, _ => []
  | count + 1, c =>
    match u16 c with
    | ⟨.ok word, next, _⟩ => word :: wordsRead count next
    | ⟨.error _, _, _⟩ => []

/-- The count, if it is there, and the words that are read behind it. -/
def Decoder.countedWordsRead (c : Cursor) : List UInt16 :=
  match u16 c with
  | ⟨.ok count, next, _⟩ => count :: wordsRead count.toNat next
  | ⟨.error _, _, _⟩ => []

/-- It ended in front of a word that is not there. -/
def Outcome.LacksWord {α : Type} (outcome : Outcome α) : Prop :=
  outcome.result = .error (.truncated outcome.cursor.position 2) ∧ outcome.cursor.remaining < 2

namespace ReadStep

def decoder : ReadStep → Decoder ReadValue
  | u8 => .u8 <$> Decoder.u8
  | u16 => .u16 <$> Decoder.u16
  | u32 => .u32 <$> Decoder.u32
  | u64 => .u64 <$> Decoder.u64
  | binary32 => .binary32 <$> Decoder.binary32
  | binary64 => .binary64 <$> Decoder.binary64
  | bytes count => .bytes <$> Decoder.bytes count
  | u16s => .u16s <$> Decoder.u16s

/-- The bytes that a read takes, where that is known beforehand. -/
def width? : ReadStep → Option Nat
  | u8 => some 1
  | u16 => some 2
  | u32 | binary32 => some 4
  | u64 | binary64 => some 8
  | bytes count => some count
  | u16s => none

/-- The values that are read from `c` on, those in front of a failure included. -/
def valuesRead (c : Cursor) : ReadStep → List ReadValue
  | u16s => (countedWordsRead c).map .u16
  | step =>
    match (step.decoder c).result with
    | .ok value => [value]
    | .error _ => []

/-- The values that are read in a run from `c` on. -/
def allRead : List ReadStep → Cursor → List ReadValue
  | [], _ => []
  | step :: others, c => step.valuesRead c ++ allRead others (step.decoder c).cursor

/-- The outcomes of the reads on one new cursor. -/
def run (bytes : List UInt8) (steps : List ReadStep) : List (Outcome ReadValue) :=
  inTurn (steps.map decoder) (.start bytes)

/-- What is known of the outcome of a read from `c` on. `sofar` is what was read up to its end. -/
structure Accounted (bytes : List UInt8) (sofar : List ReadValue) (c : Cursor) (step : ReadStep)
    (outcome : Outcome ReadValue) : Prop where
  position_le : outcome.cursor.position ≤ bytes.length
  remaining_eq : outcome.cursor.position + outcome.cursor.remaining = bytes.length
  succeeds : ∀ width, step.width? = some width →
    ((∃ value, outcome.result = .ok value) ↔ width ≤ c.remaining)
  advances : ∀ width, step.width? = some width → width ≤ c.remaining →
    outcome.cursor.position = c.position + width
  truncated : ∀ width, step.width? = some width → c.remaining < width →
    outcome.result = .error (.truncated c.position width) ∧ outcome.cursor = c
  counted : step = .u16s →
    (∃ count words, step.valuesRead c = (count :: words).map .u16 ∧ words.length = count.toNat ∧
      outcome.result = .ok (.u16s words)) ∨
    (∃ count words, step.valuesRead c = (count :: words).map .u16 ∧ words.length < count.toNat ∧
      outcome.LacksWord) ∨
    step.valuesRead c = [] ∧ outcome.LacksWord
  spelled : bytes.take outcome.cursor.position = sofar.flatMap ReadValue.encode

variable {step : ReadStep} {width : Nat} {c : Cursor}

/-- A number read from as many bytes as it takes is spelled by these bytes. -/
theorem digits_of_value {α : Type} {ofNat : Nat → α} {toNat : α → Nat} {taken : List UInt8}
    (hlength : taken.length = width) (hto : ∀ n, n < capacity width → toNat (ofNat n) = n) :
    digits width (toNat (ofNat (value taken))) = taken := by
  have hlt := value_lt taken
  rw [hlength] at hlt
  rw [hto _ hlt, ← hlength, digits_value]

/-- A read of known width takes bytes and makes a value of them that spells them again. -/
theorem exists_decoder_eq (h : step.width? = some width) : ∃ build : List UInt8 → ReadValue,
    step.decoder = build <$> Decoder.bytes width ∧
      ∀ taken, taken.length = width → (build taken).encode = taken := by
  have hword16 (taken : List UInt8) (hlength : taken.length = 2) :
      word16 (.ofNat (value taken)) = taken :=
    digits_of_value hlength fun _ hlt => UInt16.toNat_ofNat_of_lt hlt
  have hword32 (taken : List UInt8) (hlength : taken.length = 4) :
      word32 (.ofNat (value taken)) = taken :=
    digits_of_value hlength fun _ hlt => UInt32.toNat_ofNat_of_lt hlt
  have hword64 (taken : List UInt8) (hlength : taken.length = 8) :
      word64 (.ofNat (value taken)) = taken :=
    digits_of_value hlength fun _ hlt => UInt64.toNat_ofNat_of_lt hlt
  cases step with
  | u8 =>
    cases h
    refine ⟨fun taken => .u8 (.ofNat (value taken)), ?_, fun taken hlength => ?_⟩
    · simp only [decoder, Decoder.u8, word, Functor.map_map]
    · obtain ⟨byte, rfl⟩ := List.length_eq_one_iff.mp hlength
      simp [ReadValue.encode, value]
  | u16 =>
    cases h
    refine ⟨fun taken => .u16 (.ofNat (value taken)), ?_, hword16⟩
    simp only [decoder, Decoder.u16, word, Functor.map_map]
  | u32 =>
    cases h
    refine ⟨fun taken => .u32 (.ofNat (value taken)), ?_, hword32⟩
    simp only [decoder, Decoder.u32, word, Functor.map_map]
  | u64 =>
    cases h
    refine ⟨fun taken => .u64 (.ofNat (value taken)), ?_, hword64⟩
    simp only [decoder, Decoder.u64, word, Functor.map_map]
  | binary32 =>
    cases h
    refine ⟨fun taken => .binary32 ⟨.ofNat (value taken)⟩, ?_, hword32⟩
    simp only [decoder, Decoder.binary32, Decoder.u32, word, Functor.map_map]
  | binary64 =>
    cases h
    refine ⟨fun taken => .binary64 ⟨.ofNat (value taken)⟩, ?_, hword64⟩
    simp only [decoder, Decoder.binary64, Decoder.u64, word, Functor.map_map]
  | bytes count =>
    cases h
    exact ⟨.bytes, rfl, fun _ _ => rfl⟩
  | u16s => cases h

theorem exists_decoder_eq_ok (h : step.width? = some width) (hle : width ≤ c.remaining) :
    ∃ value, step.decoder c = ⟨.ok value, ⟨c.position + width, c.rest.drop width⟩, []⟩ ∧
      value.encode = c.rest.take width := by
  obtain ⟨build, hdecoder, hencode⟩ := exists_decoder_eq h
  refine ⟨build (c.rest.take width), ?_, hencode _ (List.length_take_of_le hle)⟩
  rw [hdecoder, map_apply, bytes_of_le hle]
  rfl

theorem decoder_of_lt (h : step.width? = some width) (hlt : c.remaining < width) :
    step.decoder c = ⟨.error (.truncated c.position width), c, []⟩ := by
  obtain ⟨build, hdecoder, -⟩ := exists_decoder_eq h
  rw [hdecoder, map_apply, bytes_of_lt hlt]
  rfl

theorem valuesRead_of_width (h : step.width? = some width) : step.valuesRead c =
    match (step.decoder c).result with
    | .ok value => [value]
    | .error _ => [] := by
  cases step with
  | u16s => cases h
  | _ => rfl

end ReadStep

/-! ## Counted words -/

theorem Outcome.LacksWord.map {α β : Type} {step : Decoder α} {c : Cursor} (f : α → β)
    (h : (step c).LacksWord) : ((f <$> step) c).LacksWord := by
  obtain ⟨hresult, hremaining⟩ := h
  rw [map_apply, LacksWord, hresult]
  exact ⟨rfl, hremaining⟩

namespace Decoder

variable {c next : Cursor}

/-- A word is there or it is missing. -/
theorem u16_cases (c : Cursor) :
    (∃ word next, u16 c = ⟨.ok word, next, []⟩ ∧ c.Passes (word16 word) next) ∨
      u16 c = ⟨.error (.truncated c.position 2), c, []⟩ ∧ c.remaining < 2 := by
  rcases Nat.lt_or_ge c.remaining 2 with hlt | hle
  · refine .inr ⟨?_, hlt⟩
    rw [u16, word, map_apply, map_apply, bytes_of_lt hlt]
    rfl
  · refine .inl ?_
    have hok : u16 c = ⟨.ok (.ofNat (value (c.rest.take 2))),
        ⟨c.position + 2, c.rest.drop 2⟩, []⟩ := by
      rw [u16, word, map_apply, map_apply, bytes_of_le hle]
      rfl
    exact ⟨_, _, hok, u16_eq_ok_iff.mp hok⟩

theorem wordsRead_succ_of_ok {word : UInt16} (h : u16 c = ⟨.ok word, next, []⟩) (count : Nat) :
    wordsRead (count + 1) c = word :: wordsRead count next := by
  rw [wordsRead, h]

theorem wordsRead_succ_of_lacks (h : u16 c = ⟨.error (.truncated c.position 2), c, []⟩)
    (count : Nat) : wordsRead (count + 1) c = [] := by
  rw [wordsRead, h]

/-- Reading words in turn takes the words that are read, and gives them if none is missing. -/
theorem times_u16_apply (count : Nat) (c : Cursor) :
    c.Passes ((wordsRead count c).flatMap word16) (times u16 count c).cursor ∧
      ((wordsRead count c).length = count ∧ (times u16 count c).result = .ok (wordsRead count c) ∨
        (wordsRead count c).length < count ∧ (times u16 count c).LacksWord) := by
  induction count generalizing c with
  | zero =>
    rw [times_zero]
    exact ⟨.refl c, .inl ⟨rfl, rfl⟩⟩
  | succ count ih =>
    rw [times_succ]
    rcases u16_cases c with ⟨word, next, hword, hpass⟩ | ⟨hword, hlt⟩
    · rw [wordsRead_succ_of_ok hword, bind_of_ok hword, bind_pure_comp]
      obtain ⟨hpass', hothers⟩ := ih next
      refine ⟨?_, ?_⟩
      · rw [map_apply]
        exact hpass.trans hpass'
      · rcases hothers with ⟨hlength, hresult⟩ | ⟨hlength, hlacks⟩
        · refine .inl ⟨congrArg (· + 1) hlength, ?_⟩
          rw [map_apply, hresult]
          rfl
        · exact .inr ⟨Nat.succ_lt_succ hlength, hlacks.map (word :: ·)⟩
    · rw [wordsRead_succ_of_lacks hword, bind_of_error hword]
      exact ⟨.refl c, .inr ⟨Nat.succ_pos count, rfl, hlt⟩⟩

/-- Of a counted read the words stay that were read, whether it came to its end, to the end of the
bytes behind the count, or not even behind the count. -/
theorem u16s_apply (c : Cursor) :
    c.Passes ((countedWordsRead c).flatMap word16) (u16s c).cursor ∧
      ((∃ count words, countedWordsRead c = count :: words ∧ words.length = count.toNat ∧
          (u16s c).result = .ok words) ∨
        (∃ count words, countedWordsRead c = count :: words ∧ words.length < count.toNat ∧
          (u16s c).LacksWord) ∨
        countedWordsRead c = [] ∧ (u16s c).LacksWord) := by
  rcases u16_cases c with ⟨count, next, hcount, hpass⟩ | ⟨hcount, hlt⟩
  · obtain ⟨hpass', hwords⟩ := times_u16_apply count.toNat next
    have hread : countedWordsRead c = count :: wordsRead count.toNat next := by
      rw [countedWordsRead, hcount]
    have hrun : u16s c = times u16 count.toNat next := bind_of_ok hcount
    rw [hread, hrun]
    refine ⟨hpass.trans hpass', ?_⟩
    rcases hwords with ⟨hlength, hresult⟩ | ⟨hlength, hlacks⟩
    · exact .inl ⟨count, _, rfl, hlength, hresult⟩
    · exact .inr (.inl ⟨count, _, rfl, hlength, hlacks⟩)
  · have hread : countedWordsRead c = [] := by rw [countedWordsRead, hcount]
    have hrun : u16s c = ⟨.error (.truncated c.position 2), c, []⟩ := bind_of_error hcount
    rw [hread, hrun]
    exact ⟨.refl c, .inr (.inr ⟨rfl, rfl, hlt⟩)⟩

/-! ## Runs -/

variable {α : Type} {steps : List (Decoder α)}

/-- Where the steps stop that are run in turn from `c` on. -/
def stopAt (steps : List (Decoder α)) (c : Cursor) : Cursor :=
  steps.foldl (fun c step => (step c).cursor) c

theorem inTurn_getElem? (c : Cursor) (k : Nat) : (inTurn steps c)[k]? =
    steps[k]?.map fun step => step (stopAt (steps.take k) c) := by
  induction steps generalizing c k with
  | nil => simp [inTurn]
  | cons step steps ih =>
    cases k with
    | zero => rfl
    | succ k => exact ih (step c).cursor k

theorem length_inTurn (c : Cursor) : (inTurn steps c).length = steps.length := by
  induction steps generalizing c with
  | nil => rfl
  | cons step steps ih => exact congrArg (· + 1) (ih (step c).cursor)

/-- A step starts where the one in front of it stopped. -/
theorem before_getElem? (c : Cursor) {k : Nat} (h : k ≤ steps.length) :
    (c :: (inTurn steps c).map Outcome.cursor)[k]? = some (stopAt (steps.take k) c) := by
  induction steps generalizing c k with
  | nil =>
    obtain rfl := Nat.le_zero.mp h
    rfl
  | cons step steps ih =>
    cases k with
    | zero => rfl
    | succ k => exact ih (step c).cursor (Nat.le_of_succ_le_succ h)

end Decoder

namespace ReadStep

variable {step : ReadStep} {width : Nat} {c : Cursor} {bytes : List UInt8}

theorem flatMap_encode_u16 (words : List UInt16) :
    (words.map ReadValue.u16).flatMap ReadValue.encode = words.flatMap word16 :=
  List.flatMap_map ..

/-- A read takes the bytes of the values that are read, also if it fails. -/
theorem passes_valuesRead (step : ReadStep) (c : Cursor) :
    c.Passes ((step.valuesRead c).flatMap ReadValue.encode) (step.decoder c).cursor := by
  cases hwidth : step.width? with
  | none =>
    cases step <;> cases hwidth
    rw [valuesRead, flatMap_encode_u16, decoder, map_apply]
    exact (u16s_apply c).1
  | some width =>
    rw [valuesRead_of_width hwidth]
    rcases Nat.lt_or_ge c.remaining width with hlt | hle
    · rw [decoder_of_lt hwidth hlt]
      exact .refl c
    · obtain ⟨value, hok, hencode⟩ := exists_decoder_eq_ok hwidth hle
      rw [hok, List.flatMap_singleton, hencode]
      refine ⟨(List.take_append_drop width c.rest).symm, ?_⟩
      rw [List.length_take_of_le hle]

theorem passes_allRead (steps : List ReadStep) (c : Cursor) :
    c.Passes ((allRead steps c).flatMap ReadValue.encode) (stopAt (steps.map decoder) c) := by
  induction steps generalizing c with
  | nil => exact .refl c
  | cons step steps ih =>
    rw [allRead, List.flatMap_append]
    exact (passes_valuesRead step c).trans (ih (step.decoder c).cursor)

theorem counted_u16s (c : Cursor) :
    (∃ count words, u16s.valuesRead c = (count :: words).map .u16 ∧
      words.length = count.toNat ∧ (u16s.decoder c).result = .ok (.u16s words)) ∨
    (∃ count words, u16s.valuesRead c = (count :: words).map .u16 ∧
      words.length < count.toNat ∧ (u16s.decoder c).LacksWord) ∨
    u16s.valuesRead c = [] ∧ (u16s.decoder c).LacksWord := by
  rcases (u16s_apply c).2 with ⟨count, words, hread, hlength, hresult⟩ |
    ⟨count, words, hread, hlength, hlacks⟩ | ⟨hread, hlacks⟩
  · refine .inl ⟨count, words, congrArg _ hread, hlength, ?_⟩
    rw [decoder, map_apply, hresult]
    rfl
  · exact .inr (.inl ⟨count, words, congrArg _ hread, hlength, hlacks.map _⟩)
  · exact .inr (.inr ⟨congrArg _ hread, hlacks.map _⟩)

/-- Wherever a read starts behind what was read so far, its outcome is accounted for. -/
theorem accounted_decoder {sofar : List ReadValue}
    (h : (Cursor.start bytes).Passes (sofar.flatMap ReadValue.encode) c) (step : ReadStep) :
    Accounted bytes (sofar ++ step.valuesRead c) c step (step.decoder c) := by
  have hpass := h.trans (passes_valuesRead step c)
  have hstands := (Cursor.standsIn_start bytes).passes hpass
  refine ⟨hstands.position_le, hstands.position_add_remaining, fun width hwidth => ?_,
    fun width hwidth hle => ?_, fun width hwidth hlt => ?_, fun hcounted => ?_, ?_⟩
  · rcases Nat.lt_or_ge c.remaining width with hlt | hle
    · rw [decoder_of_lt hwidth hlt]
      exact iff_of_false (fun hok => by cases hok.choose_spec) (Nat.not_le_of_lt hlt)
    · obtain ⟨value, hok, -⟩ := exists_decoder_eq_ok hwidth hle
      exact iff_of_true ⟨value, by rw [hok]⟩ hle
  · obtain ⟨value, hok, -⟩ := exists_decoder_eq_ok hwidth hle
    rw [hok]
  · rw [decoder_of_lt hwidth hlt]
    exact ⟨rfl, rfl⟩
  · subst hcounted
    exact counted_u16s c
  · have hbytes : bytes = _ ++ (step.decoder c).cursor.rest := hpass.rest_eq
    have hposition : (step.decoder c).cursor.position = _ := hpass.position_eq.trans (Nat.zero_add _)
    rw [List.flatMap_append, hposition, hbytes, List.take_left]

theorem allRead_append (front back : List ReadStep) (c : Cursor) :
    allRead (front ++ back) c = allRead front c ++ allRead back (stopAt (front.map decoder) c) := by
  induction front generalizing c with
  | nil => rfl
  | cons step front ih =>
    rw [List.cons_append, allRead, allRead, ih, List.append_assoc]
    rfl

/-- In a run of reads on one new cursor every read has an outcome. It starts where the one in front
of it stopped, and stays in the bytes. A read of known width succeeds exactly if as many bytes are
left; then it goes on by its width, and otherwise it says what is missing and stays. The values read
so far, those of a counted read that was cut short included, spell the bytes behind the cursor. -/
theorem run_accounted (bytes : List UInt8) (steps : List ReadStep) :
    (run bytes steps).length = steps.length ∧
    ∀ (k : Nat) step, steps[k]? = some step → ∃ c outcome,
      (Cursor.start bytes :: (run bytes steps).map Outcome.cursor)[k]? = some c ∧
      (run bytes steps)[k]? = some outcome ∧
      Accounted bytes (allRead (steps.take (k + 1)) (.start bytes)) c step outcome := by
  refine ⟨(length_inTurn (.start bytes)).trans (List.length_map _), fun k step hstep => ?_⟩
  have hlt := (List.getElem?_eq_some_iff.mp hstep).1
  have hlength : k ≤ (steps.map decoder).length := by rw [List.length_map]; exact Nat.le_of_lt hlt
  have hbefore := before_getElem? (.start bytes) hlength
  have hread := passes_allRead (steps.take k) (.start bytes)
  rw [← List.map_take] at hbefore
  refine ⟨_, step.decoder (stopAt ((steps.take k).map decoder) (.start bytes)), hbefore, ?_, ?_⟩
  · rw [run, inTurn_getElem?, List.getElem?_map, hstep, List.map_take]
    rfl
  · have hsofar : allRead (steps.take (k + 1)) (.start bytes) =
        allRead (steps.take k) (.start bytes) ++
          step.valuesRead (stopAt ((steps.take k).map decoder) (.start bytes)) := by
      rw [List.take_add_one, hstep, allRead_append]
      exact congrArg _ (List.append_nil _)
    rw [hsofar]
    exact accounted_decoder hread step

/-- Words behind a count that is one too many, between a read and another that ask for too much. -/
theorem run_accounted_shortWords :
    let bytes : List UInt8 := [1, 0, 2, 0, 7, 0]
    let steps : List ReadStep := [.bytes 9, .u8, .u16s, .u64]
    let sofar : List ReadValue := [.u8 1, .u16 2, .u16 7]
    steps[2]? = some .u16s ∧ allRead (steps.take 3) (.start bytes) = sofar ∧
      (run bytes steps).map (·.cursor.position) = [0, 1, 5, 5] ∧
      bytes.take 5 = sofar.flatMap ReadValue.encode := by
  intro bytes steps sofar
  have hread : allRead (steps.take 3) (.start bytes) = sofar := rfl
  have hpositions : (run bytes steps).map (·.cursor.position) = [0, 1, 5, 5] := by decide +kernel
  obtain ⟨c, outcome, -, houtcome, haccounted⟩ := (run_accounted bytes steps).2 2 .u16s rfl
  have hposition : outcome.cursor.position = 5 := by
    have hthird : ((run bytes steps).map (·.cursor.position))[2]? = some 5 := by rw [hpositions]; rfl
    rw [List.getElem?_map, houtcome] at hthird
    exact Option.some.inj hthird
  have hspelled := haccounted.spelled
  rw [hposition, hread] at hspelled
  exact ⟨rfl, hread, hpositions, hspelled⟩

end ReadStep

end Jvm
