import Jvm.Bytes.BigEndian
import Jvm.Bytes.Cursor
import Jvm.Bytes.Float
import Jvm.Event
import Jvm.FormatError

/-! Decoders: steps that read bytes from a cursor, may fail, and report events. A failed step keeps
the place it had reached and the events it had reported. Decoders form a monad; the one loop is
`rounds`, which runs in constant stack and unrolls by `rounds_zero` and `rounds_succ`. -/

namespace Jvm

/-- How a step ended: its value or fault, the place reached, and the events on the way. -/
structure Outcome (α : Type) where
  result : Except FormatError α
  cursor : Cursor
  events : List Event

/-- The outcome with events reported before its own. -/
def Outcome.after {α : Type} (earlier : List Event) (outcome : Outcome α) : Outcome α :=
  { outcome with events := earlier ++ outcome.events }

/-- A step that reads from a cursor. -/
def Decoder (α : Type) : Type := Cursor → Outcome α

namespace Decoder

variable {α β σ : Type}

@[inline] protected def pure (value : α) : Decoder α := fun c => ⟨.ok value, c, []⟩

/-- The second step starts where the first one ended, and only if that succeeded. -/
@[inline] protected def bind (first : Decoder α) (second : α → Decoder β) : Decoder β := fun c =>
  match first c with
  | ⟨.ok value, c, events⟩ => (second value c).after events
  | ⟨.error fault, c, events⟩ => ⟨.error fault, c, events⟩

instance : Monad Decoder where
  pure := Decoder.pure
  bind := Decoder.bind

theorem pure_apply (value : α) (c : Cursor) : (pure value : Decoder α) c = ⟨.ok value, c, []⟩ := rfl

theorem bind_apply (first : Decoder α) (second : α → Decoder β) (c : Cursor) :
    (first >>= second) c =
      match first c with
      | ⟨.ok value, c, events⟩ => (second value c).after events
      | ⟨.error fault, c, events⟩ => ⟨.error fault, c, events⟩ := rfl

theorem map_apply (f : α → β) (step : Decoder α) (c : Cursor) :
    (f <$> step) c = ⟨(step c).result.map f, (step c).cursor, (step c).events⟩ := by
  show (step >>= fun value => pure (f value)) c = _
  rw [bind_apply]
  split <;> simp_all [pure_apply, Outcome.after, Except.map]

instance : LawfulMonad Decoder := LawfulMonad.mk' Decoder
  (by
    intro α step
    funext c
    rw [map_apply]
    cases h : step c with
    | mk result c events => cases result <;> rfl)
  (by
    intro α β value second
    funext c
    simp [bind_apply, pure_apply, Outcome.after])
  (by
    intro α β γ first second third
    funext c
    simp only [bind_apply]
    rcases first c with ⟨_ | value, c, events⟩
    · rfl
    · simp only [Outcome.after]
      rcases second value c with ⟨_ | value, c, events⟩ <;> simp)

/-- Stops with a fault. -/
def fail (fault : FormatError) : Decoder α := fun c => ⟨.error fault, c, []⟩

/-- Stops because `needed` bytes are not there. -/
def truncated (needed : Nat) : Decoder α := fun c =>
  ⟨.error (.truncated c.position needed), c, []⟩

/-- Goes on with a value that was looked up. -/
def ofExcept (found : Except FormatError α) : Decoder α := fun c => ⟨found, c, []⟩

def report (event : Event) : Decoder Unit := fun c => ⟨.ok (), c, [event]⟩

def position : Decoder Nat := fun c => ⟨.ok c.position, c, []⟩

def remaining : Decoder Nat := fun c => ⟨.ok c.remaining, c, []⟩

/-- The next `count` bytes. If there are fewer, nothing is read. -/
def bytes (count : Nat) : Decoder (List UInt8) := fun c =>
  match c.take? count with
  | some (taken, next) => ⟨.ok taken, next, []⟩
  | none => truncated count c

theorem bytes_of_le {count : Nat} {c : Cursor} (h : count ≤ c.remaining) :
    bytes count c =
      ⟨.ok (c.rest.take count), ⟨c.position + count, c.rest.drop count⟩, []⟩ := by
  have htake : c.take? count =
      some (c.rest.take count, ⟨c.position + count, c.rest.drop count⟩) :=
    Cursor.take?_eq_some_iff.mpr
      ⟨List.length_take_of_le h, (List.take_append_drop count c.rest).symm, rfl⟩
  rw [bytes, htake]

theorem bytes_of_lt {count : Nat} {c : Cursor} (h : c.remaining < count) :
    bytes count c = ⟨.error (.truncated c.position count), c, []⟩ := by
  rw [bytes, Cursor.take?_eq_none_iff.mpr h]
  rfl

/-- The next `width` bytes as a number. -/
def word (width : Nat) : Decoder Nat := BigEndian.value <$> bytes width

def u8 : Decoder UInt8 := .ofNat <$> word 1

def u16 : Decoder UInt16 := .ofNat <$> word 2

def u32 : Decoder UInt32 := .ofNat <$> word 4

def u64 : Decoder UInt64 := .ofNat <$> word 8

def binary32 : Decoder Binary32 := Binary32.mk <$> u32

def binary64 : Decoder Binary64 := Binary64.mk <$> u64

/-- The loop behind `rounds`. -/
def roundsFrom (step : σ → Decoder σ) : Nat → σ → Array Event → Cursor → Outcome σ
  | 0, state, log, c => ⟨.ok state, c, log.toList⟩
  | count + 1, state, log, c =>
    match step state c with
    | ⟨.ok state, c, events⟩ => roundsFrom step count state (log.appendList events) c
    | ⟨.error fault, c, events⟩ => ⟨.error fault, c, (log.appendList events).toList⟩

/-- Carries a state through `count` rounds of `step`. -/
def rounds (step : σ → Decoder σ) (count : Nat) (state : σ) : Decoder σ :=
  roundsFrom step count state #[]

theorem rounds_zero (step : σ → Decoder σ) (state : σ) : rounds step 0 state = pure state := rfl

theorem roundsFrom_eq (step : σ → Decoder σ) (count : Nat) (state : σ) (log : Array Event)
    (c : Cursor) : roundsFrom step count state log c = (rounds step count state c).after log.toList := by
  induction count generalizing state log c with
  | zero => simp [rounds, roundsFrom, Outcome.after]
  | succ count ih =>
    simp only [rounds, roundsFrom]
    rcases step state c with ⟨_ | state, c, events⟩
    · simp [Outcome.after]
    · simp only [ih]
      simp [Outcome.after]

theorem rounds_succ (step : σ → Decoder σ) (count : Nat) (state : σ) :
    rounds step (count + 1) state = step state >>= rounds step count := by
  funext c
  rw [bind_apply, rounds, roundsFrom]
  rcases step state c with ⟨_ | state, c, events⟩
  · simp
  · simp [roundsFrom_eq]

/-- Runs `item` `count` times. -/
def times (item : Decoder α) (count : Nat) : Decoder (List α) :=
  Array.toList <$> rounds (fun done => done.push <$> item) count #[]

theorem times_zero (item : Decoder α) : times item 0 = pure [] := by
  simp [times, rounds_zero]

theorem toList_rounds_push (item : Decoder α) (count : Nat) (done : Array α) :
    Array.toList <$> rounds (fun done => done.push <$> item) count done =
      (done.toList ++ ·) <$> times item count := by
  induction count generalizing done with
  | zero => simp [times, rounds_zero]
  | succ count ih =>
    rw [times, rounds_succ, rounds_succ, map_bind, map_bind, map_bind, bind_map_left, bind_map_left]
    refine congrArg _ (funext fun first => ?_)
    rw [ih, ih, ← comp_map]
    congr 1
    funext others
    simp

theorem times_succ (item : Decoder α) (count : Nat) :
    times item (count + 1) = do
      let first ← item
      let others ← times item count
      return first :: others := by
  rw [times, rounds_succ, map_bind, bind_map_left]
  refine congrArg _ (funext fun first => ?_)
  rw [toList_rounds_push, ← bind_pure_comp]
  rfl

/-- A two-byte count and that many items. -/
def counted (item : Decoder α) : Decoder (List α) := do
  let count ← u16
  times item count.toNat

/-- A two-byte count and that many two-byte words. -/
def u16s : Decoder (List UInt16) := counted u16

/-- The outcomes of the steps, each of which starts where the one before it ended, whether that one
succeeded or failed. -/
def inTurn : List (Decoder α) → Cursor → List (Outcome α)
  | [], _ => []
  | step :: others, c =>
    let outcome := step c
    outcome :: inTurn others outcome.cursor

end Decoder

end Jvm
