import Jvm.Proofs.Pool.ReferenceCheck

/-! # Filling the slots with a 16-bit index

The slots that a count announces can be filled by a loop with an index of 16 bits: a round reads one
constant and moves the index on by one, or by two behind a long or double (`Filling.round`). No sum
in such a round takes more than 16 bits, the index is always the number of slots filled and stays
within the count, and the loop ends as `ConstantPool.decode` does (`filled_in_bounds`). -/

namespace Jvm

open BigEndian Decoder

/-- The sum of two 16-bit numbers. There is none if it takes more than 16 bits. -/
def sum16? (x y : UInt16) : Option UInt16 :=
  if x.toNat + y.toNat < 2 ^ 16 then some (x + y) else none

theorem exists_sum16? {x y : UInt16} (h : x.toNat + y.toNat < 2 ^ 16) :
    ∃ sum, sum16? x y = some sum ∧ sum.toNat = x.toNat + y.toNat := by
  refine ⟨x + y, if_pos h, ?_⟩
  rw [UInt16.toNat_add, Nat.mod_eq_of_lt h]

namespace ConstantPool

/-- Fills so many more slots, one at a time, and ends with a pool unless the last one is wide. -/
def fillLeft (left : Nat) (slots : Array (Option Constant)) : Decoder ConstantPool := do
  let slots ← rounds decodeSlot left slots
  if endsWide slots then fail (.wideAtEnd (slots.size - 1)) else return ⟨slots⟩

section

variable {slots : Array (Option Constant)} {c next : Cursor}

theorem decodeSlots_eq : decodeSlots = u16 >>= fun count => fillLeft (count.toNat - 1) #[none] := rfl

theorem fillLeft_zero (slots : Array (Option Constant)) : fillLeft 0 slots =
    if endsWide slots then fail (.wideAtEnd (slots.size - 1)) else return ⟨slots⟩ := by
  rw [fillLeft, rounds_zero, pure_bind]

theorem fillLeft_succ (left : Nat) (slots : Array (Option Constant)) :
    fillLeft (left + 1) slots = decodeSlot slots >>= fillLeft left := by
  rw [fillLeft, rounds_succ, bind_assoc]
  rfl

theorem decodeSlot_of_ok {constant : Constant} (hsettled : endsWide slots = false)
    (h : Constant.decode c = ⟨.ok constant, next, []⟩) : decodeSlot slots c =
      ⟨.ok (slots.push (some constant)), next, [.constantRead slots.size constant.tag]⟩ := by
  rw [decodeSlot, hsettled, if_neg Bool.false_ne_true, bind_of_ok h]
  rfl

theorem decodeSlot_of_error {fault : FormatError} {events : List Event}
    (hsettled : endsWide slots = false)
    (h : Constant.decode c = ⟨.error fault, next, events⟩) :
    decodeSlot slots c = ⟨.error fault, next, events⟩ := by
  rw [decodeSlot, hsettled, if_neg Bool.false_ne_true, bind_of_error h]

theorem decodeSlot_of_endsWide (h : endsWide slots = true) :
    decodeSlot slots = pure (slots.push none) := by
  rw [decodeSlot, if_pos h]

end

/-- The top of a round: the index of the slot to fill next, the slots in front of it, the place
reached and the reports so far. -/
structure Filling where
  index : UInt16
  slots : Array (Option Constant)
  cursor : Cursor
  log : List Event

namespace Filling

/-- The first slot is there and empty before any constant is read. -/
def start (c : Cursor) : Filling := ⟨1, #[none], c, []⟩

/-- Reads the constant at the index and fills the slots that it takes. There is no next index if a
sum on the way to it takes more than 16 bits. -/
def fillNext (count index : UInt16) (slots : Array (Option Constant)) :
    Decoder (Option (UInt16 × Array (Option Constant))) := do
  let constant ← Constant.decode
  report (.constantRead index.toNat constant.tag)
  if constant.isWide then
    match sum16? index 1 with
    | none => return none
    | some behind =>
      if count ≤ behind then fail (.wideAtEnd index.toNat)
      else return (sum16? index 2).map fun next => (next, (slots.push (some constant)).push none)
  else return (sum16? index 1).map fun next => (next, slots.push (some constant))

/-- The round from the top. -/
def round (count : UInt16) (top : Filling) : Outcome (Option (UInt16 × Array (Option Constant))) :=
  fillNext count top.index top.slots top.cursor

/-- What is at the top of the loop after so many rounds. There is another round as long as the
index is below the count. -/
inductive Reached (count : UInt16) (c : Cursor) : Nat → Filling → Prop
  | start : Reached count c 0 (.start c)
  | again {n : Nat} {top : Filling} {index : UInt16} {slots : Array (Option Constant)}
      {next : Cursor} {events : List Event} : Reached count c n top → top.index < count →
      top.round count = ⟨.ok (some (index, slots)), next, events⟩ →
      Reached count c (n + 1) ⟨index, slots, next, top.log ++ events⟩

/-- How a round ends below the count. -/
inductive Turn (count : UInt16) (top : Filling) :
    Outcome (Option (UInt16 × Array (Option Constant))) → Prop
  | unread {fault : FormatError} {next : Cursor} {events : List Event} :
      Constant.decode top.cursor = ⟨.error fault, next, events⟩ →
      Turn count top ⟨.error fault, next, events⟩
  | narrow {constant : Constant} {index : UInt16} {next : Cursor} :
      Constant.decode top.cursor = ⟨.ok constant, next, []⟩ → constant.isWide = false →
      index.toNat = top.index.toNat + 1 →
      Turn count top ⟨.ok (some (index, top.slots.push (some constant))), next,
        [.constantRead top.index.toNat constant.tag]⟩
  | wide {constant : Constant} {index : UInt16} {next : Cursor} :
      Constant.decode top.cursor = ⟨.ok constant, next, []⟩ → constant.isWide = true →
      index.toNat = top.index.toNat + 2 → index.toNat ≤ count.toNat →
      Turn count top ⟨.ok (some (index, (top.slots.push (some constant)).push none)), next,
        [.constantRead top.index.toNat constant.tag]⟩
  | wideAtEnd {constant : Constant} {next : Cursor} :
      Constant.decode top.cursor = ⟨.ok constant, next, []⟩ → constant.isWide = true →
      top.index.toNat + 1 = count.toNat →
      Turn count top ⟨.error (.wideAtEnd top.index.toNat), next,
        [.constantRead top.index.toNat constant.tag]⟩

/-- The loop stops at this top, and what it leaves is the outcome of reading the pool. -/
inductive EndsIn (count : UInt16) (top : Filling) : Outcome ConstantPool → Prop
  | filled : count ≤ top.index → EndsIn count top
      ⟨(ConstantPool.mk top.slots).checkReferences.map fun _ => ⟨top.slots⟩, top.cursor, top.log⟩
  | failed {fault : FormatError} {next : Cursor} {events : List Event} : top.index < count →
      top.round count = ⟨.error fault, next, events⟩ →
      EndsIn count top ⟨.error fault, next, top.log ++ events⟩

/-- The outcome of filling the slots that are left, one at a time. -/
def rest (count : UInt16) (top : Filling) : Outcome ConstantPool :=
  (fillLeft (count.toNat - top.index.toNat) top.slots top.cursor).after top.log

/-- What holds at the top of the loop, whatever was read. -/
structure Kept (count : UInt16) (c : Cursor) (n : Nat) (top : Filling) : Prop where
  size_eq : top.slots.size = top.index.toNat
  settled : endsWide top.slots = false
  rounds_lt : n < top.index.toNat
  index_le : top.index.toNat ≤ max count.toNat 1
  rest_eq : top.rest count = (Filling.start c).rest count

/-- The loop that starts at `start` stays within 16 bits and within the count, and it ends as reading
the pool at `c` does. -/
structure InBounds (count : UInt16) (c start : Cursor) : Prop where
  /-- No round comes to a sum of more than 16 bits. -/
  sums_fit : ∀ n top, Reached count start n top → top.index < count →
    ∀ next events, top.round count ≠ ⟨.ok none, next, events⟩
  size_eq : ∀ n top, Reached count start n top → top.slots.size = top.index.toNat
  index_lt : ∀ n top n' top', Reached count start n top → Reached count start n' top' → n < n' →
    top.index < top'.index
  index_le : ∀ n top, Reached count start n top → top.index.toNat ≤ max count.toNat 1
  /-- A round that begins behind `n` others is one of so many at most. -/
  rounds_le : ∀ n top, Reached count start n top → top.index < count →
    n + 1 ≤ max count.toNat 1 - 1
  ends : ∃ n top, Reached count start n top ∧ EndsIn count top (decode c)
  wide_iff : ∀ index next log, decode c = ⟨.error (.wideAtEnd index), next, log⟩ ↔
    ∃ n top constant, Reached count start n top ∧ top.index.toNat = index ∧
      index + 1 = count.toNat ∧ Constant.decode top.cursor = ⟨.ok constant, next, []⟩ ∧
      constant.isWide = true ∧ log = top.log ++ [.constantRead index constant.tag]

variable {count index : UInt16} {slots : Array (Option Constant)} {c start next : Cursor} {top : Filling}
  {n : Nat} {events : List Event}

/-! ## One round -/

theorem turn_round (h : top.index < count) : Turn count top (top.round count) := by
  have hlt : top.index.toNat < count.toNat := UInt16.lt_iff_toNat_lt.mp h
  have hcount := count.toNat_lt
  obtain ⟨behind, hbehind, hone⟩ : ∃ sum, sum16? top.index 1 = some sum ∧
      sum.toNat = top.index.toNat + 1 :=
    exists_sum16? (show top.index.toNat + 1 < 2 ^ 16 by omega)
  unfold round fillNext
  rcases hread : Constant.decode top.cursor with ⟨fault | constant, next, events⟩
  · rw [bind_of_error hread]
    exact .unread hread
  · obtain ⟨_, ⟨_, -, -, rfl⟩, -⟩ := Constant.reads_decode.of_ok hread
    rw [bind_of_ok hread]
    cases hwide : constant.isWide with
    | false =>
      simp only [hbehind]
      exact .narrow hread hwide hone
    | true =>
      simp only [hbehind]
      by_cases hend : count ≤ behind
      · simp only [if_pos hend]
        have hle := UInt16.le_iff_toNat_le.mp hend
        exact .wideAtEnd hread hwide (by omega)
      · have hlt' := UInt16.lt_iff_toNat_lt.mp (UInt16.not_le.mp hend)
        obtain ⟨index, hindex, htwo⟩ : ∃ sum, sum16? top.index 2 = some sum ∧
            sum.toNat = top.index.toNat + 2 :=
          exists_sum16? (show top.index.toNat + 2 < 2 ^ 16 by omega)
        simp only [if_neg hend, hindex]
        exact .wide hread hwide htwo (by omega)

theorem turn_of_round {outcome : Outcome (Option (UInt16 × Array (Option Constant)))}
    (hlt : top.index < count) (h : top.round count = outcome) : Turn count top outcome :=
  h ▸ turn_round hlt

theorem round_ne_none (hlt : top.index < count) : top.round count ≠ ⟨.ok none, next, events⟩ := by
  intro h
  cases turn_of_round hlt h

theorem index_lt_of_round (hlt : top.index < count)
    (h : top.round count = ⟨.ok (some (index, slots)), next, events⟩) : top.index < index := by
  rw [UInt16.lt_iff_toNat_lt]
  cases turn_of_round hlt h with
  | narrow hread hwide hindex => omega
  | wide hread hwide hindex hle => omega

/-- A round gives up for this reason only behind a long or double in the last slot. -/
theorem exists_wide_of_round {slot : Nat} (hlt : top.index < count)
    (h : top.round count = ⟨.error (.wideAtEnd slot), next, events⟩) : ∃ constant,
      top.index.toNat = slot ∧ slot + 1 = count.toNat ∧
        Constant.decode top.cursor = ⟨.ok constant, next, []⟩ ∧ constant.isWide = true ∧
          events = [.constantRead slot constant.tag] := by
  cases turn_of_round hlt h with
  | unread hread =>
    have hfault : FormatError.OnConstant (.wideAtEnd slot) :=
      Constant.failsAs_decode top.cursor _ (by rw [hread])
    exact hfault.elim
  | wideAtEnd hread hwide hend => exact ⟨_, rfl, hend, hread, hwide, rfl⟩

theorem index_lt_count (h : top.index.toNat + 1 = count.toNat) : top.index < count :=
  UInt16.lt_iff_toNat_lt.mpr (Nat.lt_of_succ_le (Nat.le_of_eq h))

theorem round_of_wide {constant : Constant} (hend : top.index.toNat + 1 = count.toNat)
    (hread : Constant.decode top.cursor = ⟨.ok constant, next, []⟩)
    (hwide : constant.isWide = true) :
    top.round count = ⟨.error (.wideAtEnd top.index.toNat), next,
      [.constantRead top.index.toNat constant.tag]⟩ := by
  have hturn := turn_round (index_lt_count hend)
  generalize top.round count = outcome at hturn
  cases hturn with
  | unread hread' =>
    rw [hread] at hread'
    cases hread'
  | narrow hread' hnarrow _ =>
    rw [hread] at hread'
    cases hread'
    rw [hwide] at hnarrow
    cases hnarrow
  | wide _ _ hindex hle => omega
  | wideAtEnd hread' _ _ =>
    rw [hread] at hread'
    cases hread'
    rfl

/-! ## The slots that are left -/

theorem exists_left (h : top.index < count) : ∃ left,
    count.toNat - top.index.toNat = left + 1 := by
  have hlt := UInt16.lt_iff_toNat_lt.mp h
  exact ⟨count.toNat - top.index.toNat - 1, by omega⟩

theorem Kept.rest_of_le (kept : Kept count c n top) (h : count ≤ top.index) :
    top.rest count = ⟨.ok ⟨top.slots⟩, top.cursor, top.log⟩ := by
  have hle := UInt16.le_iff_toNat_le.mp h
  rw [rest, Nat.sub_eq_zero_of_le hle, fillLeft_zero, kept.settled]
  simp [pure_apply, Outcome.after]

/-- A round that goes on fills what one or two rounds of one slot fill. -/
theorem Kept.rest_of_ok (kept : Kept count c n top) (hlt : top.index < count)
    (h : top.round count = ⟨.ok (some (index, slots)), next, events⟩) :
    top.rest count = (Filling.mk index slots next (top.log ++ events)).rest count := by
  obtain ⟨left, hleft⟩ := exists_left hlt
  cases turn_of_round hlt h with
  | narrow hread hwide hindex =>
    have hleft' : count.toNat - index.toNat = left := by omega
    rw [rest, rest, hleft, hleft', fillLeft_succ, bind_of_ok (decodeSlot_of_ok kept.settled hread),
      kept.size_eq]
    simp [Outcome.after]
  | wide hread hwide hindex hle =>
    -- the slot behind is filled without reading
    obtain ⟨left', rfl⟩ : ∃ left', left = left' + 1 := ⟨left - 1, by omega⟩
    have hleft' : count.toNat - index.toNat = left' := by omega
    rw [rest, rest, hleft, hleft', fillLeft_succ, bind_of_ok (decodeSlot_of_ok kept.settled hread),
      kept.size_eq, fillLeft_succ, decodeSlot_of_endsWide (by rwa [endsWide_push])]
    simp [Outcome.after]

theorem Kept.rest_of_error {fault : FormatError} (kept : Kept count c n top)
    (hlt : top.index < count) (h : top.round count = ⟨.error fault, next, events⟩) :
    top.rest count = ⟨.error fault, next, top.log ++ events⟩ := by
  obtain ⟨left, hleft⟩ := exists_left hlt
  cases turn_of_round hlt h with
  | unread hread =>
    rw [rest, hleft, fillLeft_succ, bind_of_error (decodeSlot_of_error kept.settled hread)]
    rfl
  | wideAtEnd hread hwide hend =>
    obtain rfl : left = 0 := by omega
    rw [rest, hleft, fillLeft_succ, bind_of_ok (decodeSlot_of_ok kept.settled hread), fillLeft_zero,
      if_pos (by rwa [endsWide_push]), Array.size_push, kept.size_eq]
    simp [fail, Outcome.after]

/-! ## Every round -/

theorem kept_start : Kept count c 0 (.start c) where
  size_eq := rfl
  settled := rfl
  rounds_lt := Nat.one_pos
  index_le := Nat.le_max_right ..
  rest_eq := rfl

theorem Kept.again (kept : Kept count c n top) (hlt : top.index < count)
    (h : top.round count = ⟨.ok (some (index, slots)), next, events⟩) :
    Kept count c (n + 1) ⟨index, slots, next, top.log ++ events⟩ := by
  have hrest := (kept.rest_of_ok hlt h).symm.trans kept.rest_eq
  obtain ⟨hsize, -, hrounds, -, -⟩ := kept
  have hbelow := UInt16.lt_iff_toNat_lt.mp hlt
  cases turn_of_round hlt h with
  | narrow hread hwide hindex =>
    refine ⟨?_, ?_, ?_, ?_, hrest⟩
    · rw [Array.size_push, hsize, hindex]
    · rwa [endsWide_push]
    · dsimp only; omega
    · dsimp only; omega
  | wide hread hwide hindex hle =>
    refine ⟨?_, ?_, ?_, ?_, hrest⟩
    · rw [Array.size_push, Array.size_push, hsize, hindex]
    · rw [endsWide_push]; rfl
    · dsimp only; omega
    · dsimp only; omega

theorem Reached.kept (h : Reached count c n top) : Kept count c n top := by
  induction h with
  | start => exact kept_start
  | again _ hlt hround ih => exact ih.again hlt hround

theorem Reached.unique {top' : Filling} (h : Reached count c n top) (h' : Reached count c n top') :
    top = top' := by
  induction h generalizing top' with
  | start =>
    cases h'
    rfl
  | again _ _ hround ih =>
    cases h' with
    | again hbefore _ hround' =>
      obtain rfl := ih hbefore
      rw [hround] at hround'
      cases hround'
      rfl

theorem Reached.index_lt {n' : Nat} {top' : Filling} (h : Reached count c n top)
    (h' : Reached count c n' top') (hlt : n < n') : top.index < top'.index := by
  induction h' with
  | start => exact absurd hlt (Nat.not_lt_zero n)
  | again hbefore hbelow hround ih =>
    have hnext := index_lt_of_round hbelow hround
    rcases Nat.lt_succ_iff_lt_or_eq.mp hlt with hn | rfl
    · exact UInt16.lt_trans (ih hn) hnext
    · rwa [h.unique hbefore]

/-- The loop ends, because the index moves on to the count. -/
theorem Reached.exists_end (h : Reached count c n top) : ∃ m last, Reached count c m last ∧
    (count ≤ last.index ∨ last.index < count ∧
      ∃ fault next events, last.round count = ⟨.error fault, next, events⟩) := by
  induction hleft : count.toNat - top.index.toNat using Nat.strongRecOn generalizing n top with
  | ind left ih =>
    rcases UInt16.lt_or_le top.index count with hlt | hle
    · rcases hround : top.round count with ⟨fault | _ | ⟨index, slots⟩, next, events⟩
      · exact ⟨n, top, h, .inr ⟨hlt, fault, next, events, hround⟩⟩
      · exact absurd hround (round_ne_none hlt)
      · have hbelow := UInt16.lt_iff_toNat_lt.mp hlt
        have hnext := UInt16.lt_iff_toNat_lt.mp (index_lt_of_round hlt hround)
        exact ih _ (by dsimp only; omega) (h.again hlt hround) rfl
    · exact ⟨n, top, h, .inl hle⟩

/-! ## The loop and the decoder -/

theorem Reached.decodeSlots_eq (h : Reached count start n top)
    (hcount : u16 c = ⟨.ok count, start, []⟩) : decodeSlots c = top.rest count := by
  rw [ConstantPool.decodeSlots_eq, bind_of_ok hcount, h.kept.rest_eq]
  rfl

theorem Reached.decode_of_le (h : Reached count start n top)
    (hcount : u16 c = ⟨.ok count, start, []⟩) (hle : count ≤ top.index) :
    decode c = ⟨(ConstantPool.mk top.slots).checkReferences.map fun _ => ⟨top.slots⟩,
      top.cursor, top.log⟩ :=
  decode_of_decodeSlots ((h.decodeSlots_eq hcount).trans (h.kept.rest_of_le hle))

theorem Reached.decode_of_error {fault : FormatError} (h : Reached count start n top)
    (hcount : u16 c = ⟨.ok count, start, []⟩) (hlt : top.index < count)
    (hround : top.round count = ⟨.error fault, next, events⟩) :
    decode c = ⟨.error fault, next, top.log ++ events⟩ :=
  decode_of_decodeSlots_error ((h.decodeSlots_eq hcount).trans (h.kept.rest_of_error hlt hround))

/-- Reading the pool ends where the loop does. -/
theorem exists_endsIn (hcount : u16 c = ⟨.ok count, start, []⟩) :
    ∃ n top, Reached count start n top ∧ EndsIn count top (decode c) := by
  have hstart : Reached count start 0 (.start start) := .start
  obtain ⟨n, last, hlast, hle | ⟨hlt, fault, next, events, hround⟩⟩ := hstart.exists_end
  · refine ⟨n, last, hlast, ?_⟩
    rw [hlast.decode_of_le hcount hle]
    exact .filled hle
  · refine ⟨n, last, hlast, ?_⟩
    rw [hlast.decode_of_error hcount hlt hround]
    exact .failed hlt hround

/-- Behind the last round all constants are there, so only a reference can still be wrong. -/
theorem EndsIn.round_of_onStream {fault : FormatError}
    (h : EndsIn count top ⟨.error fault, next, events⟩) (hfault : fault.OnStream) :
    ∃ late, top.index < count ∧ top.round count = ⟨.error fault, next, late⟩ ∧
      events = top.log ++ late := by
  generalize houtcome : (⟨.error fault, next, events⟩ : Outcome ConstantPool) = outcome at h
  cases h with
  | filled hle =>
    obtain ⟨hresult, -, -⟩ := Outcome.mk.inj houtcome
    cases hcheck : (ConstantPool.mk top.slots).checkReferences with
    | ok =>
      rw [hcheck] at hresult
      cases hresult
    | error found =>
      rw [hcheck] at hresult
      cases hresult
      exact absurd hfault (not_onStream_of_checkReferences hcheck)
  | failed hlt hround =>
    cases houtcome
    exact ⟨_, hlt, hround, rfl⟩

end Filling

/-- Whatever stands behind the count, the index goes up to the count and no further, no sum of it
takes more than 16 bits, and there is at most one round for each slot behind the first. Where the
loop stops, the decoder stops too, with the same slots or the same fault and the same reports. It
stops for a long or double without room exactly if one is read in the last slot, and reports that
constant first. -/
theorem filled_in_bounds (count : UInt16) (position : Nat) (stream : List UInt8) :
    Filling.InBounds count ⟨position, word16 count ++ stream⟩ ⟨position + 2, stream⟩ := by
  have hcount : u16 ⟨position, word16 count ++ stream⟩ = ⟨.ok count, ⟨position + 2, stream⟩, []⟩ :=
    u16_eq_ok_iff.mpr ⟨rfl, by rw [length_word16]⟩
  refine {
    sums_fit := fun n top h hlt next events => Filling.round_ne_none hlt
    size_eq := fun n top h => h.kept.size_eq
    index_lt := fun n top n' top' h h' hlt => h.index_lt h' hlt
    index_le := fun n top h => h.kept.index_le
    rounds_le := fun n top h hlt => ?_
    ends := Filling.exists_endsIn hcount
    wide_iff := fun index next log => ⟨fun h => ?_, fun h => ?_⟩ }
  · have hrounds := h.kept.rounds_lt
    have hbelow := UInt16.lt_iff_toNat_lt.mp hlt
    omega
  · obtain ⟨n, top, htop, hends⟩ := Filling.exists_endsIn hcount
    rw [h] at hends
    obtain ⟨late, hlt, hround, rfl⟩ := hends.round_of_onStream trivial
    obtain ⟨constant, hindex, hend, hread, hwide, rfl⟩ := Filling.exists_wide_of_round hlt hround
    exact ⟨n, top, constant, htop, hindex, hend, hread, hwide, rfl⟩
  · obtain ⟨n, top, constant, htop, rfl, hend, hread, hwide, rfl⟩ := h
    exact htop.decode_of_error hcount (Filling.index_lt_count hend)
      (Filling.round_of_wide hend hread hwide)

/-- A text, and a long in the last slot. -/
example :
    let outcome := decode (.start [0, 3, 1, 0, 0, 5, 0, 0, 0, 0, 0, 0, 0, 7])
    outcome.result = .error (.wideAtEnd 2) ∧
      outcome.events = [.constantRead 1 .utf8, .constantRead 2 .long] := by decide +kernel

end ConstantPool

end Jvm
