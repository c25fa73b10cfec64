import Mathlib.Data.List.Forall2
import Mathlib.Data.List.ReduceOption
import Jvm.Pool.PoolDecoder
import Jvm.Proofs.Layout.Constant

/-! # The layout of the constant pool

A count of slots and then the constants, from one slot to the next; the slot behind a long or a
double takes no bytes. `reads_decodeSlots` says that filling the slots accepts just these layouts,
and `decode_eq` that a pool is its slots once their references are checked. -/

namespace Jvm.ConstantPool

open BigEndian Decoder

/-- The constants, by ascending index. -/
def constants (pool : ConstantPool) : List Constant := pool.entries.map Prod.snd

/-- The pool as bytes: `count` announces the slots, and each text is written as one of `texts`. -/
def layout (count : UInt16) (texts : List (List UInt8)) (pool : ConstantPool) : List UInt8 :=
  word16 count ++ (List.zipWith Constant.layout texts pool.constants).flatten

/-- The count and the texts are the pool's. No slots at all may be announced for the one slot that
every pool has. -/
structure WrittenAs (count : UInt16) (texts : List (List UInt8)) (pool : ConstantPool) : Prop where
  count_eq : count.toNat = pool.size ∨ count = 0 ∧ pool.size = 1
  texts_written : List.Forall₂ Constant.WrittenAs texts pool.constants

/-- Which slots are empty: the first, and each one behind a long or double, of which the last slot
holds none. -/
structure Arranged (pool : ConstantPool) : Prop where
  size_pos : 0 < pool.size
  size_lt : pool.size < 2 ^ 16
  first : pool.slots[0]? = some none
  behind : ∀ index, index + 1 < pool.size → (pool.slots[index + 1]? = some none ↔
    ∃ constant, pool.slots[index]? = some (some constant) ∧ constant.isWide = true)
  last : ∀ constant, pool.slots[pool.size - 1]? = some (some constant) → constant.isWide = false

/-- Every index that a constant holds leads to a constant. -/
def Closed (pool : ConstantPool) : Prop :=
  ∀ constant ∈ pool.constants, ∀ index ∈ constant.references,
    ∃ target, pool.slots[index.toNat]? = some (some target)

/-! ## Slots one after another -/

/-- The slot is filled by a long or double. -/
def isWideSlot (slot : Option Constant) : Bool := slot.any Constant.isWide

/-- Slots that stand behind one that is filled by a long or double, or is not. -/
def Follow : Bool → List (Option Constant) → Prop
  | _, [] => True
  | wide, none :: slots => wide = true ∧ Follow false slots
  | wide, some constant :: slots => wide = false ∧ Follow constant.isWide slots

/-- The reports on the constants among slots that start at `index`. -/
def slotReports (index : Nat) (slots : List (Option Constant)) : List Event :=
  (slots.zipIdx index).filterMap fun (slot, index) =>
    slot.map fun constant => .constantRead index constant.tag

@[simp] theorem endsWide_push (slots : Array (Option Constant)) (slot : Option Constant) :
    endsWide (slots.push slot) = isWideSlot slot := by
  simp [endsWide, isWideSlot]

theorem constants_eq (pool : ConstantPool) : pool.constants = pool.slots.toList.reduceOption := by
  suffices h : ∀ (slots : List (Option Constant)) (start : Nat),
      ((slots.zipIdx start).filterMap fun (slot, index) => slot.map (index, ·)).map Prod.snd =
        slots.reduceOption from h pool.slots.toList 0
  intro slots
  induction slots with
  | nil => intro start; rfl
  | cons slot slots ih =>
    intro start
    cases slot with
    | none => simpa [List.zipIdx_cons] using ih (start + 1)
    | some constant => simpa [List.zipIdx_cons] using ih (start + 1)

theorem slotReports_zero (pool : ConstantPool) : slotReports 0 pool.slots.toList =
    pool.entries.map fun (index, constant) => .constantRead index constant.tag := by
  simp only [slotReports, entries, List.map_filterMap, Option.map_map]
  rfl

/-- Slots from `start` on, the first of which stands behind a long or double or does not. -/
def slotsGrammar (wide : Bool) (start : Nat) : Grammar (List (Option Constant)) :=
  fun slots taken events => Follow wide slots ∧ ∃ texts : List (List UInt8),
    List.Forall₂ Constant.WrittenAs texts slots.reduceOption ∧
      taken = (List.zipWith Constant.layout texts slots.reduceOption).flatten ∧
      events = slotReports start slots

variable {bound : Nat} {wide : Bool} {start : Nat} {taken : List UInt8} {events : List Event}

theorem slotsGrammar_nil : slotsGrammar wide start [] taken events ↔ taken = [] ∧ events = [] := by
  refine ⟨fun h => ?_, fun h => ?_⟩
  · obtain ⟨-, texts, hwritten, rfl, rfl⟩ := h
    cases hwritten
    exact ⟨rfl, rfl⟩
  · obtain ⟨rfl, rfl⟩ := h
    exact ⟨trivial, [], .nil, rfl, rfl⟩

theorem slotsGrammar_none {slots : List (Option Constant)} :
    slotsGrammar wide start (none :: slots) taken events ↔
      wide = true ∧ slotsGrammar false (start + 1) slots taken events := by
  simp only [slotsGrammar, Follow, and_assoc, List.reduceOption_cons_of_none]
  rfl

theorem slotsGrammar_some {constant : Constant} {slots : List (Option Constant)} :
    slotsGrammar wide start (some constant :: slots) taken events ↔
      wide = false ∧ ∃ text back late, constant.WrittenAs text ∧
        slotsGrammar constant.isWide (start + 1) slots back late ∧
        taken = constant.layout text ++ back ∧
        events = .constantRead start constant.tag :: late := by
  refine ⟨fun h => ?_, fun h => ?_⟩
  · obtain ⟨⟨hwide, hfollow⟩, texts, hwritten, rfl, rfl⟩ := h
    rw [List.reduceOption_cons_of_some] at hwritten ⊢
    obtain ⟨text, others, htext, hothers, rfl⟩ := List.forall₂_cons_right_iff.mp hwritten
    exact ⟨hwide, text, _, _, htext, ⟨hfollow, others, hothers, rfl, rfl⟩, rfl, rfl⟩
  · obtain ⟨hwide, text, _, _, htext, ⟨hfollow, others, hothers, rfl, rfl⟩, rfl, rfl⟩ := h
    exact ⟨⟨hwide, hfollow⟩, text :: others, .cons htext hothers, rfl, rfl⟩

/-- The slots behind the first one stand behind what it holds. -/
theorem slotsGrammar_cons {slot : Option Constant} {slots : List (Option Constant)} :
    slotsGrammar wide start (slot :: slots) taken events ↔ ∃ front back early late,
      slotsGrammar wide start [slot] front early ∧
        slotsGrammar (isWideSlot slot) (start + 1) slots back late ∧
        taken = front ++ back ∧ events = early ++ late := by
  cases slot with
  | none =>
    rw [slotsGrammar_none]
    refine ⟨fun h => ?_, fun h => ?_⟩
    · obtain ⟨hwide, hslots⟩ := h
      exact ⟨[], taken, [], events,
        slotsGrammar_none.mpr ⟨hwide, slotsGrammar_nil.mpr ⟨rfl, rfl⟩⟩, hslots, rfl, rfl⟩
    · obtain ⟨_, back, _, late, hslot, hslots, rfl, rfl⟩ := h
      obtain ⟨hwide, hnil⟩ := slotsGrammar_none.mp hslot
      obtain ⟨rfl, rfl⟩ := slotsGrammar_nil.mp hnil
      exact ⟨hwide, hslots⟩
  | some constant =>
    rw [slotsGrammar_some]
    refine ⟨fun h => ?_, fun h => ?_⟩
    · obtain ⟨hwide, text, back, late, htext, hslots, rfl, rfl⟩ := h
      exact ⟨constant.layout text, back, [.constantRead start constant.tag], late,
        slotsGrammar_some.mpr ⟨hwide, text, [], [], htext, slotsGrammar_nil.mpr ⟨rfl, rfl⟩,
          by rw [List.append_nil], rfl⟩, hslots, rfl, rfl⟩
    · obtain ⟨_, back, _, late, hslot, hslots, rfl, rfl⟩ := h
      obtain ⟨hwide, text, _, _, htext, hnil, rfl, rfl⟩ := slotsGrammar_some.mp hslot
      obtain ⟨rfl, rfl⟩ := slotsGrammar_nil.mp hnil
      exact ⟨hwide, text, back, late, htext, hslots, by rw [List.append_nil], rfl⟩

/-- Filling a slot leaves it empty behind a long or double and reads a constant otherwise. -/
theorem reads_decodeSlot (slots : Array (Option Constant)) :
    Reads bound (decodeSlot slots) fun filled taken events => ∃ slot,
      filled = slots.push slot ∧ slotsGrammar (endsWide slots) slots.size [slot] taken events := by
  unfold decodeSlot
  by_cases hwide : endsWide slots = true
  · rw [if_pos hwide, hwide]
    refine (reads_pure _).congr fun filled taken events => ⟨fun h => ?_, fun h => ?_⟩
    · obtain ⟨rfl, rfl, rfl⟩ := h
      exact ⟨none, rfl, slotsGrammar_none.mpr ⟨rfl, slotsGrammar_nil.mpr ⟨rfl, rfl⟩⟩⟩
    · obtain ⟨slot, rfl, hslot⟩ := h
      cases slot with
      | none =>
        obtain ⟨rfl, rfl⟩ := slotsGrammar_nil.mp (slotsGrammar_none.mp hslot).2
        exact ⟨rfl, rfl, rfl⟩
      | some constant => cases (slotsGrammar_some.mp hslot).1
  · rw [if_neg hwide, eq_false_of_ne_true hwide]
    refine (Constant.reads_decode.bind fun constant =>
      (reads_report (.constantRead slots.size constant.tag)).bind fun _ =>
        reads_pure (slots.push (some constant))).congr
      fun filled taken events => ⟨fun h => ?_, fun h => ?_⟩
    · obtain ⟨constant, _, _, _, _, ⟨text, htext, rfl, rfl⟩,
        ⟨_, _, _, _, _, ⟨rfl, rfl⟩, ⟨rfl, rfl, rfl⟩, rfl, rfl⟩, rfl, rfl⟩ := h
      exact ⟨some constant, rfl, slotsGrammar_some.mpr ⟨rfl, text, [], [], htext,
        slotsGrammar_nil.mpr ⟨rfl, rfl⟩, rfl, rfl⟩⟩
    · obtain ⟨slot, rfl, hslot⟩ := h
      cases slot with
      | none => cases (slotsGrammar_none.mp hslot).1
      | some constant =>
        obtain ⟨-, text, _, _, htext, hnil, rfl, rfl⟩ := slotsGrammar_some.mp hslot
        obtain ⟨rfl, rfl⟩ := slotsGrammar_nil.mp hnil
        exact ⟨constant, _, [], [], [.constantRead slots.size constant.tag],
          ⟨text, htext, rfl, rfl⟩, ⟨(), [], [], [_], [], ⟨rfl, rfl⟩, ⟨rfl, rfl, rfl⟩, rfl, rfl⟩,
          rfl, rfl⟩

/-- The loop appends one slot a round. -/
theorem reads_rounds (count : Nat) (slots : Array (Option Constant)) :
    Reads bound (rounds decodeSlot count slots) fun filled taken events =>
      ∃ more, filled.toList = slots.toList ++ more ∧ more.length = count ∧
        slotsGrammar (endsWide slots) slots.size more taken events := by
  induction count generalizing slots with
  | zero =>
    rw [rounds_zero]
    refine (reads_pure slots).congr fun filled taken events => ⟨fun h => ?_, fun h => ?_⟩
    · obtain ⟨rfl, rfl, rfl⟩ := h
      exact ⟨[], by simp, rfl, slotsGrammar_nil.mpr ⟨rfl, rfl⟩⟩
    · obtain ⟨more, hfilled, hlength, hmore⟩ := h
      obtain rfl := List.length_eq_zero_iff.mp hlength
      obtain ⟨rfl, rfl⟩ := slotsGrammar_nil.mp hmore
      exact ⟨Array.toList_inj.mp (by simpa using hfilled), rfl, rfl⟩
  | succ count ih =>
    rw [rounds_succ]
    refine ((reads_decodeSlot slots).bind fun filled => ih filled).congr
      fun filled taken events => ⟨fun h => ?_, fun h => ?_⟩
    · obtain ⟨_, front, back, early, late, ⟨slot, rfl, hslot⟩, ⟨more, hfilled, hlength, hmore⟩,
        rfl, rfl⟩ := h
      rw [endsWide_push, Array.size_push] at hmore
      exact ⟨slot :: more, by simpa using hfilled, by simp [hlength],
        slotsGrammar_cons.mpr ⟨front, back, early, late, hslot, hmore, rfl, rfl⟩⟩
    · obtain ⟨more, hfilled, hlength, hmore⟩ := h
      cases more with
      | nil => cases hlength
      | cons slot more =>
        obtain ⟨front, back, early, late, hslot, hmore, rfl, rfl⟩ := slotsGrammar_cons.mp hmore
        refine ⟨slots.push slot, front, back, early, late, ⟨slot, rfl, hslot⟩,
          ⟨more, by simpa using hfilled, by simpa using hlength, ?_⟩, rfl, rfl⟩
        rwa [endsWide_push, Array.size_push]

/-! ## The slots of a pool -/

theorem follow_iff (slot : Option Constant) (slots : List (Option Constant)) :
    Follow (isWideSlot slot) slots ↔ ∀ index, index + 1 < (slot :: slots).length →
      ((slot :: slots)[index + 1]? = some none ↔
        ∃ constant, (slot :: slots)[index]? = some (some constant) ∧ constant.isWide = true) := by
  induction slots generalizing slot with
  | nil => exact ⟨fun _ index hindex => by simp at hindex, fun _ => trivial⟩
  | cons next slots ih =>
    have hfirst : isWideSlot slot = true ↔
        ∃ constant, slot = some constant ∧ constant.isWide = true := by
      cases slot <;> simp [isWideSlot]
    have hcons : Follow (isWideSlot slot) (next :: slots) ↔
        (next = none ↔ isWideSlot slot = true) ∧ Follow (isWideSlot next) slots := by
      cases next <;> cases isWideSlot slot <;> simp [Follow, isWideSlot]
    rw [hcons, hfirst, ih next]
    refine ⟨fun h index hindex => ?_, fun h => ⟨?_, fun index hindex => ?_⟩⟩
    · cases index with
      | zero => simpa using h.1
      | succ index => exact h.2 index (by simpa using hindex)
    · simpa using h 0 (by simp)
    · exact h (index + 1) (by simpa using hindex)

theorem endsWide_eq_false_iff (slots : Array (Option Constant)) : endsWide slots = false ↔
    ∀ constant, slots[slots.size - 1]? = some (some constant) → constant.isWide = false := by
  rw [endsWide, Array.back?]
  cases slots[slots.size - 1]? with
  | none => simp
  | some slot => cases slot <;> simp

theorem arranged_iff (pool : ConstantPool) : pool.Arranged ↔
    ∃ more, pool.slots.toList = none :: more ∧ more.length + 1 < 2 ^ 16 ∧ Follow false more ∧
      endsWide pool.slots = false := by
  obtain ⟨⟨slots⟩⟩ := pool
  refine ⟨fun h => ?_, fun h => ?_⟩
  · cases slots with
    | nil => cases h.first
    | cons slot more =>
      have hslot : slot = none := by simpa using h.first
      subst hslot
      exact ⟨more, rfl, by simpa [size] using h.size_lt,
        (follow_iff none more).mpr (by simpa [size] using h.behind),
        (endsWide_eq_false_iff _).mpr h.last⟩
  · obtain ⟨more, rfl, hlength, hfollow, hlast⟩ := h
    exact ⟨by simp [size], by simpa [size] using hlength, rfl,
      by simpa [size] using (follow_iff none more).mp hfollow, (endsWide_eq_false_iff _).mp hlast⟩

/-- The count and the slots, references not yet checked. -/
def decodeSlots : Decoder ConstantPool := do
  let count ← u16
  let slots ← rounds decodeSlot (count.toNat - 1) #[none]
  if endsWide slots then fail (.wideAtEnd (slots.size - 1)) else return ⟨slots⟩

theorem decode_eq : decode = do
    let pool ← decodeSlots
    ofExcept pool.checkReferences
    return pool := by
  unfold decode decodeSlots
  simp only [bind_assoc]
  refine congrArg _ (funext fun count => congrArg _ (funext fun slots => ?_))
  split
  · rfl
  · simp only [pure_bind]

/-- The reports of reading the pool, one for each constant. -/
def reports (pool : ConstantPool) : List Event :=
  pool.entries.map fun (index, constant) => .constantRead index constant.tag

/-- Filling the slots accepts the layouts of pools whose slots are arranged as they should be. -/
theorem reads_decodeSlots : Reads bound decodeSlots fun pool taken events =>
    pool.Arranged ∧ ∃ count texts, pool.WrittenAs count texts ∧
      taken = pool.layout count texts ∧ events = pool.reports := by
  have hend (slots : Array (Option Constant)) :
      Reads bound (if endsWide slots then fail (.wideAtEnd (slots.size - 1))
        else return (⟨slots⟩ : ConstantPool)) fun pool taken events =>
      endsWide slots = false ∧ pool = ⟨slots⟩ ∧ taken = [] ∧ events = [] := by
    cases endsWide slots with
    | true => exact (reads_fail _).congr (by simp)
    | false => exact (reads_pure _).congr (by simp)
  refine (reads_u16.bind_spelled fun count => (reads_rounds (count.toNat - 1) #[none]).bind
    hend).congr fun pool taken events => ⟨fun h => ?_, fun h => ?_⟩
  · obtain ⟨count, _, ⟨slots, _, _, _, _, ⟨more, hslots, hlength, hfollow, texts, hwritten, rfl,
      rfl⟩, ⟨hlast, rfl, rfl, rfl⟩, rfl, rfl⟩, rfl⟩ := h
    have hcount := count.toNat_lt
    have hconstants : (⟨slots⟩ : ConstantPool).constants = more.reduceOption := by
      rw [constants_eq, hslots]; rfl
    have hsize : slots.size = more.length + 1 := by
      rw [← Array.length_toList, hslots]; simp
    refine ⟨(arranged_iff _).mpr ⟨more, by simpa using hslots, by omega, hfollow, hlast⟩, count,
      texts, ⟨?_, hconstants ▸ hwritten⟩, ?_, ?_⟩
    · by_cases hzero : count = 0
      · subst hzero
        exact .inr ⟨rfl, by simpa [size, hsize] using hlength⟩
      · have hpos : count.toNat ≠ 0 := fun h => hzero (UInt16.toNat_inj.mp h)
        exact .inl (by simp only [size, hsize]; omega)
    · rw [layout, hconstants, List.append_nil]
    · rw [reports, ← slotReports_zero, hslots, List.append_nil]; rfl
  · obtain ⟨harranged, count, texts, ⟨hcount, hwritten⟩, rfl, rfl⟩ := h
    obtain ⟨more, hslots, hlength, hfollow, hlast⟩ := (arranged_iff pool).mp harranged
    have hconstants : pool.constants = more.reduceOption := by rw [constants_eq, hslots]; rfl
    have hsize : pool.size = more.length + 1 := by
      rw [size, ← Array.length_toList, hslots]; simp
    rw [hconstants] at hwritten
    refine ⟨count, _, ⟨pool.slots, _, [], _, [], ⟨more, by simpa using hslots, ?_, hfollow, texts,
      hwritten, rfl, rfl⟩, ⟨hlast, rfl, rfl, rfl⟩, rfl, ?_⟩, ?_⟩
    · rcases hcount with hcount | ⟨rfl, hone⟩
      · omega
      · have hzero : (0 : UInt16).toNat = 0 := rfl
        omega
    · rw [reports, ← slotReports_zero, hslots, List.append_nil]; rfl
    · rw [layout, hconstants, List.append_nil]

/-! ## References -/

theorem get_eq_ok_iff {pool : ConstantPool} {index : UInt16} {constant : Constant} :
    pool.get index = .ok constant ↔ pool.slots[index.toNat]? = some (some constant) := by
  unfold get
  split <;> simp_all

theorem get_eq_error_iff {pool : ConstantPool} {index : UInt16} {fault : FormatError} :
    pool.get index = .error fault ↔
      fault = .indexOutOfRange index pool.size ∧ pool.size ≤ index.toNat ∨
        fault = .unusableIndex index ∧ pool.slots[index.toNat]? = some none := by
  have hnone : pool.slots[index.toNat]? = none ↔ pool.size ≤ index.toNat :=
    Array.getElem?_eq_none_iff
  rw [← hnone]
  unfold get
  cases pool.slots[index.toNat]? with
  | none => simp [eq_comm]
  | some slot => cases slot <;> simp [eq_comm]

theorem forM_eq_ok_iff {α : Type} {check : α → Except FormatError Unit} {items : List α} :
    items.forM check = .ok () ↔ ∀ item ∈ items, check item = .ok () := by
  induction items with
  | nil => exact ⟨fun _ _ h => (nomatch h), fun _ => rfl⟩
  | cons item items ih =>
    change (check item >>= fun _ => items.forM check) = .ok () ↔ _
    rw [List.forall_mem_cons, ← ih]
    cases check item with
    | error fault => exact ⟨fun h => (nomatch h), fun h => (nomatch h.1)⟩
    | ok => exact ⟨fun h => ⟨rfl, h⟩, fun h => h.2⟩

/-- A check of items in a row fails as the first of them that fails. -/
theorem forM_eq_error_iff {α : Type} {check : α → Except FormatError Unit} {items : List α}
    {fault : FormatError} : items.forM check = .error fault ↔
      ∃ before item after, items = before ++ item :: after ∧
        (∀ other ∈ before, check other = .ok ()) ∧ check item = .error fault := by
  induction items with
  | nil =>
    refine ⟨fun h => (nomatch h), fun h => ?_⟩
    obtain ⟨before, item, after, hitems, -⟩ := h
    simp at hitems
  | cons first items ih =>
    change (check first >>= fun _ => items.forM check) = .error fault ↔ _
    cases hfirst : check first with
    | error found =>
      constructor
      · intro h
        cases h
        exact ⟨[], first, items, rfl, fun _ hmem => (nomatch hmem), hfirst⟩
      · intro h
        obtain ⟨before, item, after, hitems, hbefore, hitem⟩ := h
        cases before with
        | nil =>
          obtain ⟨rfl, rfl⟩ := List.cons_eq_cons.mp hitems
          exact hfirst.symm.trans hitem
        | cons other before =>
          obtain ⟨rfl, rfl⟩ := List.cons_eq_cons.mp hitems
          rw [hbefore first List.mem_cons_self] at hfirst
          cases hfirst
    | ok =>
      change items.forM check = .error fault ↔ _
      rw [ih]
      constructor
      · intro h
        obtain ⟨before, item, after, rfl, hbefore, hitem⟩ := h
        exact ⟨first :: before, item, after, rfl, List.forall_mem_cons.mpr ⟨hfirst, hbefore⟩, hitem⟩
      · intro h
        obtain ⟨before, item, after, hitems, hbefore, hitem⟩ := h
        cases before with
        | nil =>
          obtain ⟨rfl, rfl⟩ := List.cons_eq_cons.mp hitems
          rw [hfirst] at hitem
          cases hitem
        | cons other before =>
          obtain ⟨rfl, rfl⟩ := List.cons_eq_cons.mp hitems
          exact ⟨before, item, after, rfl, (List.forall_mem_cons.mp hbefore).2, hitem⟩

theorem mem_references_iff {pool : ConstantPool} {index : UInt16} :
    index ∈ (pool.entries.flatMap fun (_, constant) => constant.references) ↔
      ∃ constant ∈ pool.constants, index ∈ constant.references := by
  simp only [constants, List.mem_flatMap, List.mem_map]
  refine ⟨fun h => ?_, fun h => ?_⟩
  · obtain ⟨entry, hmem, hindex⟩ := h
    exact ⟨entry.2, ⟨entry, hmem, rfl⟩, hindex⟩
  · obtain ⟨_, ⟨entry, hmem, rfl⟩, hindex⟩ := h
    exact ⟨entry, hmem, hindex⟩

theorem discard_eq_ok_iff {α : Type} {found : Except FormatError α} :
    discard found = .ok () ↔ ∃ value, found = .ok value := by
  cases found with
  | error fault => exact ⟨fun h => (nomatch h), fun h => (nomatch h.choose_spec)⟩
  | ok value => exact ⟨fun _ => ⟨value, rfl⟩, fun _ => rfl⟩

theorem checkReferences_eq_ok_iff {pool : ConstantPool} :
    pool.checkReferences = .ok () ↔ pool.Closed := by
  unfold checkReferences Closed
  rw [forM_eq_ok_iff]
  simp only [mem_references_iff, discard_eq_ok_iff, get_eq_ok_iff]
  exact ⟨fun h constant hmem index hindex => h index ⟨constant, hmem, hindex⟩,
    fun h index hindex => by
      obtain ⟨constant, hmem, hindex⟩ := hindex
      exact h constant hmem index hindex⟩

/-- A failed check is a failed lookup. -/
theorem get_of_checkReferences_eq_error {pool : ConstantPool} {fault : FormatError}
    (h : pool.checkReferences = .error fault) : ∃ index, pool.get index = .error fault := by
  obtain ⟨_, index, _, -, -, hindex⟩ := forM_eq_error_iff.mp h
  cases hget : pool.get index with
  | ok constant => rw [hget] at hindex; cases hindex
  | error found =>
    rw [hget] at hindex
    cases hindex
    exact ⟨index, hget⟩

/-- The pools that are read are those whose slots are arranged and whose references all lead to a
constant, as any of their layouts. -/
theorem reads_decode : Reads bound decode fun pool taken events =>
    pool.Arranged ∧ pool.Closed ∧ ∃ count texts, pool.WrittenAs count texts ∧
      taken = pool.layout count texts ∧ events = pool.reports := by
  rw [decode_eq]
  refine (reads_decodeSlots.bind fun pool => (reads_ofExcept pool.checkReferences).bind fun _ =>
    reads_pure pool).congr fun pool taken events => ⟨fun h => ?_, fun h => ?_⟩
  · obtain ⟨_, _, _, _, _, ⟨harranged, count, texts, hwritten, rfl, rfl⟩,
      ⟨_, _, _, _, _, ⟨hcheck, rfl, rfl⟩, ⟨rfl, rfl, rfl⟩, rfl, rfl⟩, rfl, rfl⟩ := h
    exact ⟨harranged, checkReferences_eq_ok_iff.mp hcheck, count, texts, hwritten, by simp, by simp⟩
  · obtain ⟨harranged, hclosed, count, texts, hwritten, rfl, rfl⟩ := h
    exact ⟨pool, _, [], _, [], ⟨harranged, count, texts, hwritten, rfl, rfl⟩,
      ⟨(), [], [], [], [], ⟨checkReferences_eq_ok_iff.mpr hclosed, rfl, rfl⟩, ⟨rfl, rfl, rfl⟩,
        rfl, rfl⟩, by simp, by simp⟩

end Jvm.ConstantPool
