import Jvm.Proofs.Faults.Log

/-! # The pool that a stream of constants makes

Constants are read one after another until the announced slots are filled (`ConstantPool.Declares`),
and the pool is what they make: each constant in the next slot, and an empty slot behind a long or
double (`ConstantPool.ofConstants`). So a pool that was read is laid out as its constants follow one
another (`ConstantPool.laidOut_of_decode`). It has as many slots as announced, unless that is none
(`ConstantPool.size_of_decode`). -/

namespace Jvm

open BigEndian Decoder

/-- The slots that a constant takes: its own, and an empty one behind a long or double. -/
def Constant.slots (constant : Constant) : List (Option Constant) :=
  if constant.isWide then [some constant, none] else [some constant]

/-- The constants stand one after another, from the first place to the second. -/
inductive Constant.Stream : Cursor → List Constant → Cursor → Prop
  | nil (c : Cursor) : Stream c [] c
  | cons {c middle next : Cursor} {constant : Constant} {constants : List Constant} :
      decode c = ⟨.ok constant, middle, []⟩ → Stream middle constants next →
      Stream c (constant :: constants) next

namespace ConstantPool

/-- The pool of these constants, in their order. Slot 0 holds none. -/
def ofConstants (constants : List Constant) : ConstantPool :=
  ⟨(none :: constants.flatMap Constant.slots).toArray⟩

/-- Behind the count stand the constants, and they fill the slots that it announces. There is a
slot 0 even if none is announced. -/
structure Declares (c : Cursor) (count : UInt16) (constants : List Constant) (next : Cursor) :
    Prop where
  stream : ∃ start, u16 c = ⟨.ok count, start, []⟩ ∧ Constant.Stream start constants next
  filled : (ofConstants constants).size = max 1 count.toNat

/-- The pool is laid out as the constants follow one another. -/
structure LaidOut (constants : List Constant) (pool : ConstantPool) : Prop where
  entries_eq : pool.entries = constants.mapIdx fun k constant =>
    (1 + k + (constants.take k).countP Constant.isWide, constant)
  ascending : pool.entries.Pairwise fun one other => one.1 < other.1
  empty_iff : ∀ index < pool.size, (pool.slots[index]? = some none ↔
    index = 0 ∨ ∃ before constant, index = before + 1 ∧
      pool.slots[before]? = some (some constant) ∧ constant.isWide = true)
  last : ∀ constant, pool.slots[pool.size - 1]? = some (some constant) → constant.isWide = false
  size_eq : pool.size = 1 + constants.length + constants.countP Constant.isWide
  size_le : pool.size ≤ 65535
  get_iff : ∀ index constant, pool.get index = .ok constant ↔ (index.toNat, constant) ∈ pool.entries
  isEmpty_iff : pool.isEmpty = true ↔ pool.entries = []

variable {c next : Cursor} {count : UInt16} {constants : List Constant} {pool : ConstantPool}

/-! ## Slots and constants -/

theorem length_slots (constant : Constant) :
    constant.slots.length = 1 + if constant.isWide then 1 else 0 := by
  cases h : constant.isWide <;> simp [Constant.slots, h]

theorem length_flatMap_slots (constants : List Constant) :
    (constants.flatMap Constant.slots).length =
      constants.length + constants.countP Constant.isWide := by
  induction constants with
  | nil => rfl
  | cons constant constants ih =>
    rw [List.flatMap_cons, List.length_append, ih, length_slots, List.length_cons, List.countP_cons]
    omega

theorem size_ofConstants (constants : List Constant) :
    (ofConstants constants).size = 1 + constants.length + constants.countP Constant.isWide := by
  rw [size, ofConstants, List.size_toArray, List.length_cons, length_flatMap_slots]
  omega

theorem reduceOption_slots (constant : Constant) : constant.slots.reduceOption = [constant] := by
  cases h : constant.isWide <;> simp [Constant.slots, h]

theorem constants_ofConstants (constants : List Constant) :
    (ofConstants constants).constants = constants := by
  rw [constants_eq, ofConstants, List.toList_toArray, List.reduceOption_cons_of_none]
  induction constants with
  | nil => rfl
  | cons constant constants ih =>
    rw [List.flatMap_cons, List.reduceOption_append, ih, reduceOption_slots, List.singleton_append]

theorem entriesFrom_append (start : Nat) (front back : List (Option Constant)) :
    entriesFrom start (front ++ back) =
      entriesFrom start front ++ entriesFrom (start + front.length) back := by
  simp only [entriesFrom, List.zipIdx_append, List.filterMap_append]

theorem entriesFrom_slots (start : Nat) (constant : Constant) :
    entriesFrom start constant.slots = [(start, constant)] := by
  cases h : constant.isWide <;> simp [Constant.slots, h, entriesFrom]

/-- The entries of constants from a slot on: each wide one puts those behind it one further. -/
theorem entriesFrom_flatMap_slots (start : Nat) (constants : List Constant) :
    entriesFrom start (constants.flatMap Constant.slots) = constants.mapIdx fun k constant =>
      (start + k + (constants.take k).countP Constant.isWide, constant) := by
  induction constants generalizing start with
  | nil => rfl
  | cons constant constants ih =>
    rw [List.flatMap_cons, entriesFrom_append, entriesFrom_slots, ih, List.mapIdx_cons,
      length_slots, List.singleton_append]
    refine List.cons_eq_cons.mpr ⟨rfl, ?_⟩
    congr 1
    funext k other
    rw [List.take_succ_cons, List.countP_cons]
    refine Prod.ext ?_ rfl
    dsimp only
    omega

theorem entries_ofConstants (constants : List Constant) :
    (ofConstants constants).entries = constants.mapIdx fun k constant =>
      (1 + k + (constants.take k).countP Constant.isWide, constant) := by
  rw [entries_eq, ofConstants, List.toList_toArray, entriesFrom_cons, entriesFrom_flatMap_slots]
  rfl

theorem follow_flatMap_slots (constants : List Constant) :
    Follow false (constants.flatMap Constant.slots) := by
  induction constants with
  | nil => trivial
  | cons constant constants ih =>
    rw [List.flatMap_cons]
    cases h : constant.isWide with
    | false => simpa [Constant.slots, h, Follow] using ih
    | true => simpa [Constant.slots, h, Follow] using ih

theorem endsWide_ofConstants (constants : List Constant) :
    endsWide (ofConstants constants).slots = false := by
  rw [endsWide, ofConstants, List.back?_toArray]
  rcases List.eq_nil_or_concat constants with rfl | ⟨front, constant, rfl⟩
  · rfl
  · cases h : constant.isWide <;> simp [Constant.slots, h, List.getLast?_cons, List.getLast?_append]

theorem any_getLast?_of_cons {slot : Option Constant} {slots : List (Option Constant)}
    (h : (slot :: slots).getLast?.any isWideSlot = false) :
    slots.getLast?.any isWideSlot = false := by
  cases hslots : slots.getLast? with
  | none => rfl
  | some last => rwa [List.getLast?_cons, hslots] at h

/-- Slots that follow one another, with nothing wide in the last one, are those of their constants. -/
theorem eq_flatMap_slots (slots : List (Option Constant)) (h : Follow false slots)
    (hlast : slots.getLast?.any isWideSlot = false) :
    slots = slots.reduceOption.flatMap Constant.slots := by
  cases slots with
  | nil => rfl
  | cons slot slots =>
    cases slot with
    | none => cases h.1
    | some constant =>
      obtain ⟨-, hfollow⟩ := h
      rw [List.reduceOption_cons_of_some, List.flatMap_cons, Constant.slots]
      cases hwide : constant.isWide with
      | false =>
        rw [hwide] at hfollow
        rw [← eq_flatMap_slots slots hfollow (any_getLast?_of_cons hlast)]
        rfl
      | true =>
        -- the slot behind is there and empty, and the others follow it
        rw [hwide] at hfollow
        cases slots with
        | nil => simp [isWideSlot, hwide] at hlast
        | cons covered slots =>
          cases covered with
          | some _ => cases hfollow.1
          | none =>
            have hlast' := any_getLast?_of_cons (any_getLast?_of_cons hlast)
            rw [List.reduceOption_cons_of_none, ← eq_flatMap_slots slots hfollow.2 hlast']
            rfl

theorem eq_ofConstants_of_arranged (h : pool.Arranged) : pool = ofConstants pool.constants := by
  obtain ⟨more, hslots, -, hfollow, hlast⟩ := (arranged_iff pool).mp h
  have hconstants : pool.constants = more.reduceOption := by
    rw [constants_eq, hslots, List.reduceOption_cons_of_none]
  have hback : (none :: more).getLast?.any isWideSlot = false := by
    rw [← hslots, Array.getLast?_toList]
    exact hlast
  have hmore := eq_flatMap_slots more hfollow (any_getLast?_of_cons hback)
  rw [ofConstants, hconstants, ← hmore, ← hslots, Array.toArray_toList]

theorem arranged_ofConstants (h : (ofConstants constants).size < 2 ^ 16) :
    (ofConstants constants).Arranged := by
  refine (arranged_iff _).mpr ⟨constants.flatMap Constant.slots, List.toList_toArray, ?_,
    follow_flatMap_slots constants, endsWide_ofConstants constants⟩
  rwa [size, ofConstants, List.size_toArray, List.length_cons] at h

/-! ## Constants one after another -/

/-- The places between which constants stand, by the bytes of their layout. -/
theorem stream_iff : Constant.Stream c constants next ↔
    ∃ texts, List.Forall₂ Constant.WrittenAs texts constants ∧
      c.Passes (List.zipWith Constant.layout texts constants).flatten next := by
  induction constants generalizing c with
  | nil =>
    constructor
    · intro h
      cases h
      exact ⟨[], .nil, .refl _⟩
    · intro h
      obtain ⟨texts, hwritten, hpass⟩ := h
      cases hwritten
      rw [hpass.unique (.refl c)]
      exact .nil c
  | cons constant constants ih =>
    have hread (middle : Cursor) : Constant.decode c = ⟨.ok constant, middle, []⟩ ↔
        ∃ text, constant.WrittenAs text ∧ c.Passes (constant.layout text) middle := by
      rw [Constant.reads_decode c (Nat.lt_succ_self _)]
      constructor
      · intro h
        obtain ⟨_, ⟨text, hwritten, rfl, -⟩, hpass⟩ := h
        exact ⟨text, hwritten, hpass⟩
      · intro h
        obtain ⟨text, hwritten, hpass⟩ := h
        exact ⟨_, ⟨text, hwritten, rfl, rfl⟩, hpass⟩
    constructor
    · intro h
      cases h with
      | @cons _ middle _ _ _ hfirst hothers =>
        obtain ⟨text, htext, hpass⟩ := (hread middle).mp hfirst
        obtain ⟨texts, hwritten, hpass'⟩ := ih.mp hothers
        exact ⟨text :: texts, .cons htext hwritten, hpass.trans hpass'⟩
    · intro h
      obtain ⟨_, hwritten, hpass⟩ := h
      cases hwritten with
      | @cons text _ texts _ htext hothers =>
        obtain ⟨middle, hfirst, hpass'⟩ := Cursor.Passes.split hpass
        exact .cons ((hread middle).mpr ⟨text, htext, hfirst⟩) (ih.mpr ⟨texts, hothers, hpass'⟩)

/-- Filling the slots succeeds exactly on constants that are declared, with the pool they make. -/
theorem decodeSlots_eq_ok_iff {events : List Event} :
    decodeSlots c = ⟨.ok pool, next, events⟩ ↔ ∃ count constants,
      Declares c count constants next ∧ pool = ofConstants constants ∧ events = pool.reports := by
  rw [reads_decodeSlots c (Nat.lt_succ_self _)]
  constructor
  · intro h
    obtain ⟨_, ⟨harranged, count, texts, ⟨hcount, hwritten⟩, rfl, rfl⟩, hpass⟩ := h
    obtain ⟨start, hstart, hconstants⟩ := Cursor.Passes.split hpass
    have hpool := eq_ofConstants_of_arranged harranged
    have hsize := harranged.size_pos
    refine ⟨count, pool.constants, ⟨⟨start, u16_eq_ok_iff.mpr hstart,
      stream_iff.mpr ⟨texts, hwritten, hconstants⟩⟩, ?_⟩, hpool, rfl⟩
    rw [← hpool]
    rcases hcount with hcount | ⟨rfl, hone⟩
    · omega
    · exact hone
  · intro h
    obtain ⟨count, constants, ⟨⟨start, hstart, hconstants⟩, hfilled⟩, rfl, rfl⟩ := h
    obtain ⟨texts, hwritten, hpass⟩ := stream_iff.mp hconstants
    have hcount : count.toNat < 2 ^ 16 := count.toNat_lt
    refine ⟨_, ⟨arranged_ofConstants (by omega), count, texts, ⟨?_, ?_⟩, rfl, rfl⟩, ?_⟩
    · by_cases hzero : count = 0
      · subst hzero
        exact .inr ⟨rfl, hfilled⟩
      · have hpos : count.toNat ≠ 0 := fun h => hzero (UInt16.toNat_inj.mp h)
        exact .inl (by omega)
    · rwa [constants_ofConstants]
    · rw [layout, constants_ofConstants]
      exact (u16_eq_ok_iff.mp hstart).trans hpass

/-- Filled slots are a pool if its references lead to constants, and nothing more is read. -/
theorem decode_of_decodeSlots {events : List Event} (h : decodeSlots c = ⟨.ok pool, next, events⟩) :
    decode c = ⟨pool.checkReferences.map fun _ => pool, next, events⟩ := by
  rw [decode_eq, bind_of_ok h]
  cases hcheck : pool.checkReferences with
  | error fault =>
    rw [bind_of_error (show ofExcept (.error fault : Except FormatError Unit) next =
      ⟨.error fault, next, []⟩ from rfl)]
    simp [Outcome.after, Except.map]
  | ok =>
    rw [bind_of_ok (show ofExcept (.ok () : Except FormatError Unit) next =
      ⟨.ok (), next, []⟩ from rfl)]
    simp [Outcome.after, Except.map, pure_apply]

theorem decode_of_decodeSlots_error {fault : FormatError} {events : List Event}
    (h : decodeSlots c = ⟨.error fault, next, events⟩) : decode c = ⟨.error fault, next, events⟩ := by
  rw [decode_eq, bind_of_error h]

/-- A pool that is read is made of the constants that stand behind its count. -/
theorem declares_of_decode (h : (decode c).result = .ok pool) :
    ∃ count constants, Declares c count constants (decode c).cursor ∧
      pool = ofConstants constants := by
  rcases hslots : decodeSlots c with ⟨fault | filled, next, events⟩
  · rw [decode_of_decodeSlots_error hslots] at h
    cases h
  · rw [decode_of_decodeSlots hslots] at h ⊢
    obtain ⟨count, constants, hdeclares, hfilled, -⟩ := decodeSlots_eq_ok_iff.mp hslots
    cases hcheck : filled.checkReferences with
    | error fault =>
      rw [hcheck] at h
      cases h
    | ok =>
      rw [hcheck] at h
      cases h
      exact ⟨count, constants, hdeclares, hfilled⟩

/-! ## The layout of the slots -/

theorem Declares.size_lt (h : Declares c count constants next) :
    (ofConstants constants).size < 2 ^ 16 := by
  have hfilled := h.filled
  have hcount : count.toNat < 2 ^ 16 := count.toNat_lt
  omega

theorem laidOut_ofConstants (h : (ofConstants constants).size < 2 ^ 16) :
    LaidOut constants (ofConstants constants) := by
  have harranged := arranged_ofConstants h
  refine {
    entries_eq := entries_ofConstants constants
    ascending := pairwise_entries _
    empty_iff := fun index hindex => ?_
    last := harranged.last
    size_eq := size_ofConstants constants
    size_le := Nat.le_of_lt_succ h
    get_iff := fun index constant => by rw [get_eq_ok_iff, mem_entries_iff]
    isEmpty_iff := ?_ }
  · cases index with
    | zero => simp [harranged.first]
    | succ index => rw [harranged.behind index hindex]; simp
  · rw [isEmpty, decide_eq_true_eq, size_ofConstants, entries_ofConstants, List.mapIdx_eq_nil_iff]
    constructor
    · intro hsize
      exact List.length_eq_zero_iff.mp (by omega)
    · intro hnil
      rw [hnil]
      exact Nat.le_refl 1

/-- The entries of a pool that was read are the constants that stand one after another behind its
count, up to the place where reading ended. The constant read after `k` others has the index `1 + k`,
and one more for each long or double among those. The empty slots are slot 0 and those behind a long
or double, of which the last slot holds none. -/
theorem laidOut_of_decode (h : (decode c).result = .ok pool) :
    ∃ count constants, Declares c count constants (decode c).cursor ∧ LaidOut constants pool := by
  obtain ⟨count, constants, hdeclares, rfl⟩ := declares_of_decode h
  exact ⟨count, constants, hdeclares, laidOut_ofConstants hdeclares.size_lt⟩

/-- A text between two wide constants. -/
theorem laidOut_of_decode_textBetween :
    let c : Cursor := .start [0, 6, 5, 0, 0, 0, 0, 0, 0, 0, 7, 1, 0, 1, 0x78, 6, 0, 0, 0, 0, 0, 0, 0, 0]
    let pool := ofConstants [.long 7, .utf8 "x", .double ⟨0⟩]
    (decode c).result = .ok pool ∧
      ∃ count constants, Declares c count constants (decode c).cursor ∧ LaidOut constants pool := by
  intro c pool
  have hread : (decode c).result = .ok pool := by decide +kernel
  exact ⟨hread, laidOut_of_decode hread⟩

/-! ## The number of slots -/

/-- A pool that was read has as many slots as the two bytes in front announce, whatever constants
follow, unless they announce none. Then nothing else is read, and there is one slot. -/
theorem size_of_decode (h : (decode c).result = .ok pool) : ∃ count : UInt16,
    word16 count <+: c.rest ∧ (pool.size = count.toNat ↔ count ≠ 0) ∧
      (count = 0 → pool = ⟨#[none]⟩ ∧ (decode c).cursor.position = c.position + 2) := by
  obtain ⟨count, constants, ⟨⟨start, hcount, hstream⟩, hfilled⟩, rfl⟩ := declares_of_decode h
  have hpass := u16_eq_ok_iff.mp hcount
  have hzero : count ≠ 0 ↔ count.toNat ≠ 0 := not_congr UInt16.toNat_inj.symm
  refine ⟨count, ⟨start.rest, hpass.rest_eq.symm⟩, ?_, ?_⟩
  · rw [hzero]
    omega
  · rintro rfl
    have hone : 1 + constants.length + constants.countP Constant.isWide = 1 :=
      (size_ofConstants constants).symm.trans hfilled
    obtain rfl : constants = [] := List.length_eq_zero_iff.mp (by omega)
    cases hstream
    exact ⟨rfl, hpass.position_eq⟩

/-- A long and what it covers are two of the three slots. -/
theorem size_of_decode_longAlone :
    let c : Cursor := .start [0, 3, 5, 0, 0, 0, 0, 0, 0, 0, 1]
    let pool : ConstantPool := ⟨#[none, some (.long 1), none]⟩
    (decode c).result = .ok pool ∧ ∃ count : UInt16,
      word16 count <+: c.rest ∧ (pool.size = count.toNat ↔ count ≠ 0) ∧
        (count = 0 → pool = ⟨#[none]⟩ ∧ (decode c).cursor.position = c.position + 2) := by
  intro c pool
  have hread : (decode c).result = .ok pool := by decide +kernel
  exact ⟨hread, size_of_decode hread⟩

/-- A count of 0 is read, and there is a slot all the same. -/
theorem not_size_of_decode_zero :
    (decode (.start [0, 0])).result = .ok ⟨#[none]⟩ ∧ word16 0 <+: (Cursor.start [0, 0]).rest ∧
      (⟨#[none]⟩ : ConstantPool).size ≠ (0 : UInt16).toNat := by
  refine ⟨by decide +kernel, by decide, by decide⟩

end ConstantPool

end Jvm
