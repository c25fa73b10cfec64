import Jvm.Machine.Locals

/-! # Writing to local variables

A successful write replaces the slots of the value, one or two from the index on, and leaves the
others (`Locals.Wrote`); it succeeds exactly if the table has these slots (`setSlot_eq_ok_iff`,
`setPair_eq_ok_iff`). -/

namespace Jvm

section

variable {α β : Type} {found : Except MachineError α} {value : β}

theorem map_eq_ok_iff {f : α → β} :
    f <$> found = .ok value ↔ ∃ inner, found = .ok inner ∧ f inner = value := by
  cases found <;> simp [Functor.map, Except.map]

theorem bind_eq_ok_iff {f : α → Except MachineError β} :
    (found >>= f) = .ok value ↔ ∃ inner, found = .ok inner ∧ f inner = .ok value := by
  cases found <;> simp [bind, Except.bind]

end

/-- The slots that a long takes. -/
def longSlots (value : Int64) : List Slot := [.ofInt (lowHalf value), .ofInt (highHalf value)]

namespace Locals

/-- From `locals` to `next` the slots from `index` on became `values`, and no others changed. -/
structure Wrote (locals : Locals) (index : Nat) (values : List Slot) (next : Locals) : Prop where
  fits : index + values.length ≤ locals.size
  size_eq : next.size = locals.size
  inside : ∀ i, i < values.length → next.slots[index + i]? = values[i]?
  outside : ∀ i, i < index ∨ index + values.length ≤ i → next.slots[i]? = locals.slots[i]?

variable {locals next other : Locals} {index : Nat} {slot first second : Slot} {values : List Slot}

theorem ext_getElem? (h : ∀ i : Nat, next.slots[i]? = other.slots[i]?) : next = other := by
  obtain ⟨slots⟩ := next
  obtain ⟨slots'⟩ := other
  exact congrArg Locals.mk (Array.ext_getElem? h)

theorem Wrote.unique (h : locals.Wrote index values next) (h' : locals.Wrote index values other) :
    next = other := by
  refine ext_getElem? fun i => ?_
  by_cases hi : index ≤ i ∧ i < index + values.length
  · obtain ⟨k, rfl⟩ := Nat.exists_eq_add_of_le hi.1
    rw [h.inside k (by omega), h'.inside k (by omega)]
  · rw [h.outside i (by omega), h'.outside i (by omega)]

theorem setSlot_eq_ok_iff :
    locals.setSlot index slot = .ok next ↔ locals.Wrote index [slot] next := by
  have hwrite (h : index < locals.slots.size) :
      locals.Wrote index [slot] ⟨locals.slots.set index slot h⟩ := by
    refine ⟨h, Array.size_set h, fun i hi => ?_, fun i hi => ?_⟩
    · obtain rfl : i = 0 := by simpa using hi
      exact Array.getElem?_set_self h
    · simp only [List.length_singleton] at hi
      exact Array.getElem?_set_ne h (by omega)
  constructor
  · intro h
    unfold setSlot at h
    split at h
    · cases h
      exact hwrite ‹_›
    · cases h
  · intro h
    have hlt : index < locals.slots.size := h.fits
    rw [setSlot, dif_pos hlt, h.unique (hwrite hlt)]

theorem setPair_eq_ok_iff :
    locals.setPair index first second = .ok next ↔ locals.Wrote index [first, second] next := by
  have hwrite (h : index + 1 < locals.slots.size) : locals.Wrote index [first, second]
      ⟨(locals.slots.setIfInBounds index first).setIfInBounds (index + 1) second⟩ := by
    refine ⟨h, by simp [size], fun i hi => ?_, fun i hi => ?_⟩
    · obtain rfl | rfl : i = 0 ∨ i = 1 := by simp at hi; omega
      · rw [Array.getElem?_setIfInBounds_ne (by omega)]
        exact Array.getElem?_setIfInBounds_self_of_lt (by omega)
      · exact Array.getElem?_setIfInBounds_self_of_lt (by simpa using h)
    · simp only [List.length_cons, List.length_nil] at hi
      rw [Array.getElem?_setIfInBounds_ne (by omega), Array.getElem?_setIfInBounds_ne (by omega)]
  constructor
  · intro h
    unfold setPair at h
    split at h
    · rename_i hlt
      cases h
      exact hwrite hlt
    · cases h
  · intro h
    have hlt : index + 1 < locals.slots.size := h.fits
    rw [setPair, if_pos hlt, h.unique (hwrite hlt)]

theorem slot_eq_ok_iff : locals.slot index = .ok slot ↔ locals.slots[index]? = some slot := by
  unfold Locals.slot
  split <;> simp_all

theorem pair_eq_ok_iff : locals.pair index = .ok (first, second) ↔
    locals.slots[index]? = some first ∧ locals.slots[index + 1]? = some second := by
  unfold pair
  split
  · rename_i h
    rw [Array.getElem?_eq_getElem (by omega), Array.getElem?_eq_getElem h]
    simp
  · rename_i h
    have hnone : locals.slots[index + 1]? = none := Array.getElem?_eq_none (by omega)
    simp [hnone]

/-- The slots of a table. -/
def cells (locals : Locals) : List Slot := locals.slots.toList

theorem mem_cells_iff : slot ∈ locals.cells ↔ ∃ i : Nat, locals.slots[i]? = some slot := by
  rw [cells, Array.mem_toList_iff, Array.mem_iff_getElem?]

/-- A slot is as before or was written. -/
theorem Wrote.mem_cells (h : locals.Wrote index values next) (hmem : slot ∈ next.cells) :
    slot ∈ locals.cells ∨ slot ∈ values := by
  obtain ⟨i, hi⟩ := mem_cells_iff.mp hmem
  by_cases hinside : index ≤ i ∧ i < index + values.length
  · obtain ⟨k, rfl⟩ := Nat.exists_eq_add_of_le hinside.1
    rw [h.inside k (by omega)] at hi
    exact .inr (List.mem_of_getElem? hi)
  · rw [h.outside i (by omega)] at hi
    exact .inl (mem_cells_iff.mpr ⟨i, hi⟩)

end Locals

end Jvm
