import Jvm.Proofs.Machine.Arguments
import Jvm.Proofs.Machine.LocalCells
import Jvm.Proofs.Machine.SlotFlow

/-! # Local variables keep what was written last

A step on local variables succeeds exactly if the table has all the slots that the step is about,
and a write changes those and no others (`LocalsStep.next_eq_or_wrote`). So a slot stays as it is
until it is written again (`LocalsStep.slots_stateAt`), however the slots of longs and doubles lie
over those of others, and what was written is read back until then. In the cells that the table lies
in, no index runs over and no cell is changed by a step that fails (`LocalsStep.run_ofSize`). -/

namespace Jvm

namespace Locals

variable {locals : Locals} {index : Nat}

/-- Reading writes nothing. -/
theorem wrote_nil (h : index ≤ locals.size) : locals.Wrote index [] locals := by
  refine ⟨h, rfl, fun i hi => ?_, fun i _ => rfl⟩
  simp at hi

end Locals

namespace LocalsStep

/-- The first slot that a step reads or writes. -/
def index? : LocalsStep → Option Nat
  | size | isEmpty => none
  | slot index | int index | float index | long index | double index | reference index => some index
  | setSlot index _ | setInt index _ | setFloat index _ | setLong index _ | setDouble index _
  | setReference index _ => some index

/-- How many slots from there on it reads or writes. -/
def width : LocalsStep → Nat
  | size | isEmpty => 0
  | slot _ | int _ | float _ | reference _ => 1
  | setSlot _ _ | setInt _ _ | setFloat _ _ | setReference _ _ => 1
  | long _ | double _ | setLong _ _ | setDouble _ _ => 2

/-- A step is about the slot. -/
def Covers (step : LocalsStep) (i : Nat) : Prop :=
  ∃ index, step.index? = some index ∧ index ≤ i ∧ i < index + step.width

/-- A step writes the slot, if it succeeds. -/
def Writes (step : LocalsStep) (i : Nat) : Prop :=
  ∃ index, step.index? = some index ∧ index ≤ i ∧ i < index + step.values.length

/-- The step that reads where a step writes, and reads the kind that it writes, with the answer that
shows the value written. -/
def readBack? : LocalsStep → Option (LocalsStep × Reply)
  | setSlot index value => some (slot index, .slot value)
  | setInt index value => some (int index, .int value)
  | setFloat index value => some (float index, .float value)
  | setLong index value => some (long index, .long value)
  | setDouble index value => some (double index, .double value)
  | setReference index value => some (reference index, .reference value)
  | _ => none

/-- What a reading step answers where nothing was written. -/
def blank? : LocalsStep → Option Reply
  | slot _ => some (.slot {})
  | int _ => some (.int 0)
  | float _ => some (.float ⟨0⟩)
  | long _ => some (.long 0)
  | double _ => some (.double ⟨0⟩)
  | reference _ => some (.reference none)
  | _ => none

/-- What a step on slots comes down to: reading or writing one slot or two of them. Its places are
for the slots written, their number and what is answered. -/
inductive Access (locals : Locals) (index : Nat) :
    List Slot → Nat → Except MachineError (Reply × Locals) → Prop
  | readOne (answer : Slot → Reply) :
      Access locals index [] 1 ((fun slot => (answer slot, locals)) <$> locals.slot index)
  | readTwo (answer : Slot × Slot → Reply) :
      Access locals index [] 2 ((fun pair => (answer pair, locals)) <$> locals.pair index)
  | writeOne (slot : Slot) :
      Access locals index [slot] 1 ((.done, ·) <$> locals.setSlot index slot)
  | writeTwo (first second : Slot) :
      Access locals index [first, second] 2 ((.done, ·) <$> locals.setPair index first second)

variable {step read write : LocalsStep} {locals next : Locals} {reply : Reply} {index i : Nat}

theorem access_act (locals : Locals) (h : step.index? = some index) :
    Access locals index step.values step.width (step.act locals) := by
  cases step with
  | size | isEmpty => cases h
  | slot _ =>
    cases h
    exact .readOne _
  | int _ | float _ | reference _ =>
    cases h
    simp only [act, Locals.int, Locals.float, Locals.reference, Functor.map_map]
    exact .readOne _
  | long _ | double _ =>
    cases h
    simp only [act, Locals.long, Locals.double, Functor.map_map]
    exact .readTwo _
  | setSlot _ _ | setInt _ _ | setFloat _ _ | setReference _ _ =>
    cases h
    exact .writeOne _
  | setLong _ _ | setDouble _ _ =>
    cases h
    exact .writeTwo _ _

variable {values : List Slot} {width : Nat} {found : Except MachineError (Reply × Locals)}

theorem Access.of_fits (h : Access locals index values width found)
    (hfits : index + width ≤ locals.size) :
    ∃ reply next, found = .ok (reply, next) ∧ locals.Wrote index values next := by
  cases h with
  | readOne answer =>
    have hslot : locals.slot index = .ok locals.slots[index] :=
      Locals.slot_eq_ok_iff.mpr (Array.getElem?_eq_getElem hfits)
    rw [hslot]
    exact ⟨_, _, rfl, Locals.wrote_nil (by omega)⟩
  | readTwo answer =>
    have hpair : locals.pair index = .ok _ := dif_pos hfits
    rw [hpair]
    exact ⟨_, _, rfl, Locals.wrote_nil (by omega)⟩
  | writeOne slot =>
    have hset : locals.setSlot index slot = .ok _ := dif_pos hfits
    rw [hset]
    exact ⟨_, _, rfl, Locals.setSlot_eq_ok_iff.mp hset⟩
  | writeTwo first second =>
    have hset : locals.setPair index first second = .ok _ := if_pos hfits
    rw [hset]
    exact ⟨_, _, rfl, Locals.setPair_eq_ok_iff.mp hset⟩

theorem Access.of_lacks (h : Access locals index values width found)
    (hlacks : locals.size < index + width) :
    found = .error (.localOutOfRange index locals.size) := by
  cases h with
  | readOne answer =>
    have hnone : locals.slots[index]? = none := Array.getElem?_eq_none (Nat.le_of_lt_succ hlacks)
    simp [Locals.slot, hnone, Locals.outOfRange, Functor.map, Except.map]
  | readTwo answer =>
    have hpair : locals.pair index = .error _ := dif_neg (Nat.not_lt.mpr (Nat.le_of_lt_succ hlacks))
    rw [hpair]
    rfl
  | writeOne slot =>
    have hset : locals.setSlot index slot = .error _ :=
      dif_neg (Nat.not_lt.mpr (Nat.le_of_lt_succ hlacks))
    rw [hset]
    rfl
  | writeTwo first second =>
    have hset : locals.setPair index first second = .error _ :=
      if_neg (Nat.not_lt.mpr (Nat.le_of_lt_succ hlacks))
    rw [hset]
    rfl

theorem act_of_no_index (locals : Locals) (h : step.index? = none) :
    ∃ reply, step.act locals = .ok (reply, locals) := by
  cases step with
  | size | isEmpty => exact ⟨_, rfl⟩
  | _ => cases h

/-! ## Reading back -/

/-- The step that reads a value of the kind. -/
def get (index : Nat) : Kind → LocalsStep
  | .int => int index
  | .float => float index
  | .long => long index
  | .double => double index
  | .reference => reference index

theorem act_get (index : Nat) (kind : Kind) (locals : Locals) : (get index kind).act locals =
    (fun value => (value.reply, locals)) <$> locals.load index kind := by
  cases kind <;> (rw [get, act, Locals.load, Functor.map_map]; rfl)

theorem act_get_of_holds {value : Value} (h : locals.Holds index value) :
    (get index value.kind).act locals = .ok (value.reply, locals) := by
  rw [act_get, h.load]
  rfl

/-- A write is read back from the slots that it wrote. -/
theorem act_readBack (hread : write.readBack? = some (read, reply))
    (hindex : read.index? = some index)
    (h : ∀ i slot, write.values[i]? = some slot → locals.slots[index + i]? = some slot) :
    read.act locals = .ok (reply, locals) := by
  cases write with
  | setSlot _ value =>
    cases hread
    cases hindex
    have hslot : locals.slot index = .ok value := Locals.slot_eq_ok_iff.mpr (h 0 value rfl)
    rw [act, hslot]
    rfl
  | setInt _ value =>
    cases hread
    cases hindex
    exact act_get_of_holds (show locals.Holds index (.int value) from h)
  | setFloat _ value =>
    cases hread
    cases hindex
    exact act_get_of_holds (show locals.Holds index (.float value) from h)
  | setLong _ value =>
    cases hread
    cases hindex
    exact act_get_of_holds (show locals.Holds index (.long value) from h)
  | setDouble _ value =>
    cases hread
    cases hindex
    exact act_get_of_holds (show locals.Holds index (.double value) from h)
  | setReference _ value =>
    cases hread
    cases hindex
    exact act_get_of_holds (show locals.Holds index (.reference value) from h)
  | _ => cases hread

/-- A write and its reading step are about the same slots. -/
theorem places_of_readBack (h : write.readBack? = some (read, reply)) :
    ∃ index, write.index? = some index ∧ read.index? = some index ∧
      write.values.length = read.width := by
  cases write <;> cases h <;> exact ⟨_, rfl, rfl, rfl⟩

/-- What is read where nothing was written is what writing zeroed slots would leave to be read. -/
theorem exists_write_of_blank (h : read.blank? = some reply) :
    ∃ write : LocalsStep, write.readBack? = some (read, reply) ∧
      ∀ slot ∈ write.values, slot = {} := by
  cases read with
  | slot index =>
    cases h
    exact ⟨setSlot index {}, rfl, by simp [values]⟩
  | int index =>
    cases h
    exact ⟨setInt index 0, rfl, by simp [values, Slot.ofInt]⟩
  | float index =>
    cases h
    exact ⟨setFloat index ⟨0⟩, rfl, by simp [values, Slot.ofFloat, Slot.ofInt]⟩
  | long index =>
    cases h
    have hzeroed : ∀ slot ∈ longSlots 0, slot = {} := by decide
    exact ⟨setLong index 0, rfl, hzeroed⟩
  | double index =>
    cases h
    have hzeroed : ∀ slot ∈ longSlots (longOfDouble ⟨0⟩), slot = {} := by decide
    exact ⟨setDouble index ⟨0⟩, rfl, hzeroed⟩
  | reference index =>
    cases h
    exact ⟨setReference index none, rfl, by simp [values, Slot.ofReference]⟩
  | _ => cases h

/-! ## Runs -/

/-- A step leaves the table as it is or writes its slots. -/
theorem next_eq_or_wrote (locals : Locals) (step : LocalsStep) :
    act.next locals step = locals ∨ ∃ index reply, step.index? = some index ∧
      step.act locals = .ok (reply, act.next locals step) ∧
      locals.Wrote index step.values (act.next locals step) := by
  cases hindex : step.index? with
  | none =>
    obtain ⟨reply, hact⟩ := act_of_no_index locals hindex
    exact .inl (Action.next_of_ok hact)
  | some index =>
    have haccess := access_act locals hindex
    by_cases hfits : index + step.width ≤ locals.size
    · obtain ⟨reply, after, hact, hwrote⟩ := haccess.of_fits hfits
      rw [Action.next_of_ok hact]
      exact .inr ⟨index, reply, rfl, hact, hwrote⟩
    · exact .inl (Action.next_of_error (haccess.of_lacks (Nat.lt_of_not_le hfits)))

theorem size_next (locals : Locals) (step : LocalsStep) :
    (act.next locals step).size = locals.size := by
  obtain hsame | ⟨_, _, _, _, hwrote⟩ := next_eq_or_wrote locals step
  · rw [hsame]
  · exact hwrote.size_eq

/-- Only a step that succeeds and writes the slot changes it. -/
theorem slots_next (h : ∀ reply after, step.act locals = .ok (reply, after) → ¬ step.Writes i) :
    (act.next locals step).slots[i]? = locals.slots[i]? := by
  obtain hsame | ⟨index, reply, hindex, hact, hwrote⟩ := next_eq_or_wrote locals step
  · rw [hsame]
  · have hnot : ¬ (index ≤ i ∧ i < index + step.values.length) := by
      intro hinside
      exact h _ _ hact ⟨index, hindex, hinside⟩
    exact hwrote.outside i (by omega)

/-- Step number `k` of a run succeeded and wrote the slot. -/
def Touched (locals : Locals) (steps : List LocalsStep) (k i : Nat) : Prop :=
  ∃ write reply after, steps[k]? = some write ∧
    (act.run locals steps)[k]? = some (.ok reply, after) ∧ write.Writes i

variable {steps : List LocalsStep} {k j : Nat}

theorem size_stateAt (locals : Locals) (steps : List LocalsStep) (k : Nat) :
    (act.stateAt locals steps k).size = locals.size := by
  apply Action.keeps_stateAt (fun later : Locals => later.size = locals.size) rfl
  intro step before reply after hbefore h
  rw [← Action.next_of_ok h, size_next, hbefore]

theorem run_ok (hstep : steps[k]? = some step)
    (h : step.act (act.stateAt locals steps k) = .ok (reply, next)) :
    (act.run locals steps)[k]? = some (.ok reply, next) := by
  rw [Action.run_getElem?, hstep, Option.map_some, h, Action.next_of_ok h]
  rfl

/-- A slot that no step writes from one place of a run to another is as before. -/
theorem slots_stateAt (hle : j ≤ k)
    (h : ∀ m, j ≤ m → m < k → ¬ Touched locals steps m i) :
    (act.stateAt locals steps k).slots[i]? = (act.stateAt locals steps j).slots[i]? := by
  induction hle with
  | refl => rfl
  | @step k hle ih =>
    rw [← ih fun m hm hlt => h m hm (Nat.lt_succ_of_lt hlt)]
    cases hstep : steps[k]? with
    | none => rw [Action.stateAt_succ_of_none hstep]
    | some step =>
      rw [Action.stateAt_succ hstep]
      apply slots_next
      intro reply after hact hwrites
      exact h k hle (Nat.lt_succ_self k) ⟨step, reply, after, hstep, run_ok hstep hact, hwrites⟩

theorem run_of_fits (hstep : steps[k]? = some step) (hindex : step.index? = some index)
    (hfits : index + step.width ≤ locals.size) :
    ∃ reply, (act.run locals steps)[k]? = some (.ok reply, act.stateAt locals steps (k + 1)) ∧
      (act.stateAt locals steps k).Wrote index step.values (act.stateAt locals steps (k + 1)) := by
  rw [← size_stateAt locals steps k] at hfits
  obtain ⟨reply, after, hact, hwrote⟩ := (access_act _ hindex).of_fits hfits
  have hafter : act.stateAt locals steps (k + 1) = after := by
    rw [Action.stateAt_succ hstep, Action.next_of_ok hact]
  rw [hafter]
  exact ⟨reply, run_ok hstep hact, hwrote⟩

theorem run_of_lacks (hstep : steps[k]? = some step) (hindex : step.index? = some index)
    (hlacks : locals.size < index + step.width) : (act.run locals steps)[k]? =
      some (.error (.localOutOfRange index locals.size), act.stateAt locals steps k) := by
  rw [← size_stateAt locals steps k] at hlacks ⊢
  have hact := (access_act _ hindex).of_lacks hlacks
  rw [Action.run_getElem?, hstep, Option.map_some, Action.next_of_error hact, hact]
  rfl

/-- A write is read back until one of its slots is written again. -/
theorem run_lastWrite (hwrite : steps[j]? = some write) (hread : steps[k]? = some read)
    (hback : write.readBack? = some (read, reply)) (hlt : j < k)
    (hdone : ∃ answer after, (act.run locals steps)[j]? = some (.ok answer, after))
    (h : ∀ m i, j < m → m < k → read.Covers i → ¬ Touched locals steps m i) :
    (act.run locals steps)[k]? = some (.ok reply, act.stateAt locals steps k) := by
  obtain ⟨index, hindex, hindex', hlength⟩ := places_of_readBack hback
  have hfits : index + write.width ≤ locals.size := by
    apply Nat.le_of_not_lt
    intro hlacks
    obtain ⟨_, _, hok⟩ := hdone
    rw [run_of_lacks hwrite hindex hlacks] at hok
    cases hok
  obtain ⟨_, -, hwrote⟩ := run_of_fits hwrite hindex hfits
  refine run_ok hread (act_readBack hback hindex' fun m slot hslot => ?_)
  have hm : m < write.values.length := (List.getElem?_eq_some_iff.mp hslot).1
  have hcovers : read.Covers (index + m) := ⟨index, hindex', by omega, by omega⟩
  have hkept := slots_stateAt hlt fun n hge hltk => h n (index + m) hge hltk hcovers
  rw [hkept, hwrote.inside m hm, hslot]

/-- A slot that was never written is read as zero. -/
theorem run_blank {size : Nat} (hread : steps[k]? = some read) (hblank : read.blank? = some reply)
    (hfits : ∀ i, read.Covers i → i < size)
    (h : ∀ m i, m < k → read.Covers i → ¬ Touched (.ofSize size) steps m i) :
    (act.run (.ofSize size) steps)[k]? =
      some (.ok reply, act.stateAt (.ofSize size) steps k) := by
  obtain ⟨write, hback, hzeroed⟩ := exists_write_of_blank hblank
  obtain ⟨index, -, hindex, hlength⟩ := places_of_readBack hback
  refine run_ok hread (act_readBack hback hindex fun m slot hslot => ?_)
  obtain rfl : slot = {} := hzeroed slot (List.mem_of_getElem? hslot)
  have hm : m < write.values.length := (List.getElem?_eq_some_iff.mp hslot).1
  have hcovers : read.Covers (index + m) := ⟨index, hindex, by omega, by omega⟩
  rw [slots_stateAt (Nat.zero_le k) fun n _ hltk => h n (index + m) hltk hcovers]
  simp [Action.stateAt, Locals.ofSize, hfits _ hcovers]

theorem runOnCells_slots {bits : Nat} {locals : Locals} (hsize : locals.size < 2 ^ bits)
    (steps : List LocalsStep) : runOnCells bits locals.slots steps =
      some ((act.run locals steps).map (Prod.map id Locals.slots)) := by
  refine Work.run_eq (fun later => later.size = locals.size) rfl ?_ fun step before hbefore => ?_
  · intro step before reply after hbefore h
    rw [← Action.next_of_ok h, size_next, hbefore]
  · rw [← hbefore] at hsize
    exact onCells_slots step hsize

/-- A table of zeroed slots keeps its size, and in it succeeds whatever is about slots that it has,
a write changing these only; the rest fails and changes nothing. What was written is read back bit
for bit until a slot of it is written again, by whatever step, and zero before anything was. In the
cells that the table lies in, with words for indices that are wide enough for its size, the run is
the same: whatever the index, no sum takes more than a word and no cell is touched that is not
there, and a step that fails leaves the cells as the step in front of it did. -/
theorem run_ofSize (size : Nat) (steps : List LocalsStep) :
    let outcomes := act.run (.ofSize size) steps
    let table := act.stateAt (.ofSize size) steps
    let touched := Touched (.ofSize size) steps
    (∀ (k : Nat) outcome, outcomes[k]? = some outcome →
      outcome.2 = table (k + 1) ∧ outcome.2.size = size) ∧
    (∀ (k : Nat) step index, steps[k]? = some step → step.index? = some index →
      (index + step.width ≤ size → ∃ reply, outcomes[k]? = some (.ok reply, table (k + 1)) ∧
        (table k).Wrote index step.values (table (k + 1))) ∧
      (size < index + step.width →
        outcomes[k]? = some (.error (.localOutOfRange index size), table k))) ∧
    (∀ (j k : Nat) write read reply, steps[j]? = some write → steps[k]? = some read →
      write.readBack? = some (read, reply) → j < k →
      (∃ answer after, outcomes[j]? = some (.ok answer, after)) →
      (∀ m i, j < m → m < k → read.Covers i → ¬ touched m i) →
      outcomes[k]? = some (.ok reply, table k)) ∧
    (∀ (k : Nat) read blank, steps[k]? = some read → read.blank? = some blank →
      (∀ i, read.Covers i → i < size) → (∀ m i, m < k → read.Covers i → ¬ touched m i) →
      outcomes[k]? = some (.ok blank, table k)) ∧
    ∀ bits, size < 2 ^ bits → ∃ rows, runOnCells bits (.replicate size {}) steps = some rows ∧
      rows = outcomes.map (Prod.map id Locals.slots) ∧
      ∀ (k : Nat) fault cells, rows[k]? = some (.error fault, cells) →
        (Array.replicate size {} :: rows.map Prod.snd)[k]? = some cells := by
  intro outcomes table touched
  have hsize : (Locals.ofSize size).size = size := Array.size_replicate
  refine ⟨fun k outcome hk => ?_, fun k step index hstep hindex => ?_,
    fun j k write read reply => run_lastWrite, fun k read blank => run_blank, fun bits hbits => ?_⟩
  · rw [Action.run_getElem?, Option.map_eq_some_iff] at hk
    obtain ⟨step, hstep, rfl⟩ := hk
    have hafter : table (k + 1) = act.next (table k) step := Action.stateAt_succ hstep
    rw [← hafter]
    exact ⟨rfl, (size_stateAt _ _ _).trans hsize⟩
  · have hfits := @run_of_fits step (.ofSize size) index steps k hstep hindex
    have hlacks := @run_of_lacks step (.ofSize size) index steps k hstep hindex
    rw [hsize] at hfits hlacks
    exact ⟨hfits, hlacks⟩
  · exact ⟨_, runOnCells_slots (hsize.symm ▸ hbits) steps, rfl,
      fun k fault cells hfault => Work.kept_of_run_failed hfault⟩

/-- A double that does not fit behind a long leaves the int that is there, and so does a long at the
largest index of 64 bits; the int does not touch the long. -/
theorem run_ofSize_doubleTooLong :
    let steps := [setLong 0 (-2), setInt 2 7, setDouble 2 ⟨1⟩, setLong (2 ^ 64 - 1) 5, long 0, int 2]
    let outcomes := act.run (.ofSize 3) steps
    let table := act.stateAt (.ofSize 3) steps
    outcomes[2]? = some (.error (.localOutOfRange 2 3), table 2) ∧
      outcomes[3]? = some (.error (.localOutOfRange (2 ^ 64 - 1) 3), table 3) ∧
      outcomes[4]? = some (.ok (.long (-2)), table 4) ∧
      outcomes[5]? = some (.ok (.int 7), table 5) ∧
      ∃ rows, runOnCells 64 (.replicate 3 {}) steps = some rows ∧
        rows[2]? = some (.error (.localOutOfRange 2 3), (table 2).slots) ∧
        rows[3]? = some (.error (.localOutOfRange (2 ^ 64 - 1) 3), (table 3).slots) := by
  intro steps outcomes table
  obtain ⟨-, hfits, hlast, -, hcells⟩ := run_ofSize 3 steps
  have hdouble := (hfits 2 _ _ rfl rfl).2 (by decide)
  have hlong := (hfits 3 _ _ rfl rfl).2 (by decide)
  have huntouched : ∀ m i, 0 < m → ¬ (m = 1 ∧ i = 2) → ¬ Touched (.ofSize 3) steps m i := by
    intro m i hm hne ⟨write, reply, after, hstep, houtcome, index, hindex, hwrites⟩
    match m with
    | 1 =>
      cases hstep
      cases hindex
      simp only [values, List.length_singleton] at hwrites
      omega
    | 2 =>
      rw [hdouble] at houtcome
      cases houtcome
    | 3 =>
      rw [hlong] at houtcome
      cases houtcome
    | 4 | 5 =>
      cases hstep
      cases hindex
      simp only [values, List.length_nil] at hwrites
      omega
    | m + 6 => simp [steps] at hstep
  refine ⟨hdouble, hlong, ?_, ?_, ?_⟩
  · apply hlast 0 4 _ _ _ rfl rfl rfl (by decide)
    · exact ⟨_, _, rfl⟩
    · intro m i hm hlt ⟨index, hindex, hcovers⟩
      cases hindex
      simp only [width] at hcovers
      exact huntouched m i hm (by omega)
  · apply hlast 1 5 _ _ _ rfl rfl rfl (by decide)
    · exact ⟨_, _, rfl⟩
    · intro m i hm hlt hcovers
      exact huntouched m i (by omega) (by omega)
  · obtain ⟨rows, hrun, rfl, -⟩ := hcells 64 (by decide)
    refine ⟨_, hrun, ?_, ?_⟩
    · rw [List.getElem?_map, hdouble]
      rfl
    · rw [List.getElem?_map, hlong]
      rfl

end LocalsStep

end Jvm
