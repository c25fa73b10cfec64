import Jvm.Proofs.Machine.SlotFlow

/-! # Where references come from

Slots have no tag, so a slot that was written as a number can be read as a reference. It is then
null: a slot is never a number and a reference at once, in use or not, and a reference in a slot is
one that a step wrote as a reference (`Slot.Vouched`). A step keeps this for the slots of all frames
and of all clones of frames (`SessionStep.act_vouched`), so a run does
(`SessionStep.run_vouched`). -/

namespace Jvm

/-! ## Slots that are vouched for -/

namespace Slot

/-- The slots that there are: a number or a reference. -/
inductive Made : Slot → Prop where
  | number (value : Int32) : Made (ofInt value)
  | reference (value : Option ObjectRef) : Made (ofReference value)

/-- The slot is not a number and a reference at once, and the reference in it is one of those
written. -/
structure Vouched (written : ObjectRef → Prop) (slot : Slot) : Prop where
  unmixed : slot.int = 0 ∨ slot.reference = none
  known : ∀ object, slot.reference = some object → written object

variable {written written' : ObjectRef → Prop} {slot : Slot}

theorem Vouched.mono (h : slot.Vouched written) (hle : ∀ object, written object → written' object) :
    slot.Vouched written' :=
  ⟨h.unmixed, fun object hobject => hle object (h.known object hobject)⟩

theorem vouched_ofInt (value : Int32) : (ofInt value).Vouched written :=
  ⟨.inr rfl, fun _ h => nomatch h⟩

theorem Made.vouched (h : slot.Made) : slot.Vouched (slot.reference = some ·) := by
  cases h with
  | number value => exact vouched_ofInt value
  | reference value => exact ⟨.inl rfl, fun _ h => h⟩

/-- To read only the reference of a slot loses no voucher. -/
theorem Vouched.ofReference (h : slot.Vouched written) :
    (ofReference slot.reference).Vouched written :=
  ⟨.inl rfl, h.known⟩

end Slot

/-- All the slots are vouched for. -/
def AllVouched (written : ObjectRef → Prop) (cells : List Slot) : Prop :=
  ∀ slot ∈ cells, slot.Vouched written

variable {written written' : ObjectRef → Prop} {before new after shown : List Slot}

theorem AllVouched.mono (h : AllVouched written new)
    (hle : ∀ object, written object → written' object) : AllVouched written' new :=
  fun slot hmem => (h slot hmem).mono hle

theorem SlotFlow.vouched_after (h : SlotFlow before new after shown)
    (hbefore : AllVouched written before) (hnew : AllVouched written new) :
    AllVouched written after := by
  intro slot hmem
  rcases h.source slot hmem with rfl | hbefore' | hnew'
  · exact Slot.vouched_ofInt 0
  · exact hbefore slot hbefore'
  · exact hnew slot hnew'

theorem SlotFlow.vouched_shown (h : SlotFlow before new after shown)
    (hbefore : AllVouched written before) : AllVouched written shown := by
  intro slot hmem
  rcases h.seen slot hmem with hold | ⟨cell, hcell, rfl⟩
  · exact hbefore slot hold
  · exact (hbefore cell hcell).ofReference

/-! ## A thread and clones of its frames -/

/-- A thread, and the clones of its frames that were taken so far, latest first. -/
structure Session where
  thread : Thread
  clones : List Frame := []

/-- A thread without frames. -/
def Session.start (maxDepth : Nat) : Session := { thread := { maxDepth } }

inductive SessionStep where
  | on (step : ThreadStep)
  /-- Takes a clone of the frame `depth` frames below the current one. -/
  | clone (depth : Nat)
  /-- Pushes a clone that was taken before. -/
  | pushClone (index : Nat)

def Session.cells (session : Session) : List Slot :=
  session.thread.cells ++ session.clones.flatMap Frame.cells

namespace SessionStep

/-- The entry of a list of frames, which may be too short. -/
def pick (frames : List Frame) (index : Nat) : Except MachineError Frame :=
  match frames[index]? with
  | some frame => .ok frame
  | none => .error .emptyStack

/-- What a step answers and reports, and the session after it. -/
def act : Action SessionStep Session (ThreadReply × List Event)
  | on step, session =>
    (fun (answer, thread) => (answer, { session with thread })) <$> step.act session.thread
  | clone depth, session =>
    (fun frame => ((.part .done, []), { session with clones := frame :: session.clones })) <$>
      pick session.thread.frames depth
  | pushClone index, session =>
    (fun (answer, thread) => (answer, { session with thread })) <$>
      ThreadStep.pushing session.thread (pick session.clones index)

/-- The slot that is handed to a step as it is. -/
def raw? : SessionStep → Option Slot
  | on (.onLocals (.setSlot _ slot)) => some slot
  | on (.onStack (.push slot)) => some slot
  | _ => none

/-- What a step writes as a reference, be it alone or in a slot. -/
def written? : SessionStep → Option ObjectRef
  | on (.onLocals (.setReference _ value)) => value
  | on (.onLocals (.setSlot _ slot)) => slot.reference
  | on (.onStack (.pushReference value)) => value
  | on (.onStack (.push slot)) => slot.reference
  | _ => none

/-- The slots that a step writes. -/
def values : SessionStep → List Slot
  | on step => step.values
  | clone _ | pushClone _ => []

variable {step : SessionStep} {session next : Session} {answer : ThreadReply × List Event}

theorem pick_eq_ok_iff {frames : List Frame} {index : Nat} {frame : Frame} :
    pick frames index = .ok frame ↔ frames[index]? = some frame := by
  unfold pick
  split <;> simp_all

theorem act_flow (h : step.act session = .ok (answer, next)) :
    SlotFlow session.cells step.values next.cells answer.1.cells := by
  cases step with
  | on step =>
    obtain ⟨⟨_, thread⟩, hact, hval⟩ := map_eq_ok_iff.mp h
    cases hval
    exact (ThreadStep.act_flow hact).append_right _
  | clone depth =>
    obtain ⟨frame, hpick, hval⟩ := map_eq_ok_iff.mp h
    cases hval
    refine ⟨fun slot hslot => .inr (.inl ?_), List.forall_mem_nil _⟩
    have hmem := List.mem_of_getElem? (pick_eq_ok_iff.mp hpick)
    simp only [Session.cells, List.flatMap_cons, List.mem_append] at hslot ⊢
    rcases hslot with hthread | hframe | hclones
    · exact .inl hthread
    · exact .inl (Thread.mem_cells_iff.mpr ⟨frame, hmem, hframe⟩)
    · exact .inr hclones
  | pushClone index =>
    obtain ⟨⟨_, thread⟩, hpush, hval⟩ := map_eq_ok_iff.mp h
    cases hval
    refine ThreadStep.pushing_flow _ hpush fun frame hpick slot hslot => .inr ?_
    have hmem := List.mem_of_getElem? (pick_eq_ok_iff.mp hpick)
    exact List.mem_append_right _ (List.mem_flatMap.mpr ⟨frame, hmem, hslot⟩)

/-- Of what a step writes only a lone reference or a whole slot brings a reference. -/
theorem values_vouched (h : ∀ slot, step.raw? = some slot → slot.Made) :
    AllVouched (step.written? = some ·) step.values := by
  have hnumber (value : Int32) : AllVouched (step.written? = some ·) [.ofInt value] :=
    List.forall_mem_singleton.mpr (Slot.vouched_ofInt value)
  have hlong (value : Int64) : AllVouched (step.written? = some ·) (longSlots value) :=
    List.forall_mem_cons.mpr ⟨Slot.vouched_ofInt _, hnumber _⟩
  have hreference (value : Option ObjectRef) : AllVouched (value = some ·) [.ofReference value] :=
    List.forall_mem_singleton.mpr (Slot.Made.reference value).vouched
  have hnone : AllVouched (step.written? = some ·) [] := List.forall_mem_nil _
  cases step with
  | clone _ | pushClone _ => exact hnone
  | on step =>
    cases step with
    | onLocals step =>
      cases step with
      | setSlot _ slot => exact List.forall_mem_singleton.mpr (h slot rfl).vouched
      | setReference _ value => exact hreference value
      | setInt _ _ | setFloat _ _ => exact hnumber _
      | setLong _ _ | setDouble _ _ => exact hlong _
      | _ => exact hnone
    | onStack step =>
      cases step with
      | push slot => exact List.forall_mem_singleton.mpr (h slot rfl).vouched
      | pushReference value => exact hreference value
      | pushInt _ | pushFloat _ => exact hnumber _
      | pushLong _ | pushDouble _ => exact hlong _
      | _ => exact hnone
    | _ => exact hnone

/-- A step shows only references written before, and leaves those and the one that it writes. -/
theorem act_vouched (h : step.act session = .ok (answer, next))
    (hmade : ∀ slot, step.raw? = some slot → slot.Made)
    (hcells : AllVouched written session.cells) :
    AllVouched (fun object => written object ∨ step.written? = some object) next.cells ∧
      AllVouched written answer.1.cells := by
  have hflow := act_flow h
  refine ⟨hflow.vouched_after ?_ ?_, hflow.vouched_shown hcells⟩
  · exact hcells.mono fun _ => .inl
  · exact (values_vouched hmade).mono fun _ => .inr

/-! ## Runs -/

/-- What a step answers and reports, and the session after it. -/
abbrev Outcome : Type := Except MachineError (ThreadReply × List Event) × Session

/-- The reference was written by one of the first `k` steps, which did not fail. -/
def WrittenBefore (steps : List SessionStep) (outcomes : List Outcome) (k : Nat)
    (object : ObjectRef) : Prop :=
  ∃ j < k, ∃ step answer session, steps[j]? = some step ∧
    outcomes[j]? = some (.ok answer, session) ∧ step.written? = some object

variable {steps : List SessionStep} {k : Nat} {object : ObjectRef}
  {outcome : Outcome} {outcomes : List Outcome}

theorem WrittenBefore.tail (h : WrittenBefore steps outcomes k object) :
    WrittenBefore (step :: steps) (outcome :: outcomes) (k + 1) object := by
  obtain ⟨j, hj, step, answer, session, hstep, houtcome, hwritten⟩ := h
  exact ⟨j + 1, by omega, step, answer, session, hstep, houtcome, hwritten⟩

theorem WrittenBefore.head (h : step.written? = some object) :
    WrittenBefore (step :: steps) ((.ok answer, session) :: outcomes) (k + 1) object :=
  ⟨0, by omega, step, answer, session, rfl, rfl, h⟩

/-- The invariant carried along a run: references in slots were known at the start or written
since. -/
theorem run_vouched (hstart : AllVouched written session.cells)
    (hmade : ∀ step ∈ steps, ∀ slot, step.raw? = some slot → slot.Made)
    (h : (act.run session steps)[k]? = some outcome) :
    AllVouched (fun object => written object ∨
        WrittenBefore steps (act.run session steps) (k + 1) object) outcome.2.cells ∧
      ∀ answer, outcome.1 = .ok answer →
        AllVouched (fun object => written object ∨
          WrittenBefore steps (act.run session steps) k object) answer.1.cells := by
  -- on the steps; for those behind the first, what it wrote is known from the start
  induction steps generalizing session k written with
  | nil => cases h
  | cons step steps ih =>
    obtain ⟨hstep, hsteps⟩ := List.forall_mem_cons.mp hmade
    rcases hact : step.act session with fault | ⟨answer, next⟩
    · simp only [Action.run, hact] at h ⊢
      cases k with
      | zero =>
        cases h
        exact ⟨hstart.mono fun _ => .inl, fun _ h => nomatch h⟩
      | succ k =>
        obtain ⟨hcells, hanswer⟩ := ih hstart hsteps h
        exact ⟨hcells.mono fun _ => .imp_right .tail,
          fun answer hok => (hanswer answer hok).mono fun _ => .imp_right .tail⟩
    · simp only [Action.run, hact] at h ⊢
      obtain ⟨hnext, hshown⟩ := act_vouched hact hstep hstart
      cases k with
      | zero =>
        cases h
        refine ⟨hnext.mono fun _ => .imp_right .head, fun answer hok => ?_⟩
        cases hok
        exact hshown.mono fun _ => .inl
      | succ k =>
        obtain ⟨hcells, hanswer⟩ := ih hnext hsteps h
        have hle {k' : Nat} (object : ObjectRef)
            (hknown : (written object ∨ step.written? = some object) ∨
              WrittenBefore steps (act.run next steps) k' object) :
            written object ∨ WrittenBefore (step :: steps)
              ((.ok answer, next) :: act.run next steps) (k' + 1) object := by
          rcases hknown with (hold | hnew) | hlater
          · exact .inl hold
          · exact .inr (.head hnew)
          · exact .inr hlater.tail
        exact ⟨hcells.mono hle, fun answer hok => (hanswer answer hok).mono hle⟩

/-- Nothing forges a reference: in every state of a run that starts without frames a slot holds a
number or a reference that was written as one, and so does every slot that is shown. -/
theorem references_written (maxDepth : Nat)
    (hmade : ∀ step ∈ steps, ∀ slot, step.raw? = some slot → slot.Made)
    (h : (act.run (.start maxDepth) steps)[k]? = some outcome) :
    AllVouched (WrittenBefore steps (act.run (.start maxDepth) steps) (k + 1)) outcome.2.cells ∧
      (∀ answer, outcome.1 = .ok answer →
        AllVouched (WrittenBefore steps (act.run (.start maxDepth) steps) k) answer.1.cells) ∧
      ((∀ step ∈ steps.take k, step.written? = none) → ∀ answer, outcome.1 = .ok answer →
        ∀ slot ∈ answer.1.cells, slot.reference = none) := by
  have hstart : AllVouched (fun _ => False) (Session.start maxDepth).cells := List.forall_mem_nil _
  obtain ⟨hcells, hanswer⟩ := run_vouched hstart hmade h
  simp only [false_or] at hcells hanswer
  refine ⟨hcells, hanswer, fun hnone answer hok slot hslot => ?_⟩
  rcases hslot' : slot.reference with _ | object
  · rfl
  · have hknown := (hanswer answer hok slot hslot).known object hslot'
    obtain ⟨j, hj, step, -, -, hstep, -, hwritten⟩ := hknown
    have hmem : step ∈ steps.take k :=
      List.mem_of_getElem? ((List.getElem?_take_of_lt hj).trans hstep)
    cases (hnone step hmem).symm.trans hwritten

/-- A reference that a long overwrote comes back with a clone of the frame. -/
theorem references_written_pushedClone :
    let object : ObjectRef := ⟨7, by decide⟩
    let steps : List SessionStep := [.on (.pushFrame 2 1), .on (.onStack (.push (.ofInt 7))),
      .on (.onLocals (.setReference 0 (some object))), .clone 0, .on (.onLocals (.setLong 0 7)),
      .pushClone 0, .on (.onLocals (.reference 0))]
    let outcomes := act.run (.start 2) steps
    (∀ step ∈ steps, ∀ slot, step.raw? = some slot → slot.Made) ∧
      ∃ session, outcomes[6]? = some (.ok (.part (.reference (some object)), []), session) ∧
        AllVouched (WrittenBefore steps outcomes 7) session.cells ∧
        AllVouched (WrittenBefore steps outcomes 6) [.ofReference (some object)] := by
  intro object steps outcomes
  have hmade : ∀ step ∈ steps, ∀ slot, step.raw? = some slot → slot.Made := by
    simp only [steps, List.forall_mem_cons, raw?]
    simp [Slot.Made.number]
  obtain ⟨hcells, hshown, -⟩ := references_written 2 hmade (k := 6) rfl
  exact ⟨hmade, _, rfl, hcells, hshown _ rfl⟩

end SessionStep

end Jvm
