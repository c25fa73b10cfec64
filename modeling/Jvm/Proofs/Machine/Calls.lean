import Jvm.Machine.ThreadStep
import Jvm.Proofs.Machine.OpenCalls
import Jvm.Proofs.Machine.Runs

/-! # Calls and returns

A thread holds the frames that were pushed and not popped since, latest first, each with the edits
made while it was the current one (`CallStep.frames_threadAt`). While a frame is above them, the
frames below it keep as they were (`CallStep.frames_of_stays`), so that a return brings them back
(`CallStep.frames_of_return`), and what a run reports tells its depths (`CallStep.log_eq`). -/

namespace Jvm

/-- A thread without frames. -/
def Thread.start (maxDepth : Nat) : Thread := { maxDepth }

namespace CallStep

/-- What a step answers and reports, and the thread after it. -/
def act : Action CallStep Thread (ThreadReply × List Event)
  | push frame, thread => ThreadStep.pushing thread (.ok frame)
  | pop, thread => ThreadStep.act .popFrame thread
  | setPc pc, thread => ThreadStep.act (.setPc pc) thread
  | current, thread => ThreadStep.act .current thread
  | edit change, thread => thread.edit fun frame => .ok ((.part .done, []), change frame)

/-- The thread in front of step `k`. -/
def threadAt (maxDepth : Nat) (steps : List CallStep) (k : Nat) : Thread :=
  act.stateAt (.start maxDepth) steps k

def run (maxDepth : Nat) (steps : List CallStep) :
    List (Except MachineError (ThreadReply × List Event) × Thread) :=
  act.run (.start maxDepth) steps

/-- What a step reports: nothing if it fails. -/
def reported : Except MachineError (ThreadReply × List Event) → List Event
  | .ok (_, events) => events
  | .error _ => []

/-- What a run reports. -/
def log (maxDepth : Nat) (steps : List CallStep) : List Event :=
  (run maxDepth steps).flatMap fun outcome => reported outcome.1

/-- Why a step fails, given the number of frames in front of it. -/
def fault? (maxDepth level : Nat) : CallStep → Option MachineError
  | push _ => if level = maxDepth then some (.stackOverflow maxDepth) else none
  | pop | current | edit _ => if level = 0 then some .emptyStack else none
  | setPc _ => none

/-- The report on a step, told from the number of frames in front of it and behind it. -/
def levelReport (before after : Nat) : List Event :=
  if before < after then [.framePushed after]
  else if after < before then [.framePopped after]
  else []

@[simp] theorem levelReport_self (level : Nat) : levelReport level level = [] := by
  simp [levelReport]

@[simp] theorem levelReport_succ (level : Nat) :
    levelReport level (level + 1) = [.framePushed (level + 1)] := by
  simp [levelReport]

@[simp] theorem levelReport_pred (level : Nat) :
    levelReport (level + 1) level = [.framePopped level] := by
  rw [levelReport, if_neg (by omega), if_pos (Nat.lt_succ_self level)]

/-- The frames behind a step. -/
def framesAfter (maxDepth : Nat) (frames : List Frame) : CallStep → List Frame
  | push frame => if frames.length < maxDepth then frame :: frames else frames
  | pop => frames.tail
  | edit change => frames.modifyHead change
  | setPc _ | current => frames

/-- The program counter behind a step. -/
def pcAfter (pc : Nat) : CallStep → Nat
  | setPc pc => pc
  | push _ | pop | current | edit _ => pc

variable {maxDepth pc j k : Nat} {frames : List Frame} {steps : List CallStep} {step : CallStep}
  {fault : MachineError} {frame : Frame}

/-! ## One step -/

theorem act_push_of_lt (h : frames.length < maxDepth) : act (push frame) ⟨pc, maxDepth, frames⟩ =
    .ok ((.part .done, [.framePushed (frames.length + 1)]), ⟨pc, maxDepth, frame :: frames⟩) := by
  have hpush : Thread.push ⟨pc, maxDepth, frames⟩ frame =
      .ok (⟨pc, maxDepth, frame :: frames⟩, .framePushed (frames.length + 1)) := if_pos h
  simp only [act, ThreadStep.pushing, bind, Except.bind, hpush]
  rfl

theorem act_push_of_le (h : maxDepth ≤ frames.length) :
    act (push frame) ⟨pc, maxDepth, frames⟩ = .error (.stackOverflow maxDepth) := by
  have hpush : Thread.push ⟨pc, maxDepth, frames⟩ frame = .error (.stackOverflow maxDepth) :=
    if_neg (Nat.not_lt.mpr h)
  simp only [act, ThreadStep.pushing, bind, Except.bind, hpush]

/-- Whether it fails or not, a step does this to a thread. -/
theorem next_eq (pc maxDepth : Nat) (frames : List Frame) (step : CallStep) :
    act.next ⟨pc, maxDepth, frames⟩ step =
      ⟨step.pcAfter pc, maxDepth, step.framesAfter maxDepth frames⟩ := by
  cases step with
  | push frame =>
    by_cases h : frames.length < maxDepth
    · rw [Action.next_of_ok (act_push_of_lt h), framesAfter, if_pos h]
      rfl
    · rw [Action.next_of_error (act_push_of_le (Nat.not_lt.mp h)), framesAfter, if_neg h]
      rfl
  | _ => cases frames <;> rfl

theorem length_framesAfter (maxDepth : Nat) (frames : List Frame) (step : CallStep) :
    (step.framesAfter maxDepth frames).length = step.levelAfter maxDepth frames.length := by
  cases step with
  | push frame =>
    simp only [framesAfter, levelAfter]
    split <;> rfl
  | pop => exact List.length_tail
  | edit change => exact List.length_modifyHead
  | setPc _ | current => rfl

theorem act_of_fault (h : fault? maxDepth frames.length step = some fault) :
    act step ⟨pc, maxDepth, frames⟩ = .error fault := by
  cases step with
  | push frame =>
    obtain ⟨hfull, hfault⟩ := Option.ite_none_right_eq_some.mp h
    cases hfault
    exact act_push_of_le (Nat.le_of_eq hfull.symm)
  | setPc _ => cases h
  | pop | current | edit _ =>
    obtain ⟨hempty, hfault⟩ := Option.ite_none_right_eq_some.mp h
    cases hfault
    obtain rfl := List.length_eq_zero_iff.mp hempty
    rfl

/-- A step that does not fail reports how it moves the level. If it is to show the current frame, it
does. -/
theorem act_of_no_fault (hle : frames.length ≤ maxDepth)
    (h : fault? maxDepth frames.length step = none) : ∃ reply,
      act step ⟨pc, maxDepth, frames⟩ =
        .ok ((reply, levelReport frames.length (step.levelAfter maxDepth frames.length)),
          act.next ⟨pc, maxDepth, frames⟩ step) ∧
      ((step = pop ∨ step = current) → ∃ top, frames.head? = some top ∧ reply = .frame top) := by
  rw [next_eq]
  cases step with
  | push frame =>
    have hlt : frames.length < maxDepth := by
      refine Nat.lt_of_le_of_ne hle fun hfull => ?_
      rw [fault?, if_pos hfull] at h
      cases h
    refine ⟨.part .done, ?_, fun hshow => by simp at hshow⟩
    rw [act_push_of_lt hlt, framesAfter, levelAfter, if_pos hlt, if_pos hlt, levelReport_succ]
    rfl
  | setPc pc =>
    refine ⟨.part .done, ?_, fun hshow => by simp at hshow⟩
    rw [levelAfter, levelReport_self]
    rfl
  | pop =>
    cases frames with
    | nil => cases h
    | cons top below =>
      refine ⟨.frame top, ?_, fun _ => ⟨top, rfl, rfl⟩⟩
      rw [levelAfter, List.length_cons, Nat.add_sub_cancel, levelReport_pred]
      rfl
  | current =>
    cases frames with
    | nil => cases h
    | cons top below =>
      refine ⟨.frame top, ?_, fun _ => ⟨top, rfl, rfl⟩⟩
      rw [levelAfter, levelReport_self]
      rfl
  | edit change =>
    cases frames with
    | nil => cases h
    | cons top below =>
      refine ⟨.part .done, ?_, fun hshow => by simp at hshow⟩
      rw [levelAfter, levelReport_self]
      rfl

/-! ## The thread over a run -/

theorem maxDepth_threadAt (maxDepth : Nat) (steps : List CallStep) (k : Nat) :
    (threadAt maxDepth steps k).maxDepth = maxDepth := by
  induction k with
  | zero => rfl
  | succ k ih =>
    cases h : steps[k]? with
    | none => rwa [threadAt, Action.stateAt_succ_of_none h]
    | some step =>
      rw [threadAt, Action.stateAt_succ h]
      change (act.next (threadAt maxDepth steps k) step).maxDepth = maxDepth
      generalize threadAt maxDepth steps k = thread at ih
      obtain ⟨pc, _, frames⟩ := thread
      rw [next_eq]
      exact ih

/-- The thread in front of a step, told by its program counter and frames. -/
theorem threadAt_eq (maxDepth : Nat) (steps : List CallStep) (k : Nat) :
    threadAt maxDepth steps k =
      ⟨(threadAt maxDepth steps k).pc, maxDepth, (threadAt maxDepth steps k).frames⟩ := by
  have hmax := maxDepth_threadAt maxDepth steps k
  generalize threadAt maxDepth steps k = thread at hmax
  subst hmax
  rfl

theorem threadAt_succ (h : steps[k]? = some step) : threadAt maxDepth steps (k + 1) =
    ⟨step.pcAfter (threadAt maxDepth steps k).pc, maxDepth,
      step.framesAfter maxDepth (threadAt maxDepth steps k).frames⟩ := by
  rw [← next_eq, ← threadAt_eq]
  exact Action.stateAt_succ h

theorem threadAt_succ_of_none (h : steps[k]? = none) :
    threadAt maxDepth steps (k + 1) = threadAt maxDepth steps k :=
  Action.stateAt_succ_of_none h

theorem length_frames (maxDepth : Nat) (steps : List CallStep) (k : Nat) :
    (threadAt maxDepth steps k).frames.length = levelAt maxDepth steps k := by
  induction k with
  | zero => rfl
  | succ k ih =>
    cases h : steps[k]? with
    | none => rw [threadAt_succ_of_none h, levelAt_succ_of_none h, ih]
    | some step => rw [threadAt_succ h, levelAt_succ h, length_framesAfter, ih]

theorem run_getElem? (h : steps[k]? = some step) : (run maxDepth steps)[k]? =
    some (Prod.fst <$> act step (threadAt maxDepth steps k), threadAt maxDepth steps (k + 1)) := by
  rw [run, Action.run_getElem?, h, threadAt, threadAt, Action.stateAt_succ h]
  rfl

theorem frames_threadAt (maxDepth : Nat) (steps : List CallStep) (k : Nat) :
    (threadAt maxDepth steps k).frames =
      (openCalls maxDepth steps k).map (edited maxDepth steps k) := by
  induction k with
  | zero => rfl
  | succ k ih =>
    have hlevels := levels_openCalls maxDepth steps k
    -- frames that a step does not touch keep their edits
    have hsame (hnone : steps[k]?.bind change? = none) (calls : List (Nat × Frame)) :
        calls.map (edited maxDepth steps (k + 1)) = calls.map (edited maxDepth steps k) :=
      List.map_congr_left fun _ _ => edited_succ_of_eq (.inl hnone)
    cases h : steps[k]? with
    | none =>
      rw [threadAt_succ_of_none h, openCalls_succ_of_none h hlevels, hsame (by rw [h]; rfl), ih]
    | some step =>
      rw [threadAt_succ h, openCalls_step h hlevels]
      cases step with
      | push frame =>
        simp only [framesAfter, callsAfter, length_frames]
        split
        · rw [List.map_cons, edited_self_succ, hsame (by rw [h]; rfl), ih]
        · rw [hsame (by rw [h]; rfl), ih]
      | pop =>
        simp only [framesAfter, callsAfter]
        rw [hsame (by rw [h]; rfl), ih, List.map_tail]
      | setPc _ | current =>
        simp only [framesAfter, callsAfter]
        rw [hsame (by rw [h]; rfl), ih]
      | edit change =>
        simp only [framesAfter, callsAfter, ih]
        have hmem : ∀ call ∈ openCalls maxDepth steps k, call.1 < k := fun _ => lt_of_mem_openCalls
        -- the first call stands on the level of the edit, and all others below it
        generalize openCalls maxDepth steps k = calls at hlevels hmem
        cases calls with
        | nil => rfl
        | cons call others =>
          obtain ⟨hfirst, hothers⟩ := levels_cons hlevels
          have hcall := edited_succ_of_edit h (hmem call List.mem_cons_self) hfirst
          rw [List.map_cons, List.map_cons, List.modifyHead_cons, hcall]
          congr 1
          refine (List.map_congr_left fun other hother => edited_succ_of_eq (.inr ?_)).symm
          have := lt_of_levels hothers other hother
          omega

/-! ## Returns -/

/-- Only a push raises the level. -/
theorem framesAfter_of_lt (h : frames.length < step.levelAfter maxDepth frames.length) :
    ∃ frame, step.framesAfter maxDepth frames = frame :: frames := by
  cases step with
  | push frame =>
    by_cases hlt : frames.length < maxDepth
    · exact ⟨frame, if_pos hlt⟩
    · rw [levelAfter, if_neg hlt] at h
      exact absurd h (Nat.lt_irrefl _)
  | pop | setPc _ | current | edit _ =>
    simp only [levelAfter] at h
    omega

/-- Only a pop lowers it. -/
theorem framesAfter_of_gt (h : step.levelAfter maxDepth frames.length < frames.length) :
    step.framesAfter maxDepth frames = frames.tail := by
  cases step with
  | pop => rfl
  | push _ =>
    simp only [levelAfter] at h
    split at h <;> omega
  | setPc _ | current | edit _ =>
    simp only [levelAfter] at h
    omega

/-- A step that leaves more than the frames `below` leaves these as they are. -/
theorem framesAfter_append {upper below : List Frame}
    (h : below.length < step.levelAfter maxDepth (upper ++ below).length) (hupper : upper ≠ []) :
    ∃ upper', upper' ≠ [] ∧ step.framesAfter maxDepth (upper ++ below) = upper' ++ below := by
  obtain ⟨top, middle, rfl⟩ := List.exists_cons_of_ne_nil hupper
  cases step with
  | push frame =>
    simp only [framesAfter]
    split
    · exact ⟨frame :: top :: middle, by simp, rfl⟩
    · exact ⟨top :: middle, hupper, rfl⟩
  | pop =>
    refine ⟨middle, fun hmiddle => ?_, rfl⟩
    simp [levelAfter, hmiddle] at h
  | edit change => exact ⟨change top :: middle, by simp, rfl⟩
  | setPc _ | current => exact ⟨top :: middle, hupper, rfl⟩

/-- While the level stays above that in front of step `j`, the frames that were there then stay
below others and keep as they were. -/
theorem frames_of_stays (hjk : j < k) (hstays : Stays maxDepth steps j k) :
    ∃ upper, upper ≠ [] ∧
      (threadAt maxDepth steps k).frames = upper ++ (threadAt maxDepth steps j).frames := by
  induction k with
  | zero => omega
  | succ k ih =>
    have hlevel : levelAt maxDepth steps j < levelAt maxDepth steps (k + 1) :=
      hstays (k + 1) (Nat.le_refl _) hjk
    rcases Nat.lt_succ_iff_lt_or_eq.mp hjk with hlt | rfl
    · obtain ⟨upper, hupper, hframes⟩ := ih hlt ((stays_succ_iff hlt).mp hstays).1
      cases h : steps[k]? with
      | none => exact ⟨upper, hupper, by rw [threadAt_succ_of_none h, hframes]⟩
      | some step =>
        rw [← length_frames, levelAt_succ h, ← length_frames, hframes] at hlevel
        rw [threadAt_succ h, hframes]
        exact framesAfter_append hlevel hupper
    · cases h : steps[j]? with
      | none => exact absurd (levelAt_succ_of_none h) (Nat.ne_of_gt hlevel)
      | some step =>
        rw [levelAt_succ h, ← length_frames] at hlevel
        obtain ⟨frame, hframe⟩ := framesAfter_of_lt hlevel
        exact ⟨[frame], by simp, by rw [threadAt_succ h, hframe]; rfl⟩

/-- When the level comes back to where it was in front of step `j`, so do the frames. -/
theorem frames_of_return (hjk : j < k) (hstays : Stays maxDepth steps j k)
    (hlevel : levelAt maxDepth steps (k + 1) = levelAt maxDepth steps j) :
    (threadAt maxDepth steps (k + 1)).frames = (threadAt maxDepth steps j).frames := by
  obtain ⟨upper, hupper, hframes⟩ := frames_of_stays hjk hstays
  have hlower : levelAt maxDepth steps (k + 1) < levelAt maxDepth steps k :=
    hlevel ▸ hstays k (Nat.le_refl k) hjk
  cases h : steps[k]? with
  | none => exact absurd (levelAt_succ_of_none h) (Nat.ne_of_lt hlower)
  | some step =>
    obtain ⟨top, middle, rfl⟩ := List.exists_cons_of_ne_nil hupper
    rw [levelAt_succ h, ← length_frames] at hlower
    have hafter : (threadAt maxDepth steps (k + 1)).frames =
        middle ++ (threadAt maxDepth steps j).frames := by
      rw [threadAt_succ h]
      exact (framesAfter_of_gt hlower).trans (hframes ▸ rfl)
    have hlength := congrArg List.length hafter
    rw [length_frames, hlevel, List.length_append, length_frames] at hlength
    have hmiddle : middle = [] := List.eq_nil_of_length_eq_zero (by omega)
    rw [hafter, hmiddle, List.nil_append]

/-! ## Answers and reports -/

theorem threadAt_succ_of_fault (h : steps[k]? = some step)
    (hfault : fault? maxDepth (levelAt maxDepth steps k) step = some fault) :
    act step (threadAt maxDepth steps k) = .error fault ∧
      threadAt maxDepth steps (k + 1) = threadAt maxDepth steps k := by
  have hact : act step (threadAt maxDepth steps k) = .error fault := by
    rw [threadAt_eq]
    exact act_of_fault (by rwa [length_frames])
  refine ⟨hact, ?_⟩
  rw [threadAt, Action.stateAt_succ h]
  exact Action.next_of_error hact

theorem act_threadAt_of_no_fault (h : steps[k]? = some step)
    (hfault : fault? maxDepth (levelAt maxDepth steps k) step = none) : ∃ reply,
      act step (threadAt maxDepth steps k) =
        .ok ((reply, levelReport (levelAt maxDepth steps k) (levelAt maxDepth steps (k + 1))),
          threadAt maxDepth steps (k + 1)) ∧
      ((step = pop ∨ step = current) → ∃ top,
        (threadAt maxDepth steps k).frames.head? = some top ∧ reply = .frame top) := by
  have hlevel := length_frames maxDepth steps k
  have hle : (threadAt maxDepth steps k).frames.length ≤ maxDepth :=
    hlevel ▸ levelAt_le maxDepth steps k
  rw [← hlevel] at hfault
  obtain ⟨reply, hact, hshown⟩ := act_of_no_fault hle hfault
  refine ⟨reply, ?_, hshown⟩
  rw [threadAt_eq, hact, hlevel, ← levelAt_succ h, ← threadAt_eq, threadAt, threadAt,
    Action.stateAt_succ h]

/-- Every step reports how it moves the level, be it that it fails and does not move it. -/
theorem reported_act (h : steps[k]? = some step) :
    reported (Prod.fst <$> act step (threadAt maxDepth steps k)) =
      levelReport (levelAt maxDepth steps k) (levelAt maxDepth steps (k + 1)) := by
  cases hfault : fault? maxDepth (levelAt maxDepth steps k) step with
  | some fault =>
    obtain ⟨hact, hsame⟩ := threadAt_succ_of_fault h hfault
    rw [← length_frames maxDepth steps (k + 1), hsame, length_frames, levelReport_self, hact]
    rfl
  | none =>
    obtain ⟨reply, hact, -⟩ := act_threadAt_of_no_fault h hfault
    rw [hact]
    rfl

theorem run_error_iff (h : steps[k]? = some step) :
    (∃ after, (run maxDepth steps)[k]? = some (.error fault, after)) ↔
      fault? maxDepth (levelAt maxDepth steps k) step = some fault := by
  rw [run_getElem? h]
  cases hfault : fault? maxDepth (levelAt maxDepth steps k) step with
  | some fault' =>
    rw [(threadAt_succ_of_fault h hfault).1]
    simp [Functor.map, Except.map]
  | none =>
    obtain ⟨reply, hact, -⟩ := act_threadAt_of_no_fault h hfault
    simp [hact, Functor.map, Except.map]

/-- Where the run has an outcome, it is that of a step. -/
theorem exists_step_of_run {outcome : Except MachineError (ThreadReply × List Event) × Thread}
    (h : (run maxDepth steps)[k]? = some outcome) : ∃ step, steps[k]? = some step ∧
      outcome = (Prod.fst <$> act step (threadAt maxDepth steps k),
        threadAt maxDepth steps (k + 1)) := by
  cases hstep : steps[k]? with
  | none => simp [run, Action.run_getElem?, hstep] at h
  | some step =>
    rw [run_getElem? hstep] at h
    exact ⟨step, rfl, (Option.some.inj h).symm⟩

theorem after_of_run_error {after : Thread}
    (h : (run maxDepth steps)[k]? = some (.error fault, after)) :
    after = threadAt maxDepth steps k := by
  obtain ⟨step, hstep, houtcome⟩ := exists_step_of_run h
  have hfault := (run_error_iff hstep).mp ⟨after, h⟩
  rw [(Prod.mk.inj houtcome).2, (threadAt_succ_of_fault hstep hfault).2]

theorem run_ok {reply : ThreadReply} {events : List Event} {after : Thread}
    (h : (run maxDepth steps)[k]? = some (.ok (reply, events), after)) :
    ∃ step, steps[k]? = some step ∧ after = threadAt maxDepth steps (k + 1) ∧
      events = levelReport (levelAt maxDepth steps k) (levelAt maxDepth steps (k + 1)) ∧
      ((step = pop ∨ step = current) → ∃ top,
        (threadAt maxDepth steps k).frames.head? = some top ∧ reply = .frame top) := by
  obtain ⟨step, hstep, houtcome⟩ := exists_step_of_run h
  obtain ⟨hreply, hafter⟩ := Prod.mk.inj houtcome
  cases hfault : fault? maxDepth (levelAt maxDepth steps k) step with
  | some fault =>
    rw [(threadAt_succ_of_fault hstep hfault).1] at hreply
    cases hreply
  | none =>
    obtain ⟨reply', hact, hshown⟩ := act_threadAt_of_no_fault hstep hfault
    rw [hact] at hreply
    cases hreply
    exact ⟨step, hstep, hafter, rfl, hshown⟩

theorem log_eq (maxDepth : Nat) (steps : List CallStep) :
    log maxDepth steps = (List.range steps.length).flatMap fun k =>
      levelReport (levelAt maxDepth steps k) (levelAt maxDepth steps (k + 1)) := by
  rw [log, List.flatMap_def, List.flatMap_def]
  congr 1
  refine List.ext_getElem? fun k => ?_
  rw [List.getElem?_map, List.getElem?_map]
  cases h : steps[k]? with
  | none =>
    have hlength : steps.length ≤ k := List.getElem?_eq_none_iff.mp h
    rw [run, Action.run_getElem?, h, List.getElem?_eq_none (by simpa using hlength)]
    rfl
  | some step =>
    obtain ⟨hlength, -⟩ := List.getElem?_eq_some_iff.mp h
    rw [run_getElem? h, List.getElem?_range hlength, Option.map_some, Option.map_some,
      reported_act h]

end CallStep

end Jvm
