import Jvm.Proofs.Machine.Locals
import Jvm.Proofs.Machine.ThreadRow

/-! # Bounded stacks of isolated frames

A run of calls is one of a bounded stack of frames that do not touch one another, and so it is in
memory (`CallStep.isBoundedLifo`). What else can be done with a thread comes down to calls
(`ThreadStep.exists_calls`), so its runs are bounded as well and leave the frames alone that are
below the current one (`ThreadStep.run_bounded`). -/

namespace Jvm

namespace CallStep

/-- The lines of the log on a step, told from the number of frames in front of it and behind it. -/
def levelLines (before after : Nat) : List LogLine :=
  if before < after then [⟨.trace, "pushed frame", [("depth", toString after)]⟩]
  else if after < before then [⟨.trace, "popped frame", [("depth", toString after)]⟩]
  else []

theorem map_line_levelReport (before after : Nat) :
    (levelReport before after).map Event.line = levelLines before after := by
  unfold levelReport levelLines
  split
  · rfl
  · split <;> rfl

/-- A run of calls on a thread, which starts without frames, is one of a bounded stack of frames
that do not touch one another. -/
structure IsBoundedLifo (maxDepth : Nat) (steps : List CallStep) : Prop where
  /-- The frames are those pushed and not popped, latest first, each with its own edits. -/
  frames_eq (k : Nat) : (threadAt maxDepth steps k).frames =
    (openCalls maxDepth steps k).map (edited maxDepth steps k)
  /-- A frame is the current one, and gets the edits, where the level is just above that on which it
  was pushed. -/
  current_iff (k : Nat) (call : Nat × Frame) (h : call ∈ openCalls maxDepth steps k) :
    (openCalls maxDepth steps k).head? = some call ↔
      levelAt maxDepth steps k = levelAt maxDepth steps call.1 + 1
  depth_eq (k : Nat) : (threadAt maxDepth steps k).depth = levelAt maxDepth steps k
  depth_le (k : Nat) : (threadAt maxDepth steps k).depth ≤ maxDepth
  length_run : (run maxDepth steps).length = steps.length
  /-- A push fails where the thread is as deep as it may be, a step on the current frame where there
  is none. -/
  error_iff (k : Nat) (step : CallStep) (fault : MachineError) (h : steps[k]? = some step) :
    (∃ after, (run maxDepth steps)[k]? = some (.error fault, after)) ↔
      step.fault? maxDepth (threadAt maxDepth steps k).depth = some fault
  /-- A step that fails leaves the frames and the program counter as they were. -/
  after_error (k : Nat) (fault : MachineError) (after : Thread)
    (h : (run maxDepth steps)[k]? = some (.error fault, after)) :
    after = threadAt maxDepth steps k
  /-- A step that succeeds leaves the thread that the next one finds, and reports how it moves the
  depth. -/
  after_ok (k : Nat) (reply : ThreadReply) (events : List Event) (after : Thread)
    (h : (run maxDepth steps)[k]? = some (.ok (reply, events), after)) :
    after = threadAt maxDepth steps (k + 1) ∧
      events = levelReport (threadAt maxDepth steps k).depth after.depth
  /-- What is popped or looked at is the current frame. -/
  shown (k : Nat) (reply : ThreadReply) (events : List Event) (after : Thread)
    (h : (run maxDepth steps)[k]? = some (.ok (reply, events), after))
    (hstep : steps[k]? = some pop ∨ steps[k]? = some current) :
    ∃ top, (threadAt maxDepth steps k).frames.head? = some top ∧ reply = .frame top
  /-- Once a callee has returned, the frames are as they were when it was pushed, whatever was done
  above them. -/
  returned (j k : Nat) (callee : Frame) (hcall : steps[j]? = some (push callee)) (hjk : j < k)
    (hstays : Stays maxDepth steps j k) (hreturn : steps[k]? = some pop)
    (hlevel : levelAt maxDepth steps (k + 1) = levelAt maxDepth steps j) :
    (threadAt maxDepth steps (k + 1)).frames = (threadAt maxDepth steps j).frames ∧
      (threadAt maxDepth steps (k + 1)).current = (threadAt maxDepth steps j).current
  /-- The caller is the second frame, that of the second open call. -/
  caller?_eq (k : Nat) :
    (threadAt maxDepth steps k).caller? = (threadAt maxDepth steps k).frames[1]? ∧
      (threadAt maxDepth steps k).caller? =
        (openCalls maxDepth steps k)[1]?.map (edited maxDepth steps k)
  pc_start : (threadAt maxDepth steps 0).pc = 0
  pc_succ (k : Nat) (step : CallStep) (h : steps[k]? = some step) :
    (threadAt maxDepth steps (k + 1)).pc = step.pcAfter (threadAt maxDepth steps k).pc
  /-- The log tells the depths that the thread went through. -/
  log_eq : log maxDepth steps = (List.range steps.length).flatMap fun k =>
    levelReport (threadAt maxDepth steps k).depth (threadAt maxDepth steps (k + 1)).depth
  lines_eq : (log maxDepth steps).map Event.line = (List.range steps.length).flatMap fun k =>
    levelLines (threadAt maxDepth steps k).depth (threadAt maxDepth steps (k + 1)).depth
  /-- In memory, where frames and log are changed one after the other and nothing is put back, the
  run is the same, and the row behind a step that fails is the one in front of it, log included. -/
  in_memory : ∃ rows, runOnRow maxDepth steps = some rows ∧
    (rows = (run maxDepth steps).mapIdx fun k outcome =>
      (Prod.fst <$> outcome.1, outcome.2.row (log maxDepth (steps.take (k + 1))))) ∧
    ∀ (k : Nat) fault row, rows[k]? = some (.error fault, row) →
      (ThreadRow.start maxDepth :: rows.map Prod.snd)[k]? = some row

theorem isBoundedLifo (maxDepth : Nat) (steps : List CallStep) : IsBoundedLifo maxDepth steps where
  frames_eq := frames_threadAt maxDepth steps
  current_iff _ _ h := head?_openCalls_iff h
  depth_eq := length_frames maxDepth steps
  depth_le k := by
    rw [Thread.depth, length_frames]
    exact levelAt_le maxDepth steps k
  length_run := Action.length_run
  error_iff k step fault h := by
    rw [Thread.depth, length_frames]
    exact run_error_iff h
  after_error k fault after h := after_of_run_error h
  after_ok k reply events after h := by
    obtain ⟨-, -, rfl, hevents, -⟩ := run_ok h
    refine ⟨rfl, ?_⟩
    rw [Thread.depth, Thread.depth, length_frames, length_frames]
    exact hevents
  shown k reply events after h hstep := by
    obtain ⟨step, hk, -, -, hshown⟩ := run_ok h
    exact hshown (by simpa [hk] using hstep)
  returned j k callee _ hjk hstays _ hlevel := by
    have hframes := frames_of_return hjk hstays hlevel
    exact ⟨hframes, by rw [Thread.current, hframes, Thread.current]⟩
  caller?_eq k := ⟨rfl, by rw [Thread.caller?, frames_threadAt, List.getElem?_map]⟩
  pc_start := rfl
  pc_succ k step h := by rw [threadAt_succ h]
  log_eq := by simp only [Thread.depth, length_frames, log_eq]
  lines_eq := by
    simp only [Thread.depth, length_frames, log_eq, List.map_flatMap, map_line_levelReport]
  in_memory := ⟨_, runOnRow_eq maxDepth steps, rows_eq maxDepth steps,
    fun k fault row hfault => Work.kept_of_run_failed hfault⟩

end CallStep

/-! ## Every step on a thread is such a call -/

namespace ThreadStep

open CallStep (reported)

/-- The step does to the thread what the call does, and reports the same. -/
def MovesAs (step : ThreadStep) (call : CallStep) (thread : Thread) : Prop :=
  ThreadStep.act.next thread step = CallStep.act.next thread call ∧
    reported (Prod.fst <$> ThreadStep.act step thread) =
      reported (Prod.fst <$> CallStep.act call thread)

variable {step : ThreadStep} {thread : Thread}

theorem movesAs_of_eq {call : CallStep}
    (h : ThreadStep.act step thread = CallStep.act call thread) : step.MovesAs call thread := by
  refine ⟨?_, by rw [h]⟩
  rw [Action.next, Action.next, h]

/-- A look at the current frame changes and reports nothing, be there one or not. -/
theorem movesAs_current (hnext : ThreadStep.act.next thread step = thread)
    (hreported : reported (Prod.fst <$> ThreadStep.act step thread) = []) :
    step.MovesAs .current thread := by
  obtain ⟨pc, maxDepth, frames⟩ := thread
  cases frames <;> exact ⟨hnext, hreported⟩

theorem edit_cons {α : Type} (work : Frame → Except MachineError (α × Frame)) (pc maxDepth : Nat)
    (top : Frame) (below : List Frame) : Thread.edit ⟨pc, maxDepth, top :: below⟩ work =
      work top >>= fun answer => .ok (answer.1, ⟨pc, maxDepth, answer.2 :: below⟩) := rfl

/-- A piece of work on the current frame that reports nothing is an edit: none where it fails. -/
theorem exists_movesAs_edit
    {work : Frame → Except MachineError ((ThreadReply × List Event) × Frame)}
    (h : ThreadStep.act step thread = thread.edit work)
    (hsilent : ∀ frame answer, work frame = .ok answer → answer.1.2 = []) :
    ∃ call, step.MovesAs call thread := by
  refine ⟨.edit fun frame => ((work frame).toOption.map Prod.snd).getD frame, ?_⟩
  obtain ⟨pc, maxDepth, frames⟩ := thread
  cases frames with
  | nil => exact movesAs_of_eq h
  | cons top below =>
    rw [MovesAs, CallStep.next_eq, CallStep.framesAfter, List.modifyHead_cons]
    rw [edit_cons] at h
    cases hwork : work top with
    | error fault =>
      have hact : ThreadStep.act step ⟨pc, maxDepth, top :: below⟩ = .error fault := by
        rw [h, hwork]
        rfl
      rw [Action.next_of_error hact, hact]
      exact ⟨rfl, rfl⟩
    | ok answer =>
      obtain ⟨⟨reply, events⟩, frame⟩ := answer
      obtain rfl : events = [] := hsilent top _ hwork
      have hact : ThreadStep.act step ⟨pc, maxDepth, top :: below⟩ =
          .ok ((reply, []), ⟨pc, maxDepth, frame :: below⟩) := by
        rw [h, hwork]
        rfl
      rw [Action.next_of_ok hact, hact]
      exact ⟨rfl, rfl⟩

/-- A frame that there is not cannot be pushed. -/
theorem exists_movesAs_pushing {frame : Except MachineError Frame}
    (h : ThreadStep.act step thread = pushing thread frame) : ∃ call, step.MovesAs call thread := by
  cases frame with
  | ok frame => exact ⟨.push frame, movesAs_of_eq h⟩
  | error fault =>
    exact ⟨.current, movesAs_current (Action.next_of_error h) (by rw [h]; rfl)⟩

theorem exists_movesAs (step : ThreadStep) (thread : Thread) :
    ∃ call, step.MovesAs call thread := by
  cases step with
  | pushFrame _ _ | pushMethod _ _ | pushCopy => exact exists_movesAs_pushing rfl
  | popFrame => exact ⟨.pop, movesAs_of_eq rfl⟩
  | current => exact ⟨.current, movesAs_of_eq rfl⟩
  | setPc pc => exact ⟨.setPc pc, movesAs_of_eq rfl⟩
  | caller | frames | isEmpty | maxDepth => exact ⟨.current, movesAs_current rfl rfl⟩
  | sameAsCaller =>
    obtain ⟨pc, maxDepth, frames⟩ := thread
    cases frames <;> exact ⟨.current, movesAs_current rfl rfl⟩
  | onLocals step | onStack step =>
    refine exists_movesAs_edit rfl fun frame answer hwork => ?_
    obtain ⟨_, -, hanswer⟩ := bind_eq_ok_iff.mp hwork
    cases hanswer
    rfl

/-- So every run of steps on a thread goes through the threads, and reports what, some run of calls
does. -/
theorem exists_calls (thread : Thread) (steps : List ThreadStep) : ∃ calls : List CallStep,
    calls.length = steps.length ∧
    (∀ k, ThreadStep.act.stateAt thread steps k = CallStep.act.stateAt thread calls k) ∧
    (ThreadStep.act.run thread steps).map (fun outcome => reported outcome.1) =
      (CallStep.act.run thread calls).map fun outcome => reported outcome.1 := by
  induction steps generalizing thread with
  | nil => exact ⟨[], rfl, fun _ => by simp [Action.stateAt], rfl⟩
  | cons step steps ih =>
    obtain ⟨call, hnext, hreported⟩ := exists_movesAs step thread
    obtain ⟨calls, hlength, hstates, hreports⟩ := ih (ThreadStep.act.next thread step)
    refine ⟨call :: calls, congrArg Nat.succ hlength, fun k => ?_, ?_⟩
    · cases k with
      | zero => rfl
      | succ k =>
        rw [Action.stateAt_cons, Action.stateAt_cons, hstates, hnext]
    · rw [Action.run_cons, Action.run_cons, List.map_cons, List.map_cons, hreports, hreported, hnext]

/-- A thread never has more frames than it may have, what it reports tells its depths, and as long
as it is deeper than it was, the frames that it had then are still there, below others, and are
those that it comes back to. -/
theorem run_bounded (maxDepth : Nat) (steps : List ThreadStep) :
    let thread := ThreadStep.act.stateAt (.start maxDepth) steps
    (∀ k, (thread k).depth ≤ maxDepth) ∧
    (ThreadStep.act.run (.start maxDepth) steps).flatMap (fun outcome => reported outcome.1) =
      (List.range steps.length).flatMap (fun k =>
        CallStep.levelReport (thread k).depth (thread (k + 1)).depth) ∧
    ∀ j k, j < k → (∀ m ≤ k, j < m → (thread j).depth < (thread m).depth) →
      (∃ upper, upper ≠ [] ∧ (thread k).frames = upper ++ (thread j).frames) ∧
      ((thread (k + 1)).depth = (thread j).depth →
        (thread (k + 1)).frames = (thread j).frames) := by
  intro thread
  obtain ⟨calls, hlength, hstates, hreports⟩ := exists_calls (.start maxDepth) steps
  have hthread (k : Nat) : thread k = CallStep.threadAt maxDepth calls k := hstates k
  have hdepth (k : Nat) : (thread k).depth = CallStep.levelAt maxDepth calls k := by
    rw [hthread]
    exact CallStep.length_frames maxDepth calls k
  refine ⟨fun k => ?_, ?_, fun j k hjk habove => ?_⟩
  · rw [hdepth]
    exact CallStep.levelAt_le maxDepth calls k
  · simp only [hdepth]
    rw [← hlength, ← CallStep.log_eq, CallStep.log, CallStep.run, List.flatMap_def, hreports,
      ← List.flatMap_def]
  · have hstays : CallStep.Stays maxDepth calls j k := by
      intro m hm hjm
      rw [← hdepth, ← hdepth]
      exact habove m hm hjm
    refine ⟨?_, fun hback => ?_⟩
    · rw [hthread, hthread]
      exact CallStep.frames_of_stays hjk hstays
    · rw [hdepth, hdepth] at hback
      rw [hthread, hthread]
      exact CallStep.frames_of_return hjk hstays hback

end ThreadStep

end Jvm
