import Jvm.Proofs.Machine.Calls
import Jvm.Proofs.Machine.Work

/-! # Threads in memory

A thread as it lies in memory: its frames in a row with the current one last, and the reports made
so far. Pushing, popping and reporting are done one after the other here, so a call that failed
between them would leave a frame more or less behind, or a report too many. None does: the work for
a call ends with the answer of the call, in the row of the thread after it and with its reports at
the end of the log, or fails in the row that it began with (`CallStep.onRow_row`). -/

namespace Jvm

/-- A thread in memory, with what was reported so far. -/
structure ThreadRow where
  pc : Nat
  maxDepth : Nat
  /-- The current frame is the last one. -/
  frames : Array Frame
  log : List Event

namespace ThreadRow

def start (maxDepth : Nat) : ThreadRow := ⟨0, maxDepth, #[], []⟩

def depth (row : ThreadRow) : Nat := row.frames.size

def report (event : Event) : Work ThreadRow Unit :=
  Work.change fun row => { row with log := row.log ++ [event] }

def push (frame : Frame) : Work ThreadRow Unit := do
  let maxDepth ← Work.look ThreadRow.maxDepth
  let before ← Work.look depth
  if maxDepth ≤ before then Work.fail (.stackOverflow maxDepth)
  else
    Work.change fun row => { row with frames := row.frames.push frame }
    let after ← Work.look depth
    report (.framePushed after)

def top : Work ThreadRow Frame := fun row =>
  match row.frames.back? with
  | some frame => .done frame row
  | none => .failed .emptyStack row

def pop : Work ThreadRow Frame := do
  let frame ← top
  Work.change fun row => { row with frames := row.frames.pop }
  let after ← Work.look depth
  report (.framePopped after)
  return frame

/-- Puts a frame in the place of the current one. -/
def setTop (frame : Frame) : Work ThreadRow Unit := fun row =>
  if h : row.frames.size - 1 < row.frames.size then
    .done () { row with frames := row.frames.set (row.frames.size - 1) frame h }
  else .stuck

end ThreadRow

/-- A thread in memory behind the reports of `log`. -/
def Thread.row (thread : Thread) (log : List Event) : ThreadRow :=
  ⟨thread.pc, thread.maxDepth, thread.frames.reverse.toArray, log⟩

namespace ThreadRow

open Work

variable {pc maxDepth : Nat} {frame current : Frame} {frames below : List Frame} {log : List Event}

theorem push_row_of_lt (h : frames.length < maxDepth) :
    push frame (Thread.row ⟨pc, maxDepth, frames⟩ log) = .done ()
      (Thread.row ⟨pc, maxDepth, frame :: frames⟩ (log ++ [.framePushed (frames.length + 1)])) := by
  simp [push, report, depth, Thread.row, bind_apply, look_apply, change_apply, Nat.not_le.mpr h]

theorem push_row_of_le (h : maxDepth ≤ frames.length) :
    push frame (Thread.row ⟨pc, maxDepth, frames⟩ log) =
      .failed (.stackOverflow maxDepth) (Thread.row ⟨pc, maxDepth, frames⟩ log) := by
  simp [push, depth, Thread.row, bind_apply, look_apply, fail_apply, h]

theorem top_row_cons : top (Thread.row ⟨pc, maxDepth, current :: below⟩ log) =
    .done current (Thread.row ⟨pc, maxDepth, current :: below⟩ log) := by
  simp [top, Thread.row]

theorem pop_row_cons : pop (Thread.row ⟨pc, maxDepth, current :: below⟩ log) = .done current
    (Thread.row ⟨pc, maxDepth, below⟩ (log ++ [.framePopped below.length])) := by
  simp [pop, top, report, depth, Thread.row, bind_apply, pure_apply, look_apply, change_apply]

theorem setTop_row_cons : setTop frame (Thread.row ⟨pc, maxDepth, current :: below⟩ log) =
    .done () (Thread.row ⟨pc, maxDepth, frame :: below⟩ log) := by
  simp [setTop, Thread.row]

end ThreadRow

namespace CallStep

open ThreadRow
open Work (bind_apply change_apply)

/-- The work that a call means. -/
def onRow : CallStep → Work ThreadRow ThreadReply
  | push frame => do
    ThreadRow.push frame
    return .part .done
  | pop => do
    let frame ← ThreadRow.pop
    return .frame frame
  | setPc pc => do
    Work.change fun row => { row with pc }
    return .part .done
  | current => do
    let frame ← top
    return .frame frame
  | edit work => do
    let frame ← top
    setTop (work frame)
    return .part .done

/-- What a call does to a thread and to the log in front of it. -/
def logged : Action CallStep (Thread × List Event) ThreadReply := fun step (thread, earlier) =>
  (fun ((reply, events), after) => (reply, after, earlier ++ events)) <$> act step thread

variable {step : CallStep} {thread : Thread} {earlier : List Event}

theorem logged_of_ok {reply : ThreadReply} {events : List Event} {after : Thread}
    (h : act step thread = .ok ((reply, events), after)) :
    logged step (thread, earlier) = .ok (reply, after, earlier ++ events) := by
  rw [logged, h]
  rfl

theorem logged_of_error {fault : MachineError} (h : act step thread = .error fault) :
    logged step (thread, earlier) = .error fault := by
  rw [logged, h]
  rfl

/-- The thread and the log in memory. -/
def inMemory (state : Thread × List Event) : ThreadRow := state.1.row state.2

/-- The work for a call ends as the call does, and leaves frames and log alone if it fails. -/
theorem onRow_row (step : CallStep) (state : Thread × List Event) :
    step.onRow (inMemory state) = .ofAnswer inMemory state (logged step state) := by
  obtain ⟨⟨pc, maxDepth, frames⟩, earlier⟩ := state
  cases step with
  | push frame =>
    by_cases h : frames.length < maxDepth
    · rw [onRow, inMemory, bind_apply, push_row_of_lt h, logged_of_ok (act_push_of_lt h)]
      rfl
    · rw [onRow, inMemory, bind_apply, push_row_of_le (Nat.not_lt.mp h),
        logged_of_error (act_push_of_le (Nat.not_lt.mp h))]
      rfl
  | pop =>
    cases frames with
    | nil => rfl
    | cons current below =>
      rw [onRow, inMemory, bind_apply, pop_row_cons]
      rfl
  | setPc pc' =>
    have hlogged : logged (setPc pc') (⟨pc, maxDepth, frames⟩, earlier) =
        .ok (.part .done, ⟨pc', maxDepth, frames⟩, earlier ++ []) := rfl
    rw [hlogged, List.append_nil]
    rfl
  | current =>
    cases frames with
    | nil => rfl
    | cons current below =>
      have hlogged : logged .current (⟨pc, maxDepth, current :: below⟩, earlier) =
          .ok (.frame current, ⟨pc, maxDepth, current :: below⟩, earlier ++ []) := rfl
      rw [hlogged, List.append_nil, onRow, inMemory, bind_apply, top_row_cons]
      rfl
  | edit work =>
    cases frames with
    | nil => rfl
    | cons current below =>
      have hlogged : logged (edit work) (⟨pc, maxDepth, current :: below⟩, earlier) =
          .ok (.part .done, ⟨pc, maxDepth, work current :: below⟩, earlier ++ []) := rfl
      rw [hlogged, List.append_nil, onRow, inMemory, bind_apply, top_row_cons]
      simp only [bind_apply, setTop_row_cons]
      rfl

/-- Every call adds its reports to the log, a failing one none. -/
theorem next_logged (step : CallStep) (thread : Thread) (earlier : List Event) :
    logged.next (thread, earlier) step =
      (act.next thread step, earlier ++ reported (Prod.fst <$> act step thread)) := by
  cases h : act step thread with
  | ok answer =>
    rw [Action.next_of_ok h, Action.next_of_ok (logged_of_ok h)]
    rfl
  | error fault =>
    rw [Action.next_of_error h, Action.next_of_error (logged_of_error h)]
    simp [reported, Functor.map, Except.map]

theorem fst_logged (step : CallStep) (thread : Thread) (earlier : List Event) :
    Prod.fst <$> logged step (thread, earlier) = Prod.fst <$> (Prod.fst <$> act step thread) := by
  rw [logged]
  cases act step thread <;> rfl

theorem run_logged (thread : Thread) (earlier : List Event) (steps : List CallStep) :
    logged.run (thread, earlier) steps = (act.run thread steps).mapIdx fun k outcome =>
      (Prod.fst <$> outcome.1, outcome.2, earlier ++
        ((act.run thread steps).take (k + 1)).flatMap fun outcome => reported outcome.1) := by
  induction steps generalizing thread earlier with
  | nil => rfl
  | cons step steps ih =>
    rw [Action.run_cons, Action.run_cons, List.mapIdx_cons, fst_logged, next_logged, ih]
    simp [List.append_assoc]

/-- The run of a list of calls on a thread without frames, unless one of them gets stuck. -/
def runOnRow (maxDepth : Nat) (steps : List CallStep) :
    Option (List (Except MachineError ThreadReply × ThreadRow)) :=
  Work.run onRow (.start maxDepth) steps

theorem runOnRow_eq (maxDepth : Nat) (steps : List CallStep) : runOnRow maxDepth steps =
    some ((logged.run (.start maxDepth, []) steps).map (Prod.map id inMemory)) := by
  have hstart : ThreadRow.start maxDepth = inMemory (.start maxDepth, []) := rfl
  rw [runOnRow, hstart]
  exact Work.run_eq_of_forall onRow_row

/-- The rows of a run hold its threads, each with the log up to there. -/
theorem rows_eq (maxDepth : Nat) (steps : List CallStep) :
    (logged.run (.start maxDepth, []) steps).map (Prod.map id inMemory) =
      (run maxDepth steps).mapIdx fun k outcome =>
        (Prod.fst <$> outcome.1, outcome.2.row (log maxDepth (steps.take (k + 1)))) := by
  refine List.ext_getElem? fun k => ?_
  rw [run_logged, List.getElem?_map, List.getElem?_mapIdx, List.getElem?_mapIdx, log, run, run,
    Action.run_take]
  cases (act.run (.start maxDepth) steps)[k]? <;> rfl

end CallStep

end Jvm
