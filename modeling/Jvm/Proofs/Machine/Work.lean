import Jvm.Proofs.Machine.Runs

/-! # Work in memory

A part of the machine lies in memory, and work changes it place by place. Such work can touch a
place that is not there, and what fails can have changed the memory before; nothing puts that back
(`Work.run`). Work that ends as a step does, in the memory of the state behind the step, runs as
the steps do (`Work.run_eq`). Then nothing gets stuck, and a failure leaves the memory as it was
(`Work.kept_of_run_failed`). -/

namespace Jvm

namespace Work

/-- What comes of work. -/
inductive Result (σ α : Type) where
  | done (value : α) (memory : σ)
  /-- Ended early, with the memory as it was by then. -/
  | failed (fault : MachineError) (memory : σ)
  /-- Touched a place that is not there, or made a number that does not fit in a word. -/
  | stuck

end Work

/-- Work on one kind of memory. -/
def Work (σ α : Type) : Type := σ → Work.Result σ α

namespace Work

variable {ι σ τ α β : Type}

instance : Monad (Work σ) where
  pure value := fun memory => .done value memory
  bind work more := fun memory =>
    match work memory with
    | .done value after => more value after
    | .failed fault after => .failed fault after
    | .stuck => .stuck

theorem pure_apply (value : α) (memory : σ) : (pure value : Work σ α) memory = .done value memory :=
  rfl

theorem bind_apply (work : Work σ α) (more : α → Work σ β) (memory : σ) : (work >>= more) memory =
    match work memory with
    | .done value after => more value after
    | .failed fault after => .failed fault after
    | .stuck => .stuck := rfl

def look (f : σ → α) : Work σ α := fun memory => .done (f memory) memory

def change (f : σ → σ) : Work σ Unit := fun memory => .done () (f memory)

def fail (fault : MachineError) : Work σ α := fun memory => .failed fault memory

theorem look_apply (f : σ → α) (memory : σ) : look f memory = .done (f memory) memory := rfl

theorem change_apply (f : σ → σ) (memory : σ) : change f memory = .done () (f memory) := rfl

theorem fail_apply (fault : MachineError) (memory : σ) :
    (fail fault : Work σ α) memory = .failed fault memory := rfl

/-- The run of a list of steps, unless one of them gets stuck. The step behind one that failed goes
on with the memory that it left. -/
def run (work : ι → Work σ α) (memory : σ) : List ι → Option (List (Except MachineError α × σ))
  | [] => some []
  | step :: steps =>
    match work step memory with
    | .done value after => (run work after steps).map ((.ok value, after) :: ·)
    | .failed fault after => (run work after steps).map ((.error fault, after) :: ·)
    | .stuck => none

/-- The end in memory of a step that met the state. -/
def Result.ofAnswer (inMemory : σ → τ) (state : σ) : Except MachineError (α × σ) → Result τ α
  | .ok (value, after) => .done value (inMemory after)
  | .error fault => .failed fault (inMemory state)

theorem Result.ofAnswer_ok (inMemory : σ → τ) (state after : σ) (value : α) :
    Result.ofAnswer inMemory state (.ok (value, after)) = .done value (inMemory after) := rfl

theorem Result.ofAnswer_error (inMemory : σ → τ) (state : σ) (fault : MachineError) :
    (Result.ofAnswer inMemory state (.error fault) : Result τ α) = .failed fault (inMemory state) :=
  rfl

/-- Work goes on to answer with something made of its value. -/
theorem bind_pure_of_ofAnswer {inMemory : σ → τ} {state : σ} {work : Work τ α}
    {found : Except MachineError (α × σ)}
    (h : work (inMemory state) = .ofAnswer inMemory state found) (f : α → β) :
    (work >>= fun value => pure (f value)) (inMemory state) =
      .ofAnswer inMemory state (Prod.map f id <$> found) := by
  rw [bind_apply, h]
  cases found <;> rfl

variable {work : ι → Work τ α} {action : Action ι σ α} {inMemory : σ → τ} {state : σ}
  {steps : List ι}

/-- Steps whose work ends as they do run in memory as they do, as long as what the work relies on
holds at the start and is kept by every step that succeeds. -/
theorem run_eq (keeps : σ → Prop) (hstart : keeps state)
    (hstep : ∀ step before reply after, keeps before →
      action step before = .ok (reply, after) → keeps after)
    (hwork : ∀ step before, keeps before →
      work step (inMemory before) = .ofAnswer inMemory before (action step before)) :
    run work (inMemory state) steps =
      some ((action.run state steps).map (Prod.map id inMemory)) := by
  induction steps generalizing state with
  | nil => rfl
  | cons step steps ih =>
    have hend := hwork step state hstart
    cases h : action step state with
    | ok answer =>
      obtain ⟨reply, after⟩ := answer
      rw [h, Result.ofAnswer_ok] at hend
      simp [run, Action.run, hend, h, ih (hstep step state reply after hstart h)]
    | error fault =>
      rw [h, Result.ofAnswer_error] at hend
      simp [run, Action.run, hend, h, ih hstart]

theorem run_eq_of_forall
    (hwork : ∀ step before, work step (inMemory before) =
      .ofAnswer inMemory before (action step before)) :
    run work (inMemory state) steps =
      some ((action.run state steps).map (Prod.map id inMemory)) :=
  run_eq (fun _ => True) trivial (fun _ _ _ _ _ _ => trivial) fun step before _ =>
    hwork step before

/-- What a failing step left is what the step in front of it did, or the memory at the start. -/
theorem kept_of_run_failed {k : Nat} {fault : MachineError} {after : τ}
    (h : ((action.run state steps).map (Prod.map id inMemory))[k]? = some (.error fault, after)) :
    (inMemory state :: ((action.run state steps).map (Prod.map id inMemory)).map Prod.snd)[k]? =
      some after := by
  simp only [List.getElem?_map, Option.map_eq_some_iff, Prod.map, Prod.mk.injEq] at h
  obtain ⟨⟨_, left⟩, houtcome, rfl, rfl⟩ := h
  have hbefore := congrArg (Option.map inMemory) (Action.before_of_run_error houtcome)
  simpa [List.map_map, Function.comp_def, ← List.getElem?_map] using hbefore

end Work

end Jvm
