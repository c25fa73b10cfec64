import Jvm.Machine.Run

/-! # Runs step by step

A step of a run meets the state that the steps in front of it left (`Action.stateAt`), and a failing
step leaves the state that it met (`Action.run_getElem?`). What holds at the start and is kept by
every step that succeeds holds all along (`Action.keeps_of_mem_run`), and two kinds of state of
which one is a view of the other run alike if their steps do (`Action.run_view`). -/

namespace Jvm.Action

variable {ι σ τ α : Type} {action : Action ι σ α} {state : σ} {steps : List ι}

/-- The state behind a step: the one in front of it if the step fails. -/
def next (action : Action ι σ α) (state : σ) (step : ι) : σ :=
  match action step state with
  | .ok (_, after) => after
  | .error _ => state

/-- The state behind the first `k` steps. -/
def stateAt (action : Action ι σ α) (state : σ) (steps : List ι) (k : Nat) : σ :=
  (steps.take k).foldl action.next state

theorem next_of_ok {step : ι} {reply : α} {after : σ} (h : action step state = .ok (reply, after)) :
    action.next state step = after := by
  simp [next, h]

theorem next_of_error {step : ι} {fault : MachineError} (h : action step state = .error fault) :
    action.next state step = state := by
  simp [next, h]

theorem run_cons (step : ι) : action.run state (step :: steps) =
    (Prod.fst <$> action step state, action.next state step) ::
      action.run (action.next state step) steps := by
  cases h : action step state with
  | ok answer => simp [run, next, h, Functor.map, Except.map]
  | error fault => simp [run, next, h, Functor.map, Except.map]

theorem length_run : (action.run state steps).length = steps.length := by
  induction steps generalizing state with
  | nil => simp [run]
  | cons step steps ih => rw [run_cons, List.length_cons, List.length_cons, ih]

theorem run_take (k : Nat) :
    action.run state (steps.take k) = (action.run state steps).take k := by
  induction steps generalizing state k with
  | nil => simp [run]
  | cons step steps ih =>
    cases k with
    | zero => rfl
    | succ k => rw [List.take_succ_cons, run_cons, run_cons, List.take_succ_cons, ih]

theorem stateAt_cons (step : ι) (k : Nat) : action.stateAt state (step :: steps) (k + 1) =
    action.stateAt (action.next state step) steps k := rfl

theorem stateAt_succ {k : Nat} {step : ι} (h : steps[k]? = some step) :
    action.stateAt state steps (k + 1) = action.next (action.stateAt state steps k) step := by
  simp [stateAt, List.take_add_one, h]

/-- There are no states beyond the last step. -/
theorem stateAt_succ_of_none {k : Nat} (h : steps[k]? = none) :
    action.stateAt state steps (k + 1) = action.stateAt state steps k := by
  simp [stateAt, List.take_add_one, h]

theorem run_getElem? (k : Nat) : (action.run state steps)[k]? =
    steps[k]?.map fun step => (Prod.fst <$> action step (action.stateAt state steps k),
      action.next (action.stateAt state steps k) step) := by
  induction steps generalizing state k with
  | nil => simp [run]
  | cons step steps ih =>
    rw [run_cons]
    cases k with
    | zero => simp [stateAt]
    | succ k => simpa [stateAt] using ih k

/-- A step that fails leaves the state that the step in front of it left, or the first state. -/
theorem before_of_run_error {k : Nat} {fault : MachineError} {after : σ}
    (h : (action.run state steps)[k]? = some (.error fault, after)) :
    (state :: (action.run state steps).map Prod.snd)[k]? = some after := by
  induction steps generalizing state k with
  | nil => simp [run] at h
  | cons step steps ih =>
    rw [run_cons] at h ⊢
    cases k with
    | zero =>
      simp only [List.getElem?_cons_zero, Option.some.injEq, Prod.mk.injEq] at h ⊢
      obtain ⟨hfault, rfl⟩ := h
      cases hact : action step state with
      | ok answer => simp [hact, Functor.map, Except.map] at hfault
      | error _ => rw [next_of_error hact]
    | succ k => exact ih h

/-- What the steps that succeed keep holds all along. -/
theorem keeps_stateAt (keeps : σ → Prop) (hstart : keeps state)
    (hstep : ∀ step before reply after, keeps before →
      action step before = .ok (reply, after) → keeps after) (k : Nat) :
    keeps (action.stateAt state steps k) := by
  induction k with
  | zero => simpa [stateAt] using hstart
  | succ k ih =>
    cases hk : steps[k]? with
    | none => rwa [stateAt_succ_of_none hk]
    | some step =>
      rw [stateAt_succ hk]
      cases h : action step (action.stateAt state steps k) with
      | ok answer =>
        rw [next_of_ok h]
        exact hstep step _ _ _ ih h
      | error fault =>
        rw [next_of_error h]
        exact ih

theorem keeps_of_mem_run (keeps : σ → Prop) (hstart : keeps state)
    (hstep : ∀ step before reply after, keeps before →
      action step before = .ok (reply, after) → keeps after) :
    ∀ outcome ∈ action.run state steps, keeps outcome.2 := by
  intro outcome hmem
  obtain ⟨k, hk⟩ := List.mem_iff_getElem?.mp hmem
  rw [run_getElem?, Option.map_eq_some_iff] at hk
  obtain ⟨step, hstep', rfl⟩ := hk
  have hkept : keeps (action.stateAt state steps (k + 1)) :=
    keeps_stateAt keeps hstart hstep (k + 1)
  rwa [stateAt_succ hstep'] at hkept

/-- A run on what is seen of the states answers as the run on the states does. -/
theorem run_view {action' : Action ι τ α} {view : σ → τ} (keeps : σ → Prop) (hstart : keeps state)
    (hstep : ∀ step before reply after, keeps before →
      action step before = .ok (reply, after) → keeps after)
    (hview : ∀ step before, keeps before →
      action' step (view before) = Prod.map id view <$> action step before) :
    action'.run (view state) steps = (action.run state steps).map (Prod.map id view) := by
  induction steps generalizing state with
  | nil => simp [run]
  | cons step steps ih =>
    have hsame := hview step state hstart
    cases h : action step state with
    | ok answer =>
      obtain ⟨reply, after⟩ := answer
      have hafter : keeps after := hstep step state reply after hstart h
      simp only [h, Functor.map, Except.map, Prod.map, id] at hsame
      simp only [run, h, hsame, ih hafter, List.map_cons, Prod.map, id]
    | error fault =>
      simp only [h, Functor.map, Except.map] at hsame
      simp only [run, h, hsame, ih hstart, List.map_cons, Prod.map, id]

end Jvm.Action
