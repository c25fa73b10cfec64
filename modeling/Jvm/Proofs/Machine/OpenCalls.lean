import Mathlib.Data.List.Basic
import Jvm.Machine.Frame

/-! # Open calls

A thread gets frames and gives them back, and its current frame is looked at or edited in between.
Which calls are open in front of a step is told from the steps alone: the number of frames there
(`CallStep.levelAt`) decides, since a frame stays as long as the level is above the one that it was
pushed on. The open calls stand on the levels one below the other down to the bottom
(`CallStep.levels_openCalls`), and the current one is that on the highest
(`CallStep.head?_openCalls_iff`). -/

namespace Jvm

/-- The calls of a thread: frames come and go, and the current one is looked at or edited in
place. -/
inductive CallStep where
  | push (frame : Frame)
  | pop
  | setPc (pc : Nat)
  | current
  | edit (change : Frame → Frame)

namespace CallStep

/-- The number of frames behind a step, given that in front of it. -/
def levelAfter (maxDepth level : Nat) : CallStep → Nat
  | push _ => if level < maxDepth then level + 1 else level
  | pop => level - 1
  | setPc _ | current | edit _ => level

/-- The number of frames in front of step `k`. -/
def levelAt (maxDepth : Nat) (steps : List CallStep) (k : Nat) : Nat :=
  (steps.take k).foldl (levelAfter maxDepth) 0

/-- From step `j` up to the place in front of step `k` there were always more frames than in front
of step `j`: a frame that step `j` pushed was not popped. -/
def Stays (maxDepth : Nat) (steps : List CallStep) (j k : Nat) : Prop :=
  ∀ m ≤ k, j < m → levelAt maxDepth steps j < levelAt maxDepth steps m

instance (maxDepth : Nat) (steps : List CallStep) (j k : Nat) :
    Decidable (Stays maxDepth steps j k) :=
  inferInstanceAs (Decidable (∀ m ≤ k, j < m → levelAt maxDepth steps j < levelAt maxDepth steps m))

def pushed? : CallStep → Option Frame
  | push frame => some frame
  | _ => none

def change? : CallStep → Option (Frame → Frame)
  | edit change => some change
  | _ => none

/-- The frames pushed in front of step `k` and not popped, latest first, with their steps. -/
def openCalls (maxDepth : Nat) (steps : List CallStep) (k : Nat) : List (Nat × Frame) :=
  (List.range k).reverse.filterMap fun j =>
    if Stays maxDepth steps j k then (steps[j]?.bind pushed?).map (j, ·) else none

/-- The edits behind step `j` and in front of step `k` made on the level of the frame that step `j`
pushed, in their order. -/
def editsOf (maxDepth : Nat) (steps : List CallStep) (j k : Nat) : List (Frame → Frame) :=
  (List.range k).filterMap fun i =>
    if j < i ∧ levelAt maxDepth steps i = levelAt maxDepth steps j + 1 then
      steps[i]?.bind change?
    else none

/-- A frame with all its edits. -/
def edited (maxDepth : Nat) (steps : List CallStep) (k : Nat) (call : Nat × Frame) : Frame :=
  (editsOf maxDepth steps call.1 k).foldl (fun frame change => change frame) call.2

variable {maxDepth j k : Nat} {steps : List CallStep} {step : CallStep}

/-! ## Levels -/

theorem levelAfter_le {level : Nat} (h : level ≤ maxDepth) (step : CallStep) :
    step.levelAfter maxDepth level ≤ maxDepth := by
  cases step with
  | push frame => simp only [levelAfter]; split <;> omega
  | pop => simp only [levelAfter]; omega
  | setPc _ | current | edit _ => exact h

theorem levelAt_succ (h : steps[k]? = some step) :
    levelAt maxDepth steps (k + 1) = step.levelAfter maxDepth (levelAt maxDepth steps k) := by
  simp [levelAt, List.take_add_one, h]

/-- There are no levels beyond the last step. -/
theorem levelAt_succ_of_none (h : steps[k]? = none) :
    levelAt maxDepth steps (k + 1) = levelAt maxDepth steps k := by
  simp [levelAt, List.take_add_one, h]

theorem levelAt_le (maxDepth : Nat) (steps : List CallStep) (k : Nat) :
    levelAt maxDepth steps k ≤ maxDepth := by
  induction k with
  | zero => exact Nat.zero_le maxDepth
  | succ k ih =>
    cases h : steps[k]? with
    | none => exact (levelAt_succ_of_none h).symm ▸ ih
    | some step => exact (levelAt_succ h).symm ▸ levelAfter_le ih step

/-! ## Open calls -/

theorem stays_succ_iff (h : j < k) : Stays maxDepth steps j (k + 1) ↔
    Stays maxDepth steps j k ∧ levelAt maxDepth steps j < levelAt maxDepth steps (k + 1) := by
  refine ⟨fun hstays => ⟨fun m hm => hstays m (by omega), hstays (k + 1) (by omega) (by omega)⟩,
    fun hstays m hm hjm => ?_⟩
  rcases Nat.lt_or_eq_of_le hm with hlt | rfl
  · exact hstays.1 m (by omega) hjm
  · exact hstays.2

theorem stays_self_succ_iff : Stays maxDepth steps k (k + 1) ↔
    levelAt maxDepth steps k < levelAt maxDepth steps (k + 1) := by
  refine ⟨fun hstays => hstays (k + 1) (by omega) (by omega), fun hlt m hm hkm => ?_⟩
  obtain rfl : m = k + 1 := by omega
  exact hlt

/-- A step opens the call that it pushes, and keeps the calls open that stand below the level behind
it. -/
theorem openCalls_succ (maxDepth : Nat) (steps : List CallStep) (k : Nat) :
    openCalls maxDepth steps (k + 1) =
      (if levelAt maxDepth steps k < levelAt maxDepth steps (k + 1) then
        ((steps[k]?.bind pushed?).map (k, ·)).toList else []) ++
      (openCalls maxDepth steps k).filter fun call =>
        levelAt maxDepth steps call.1 < levelAt maxDepth steps (k + 1) := by
  rw [openCalls, openCalls, List.range_succ, List.reverse_append, List.filterMap_append,
    List.filter_filterMap]
  congr 1
  · simp only [List.reverse_singleton, List.filterMap_cons, List.filterMap_nil, stays_self_succ_iff]
    by_cases hlt : levelAt maxDepth steps k < levelAt maxDepth steps (k + 1)
    · simp only [if_pos hlt]
      cases steps[k]?.bind pushed? <;> rfl
    · simp only [if_neg hlt]
  · refine List.filterMap_congr fun j hj => ?_
    have hjk : j < k := List.mem_range.mp (List.mem_reverse.mp hj)
    simp only [stays_succ_iff hjk]
    by_cases hstays : Stays maxDepth steps j k
    · by_cases hlt : levelAt maxDepth steps j < levelAt maxDepth steps (k + 1)
      · cases steps[j]?.bind pushed? <;> simp [hstays, hlt, Option.filter_some]
      · cases steps[j]?.bind pushed? <;> simp [hstays, hlt, Option.filter_some]
    · simp [hstays]

theorem lt_of_mem_openCalls {call : Nat × Frame} (h : call ∈ openCalls maxDepth steps k) :
    call.1 < k := by
  obtain ⟨j, hj, hcall⟩ := List.mem_filterMap.mp h
  obtain ⟨-, hcall⟩ := Option.ite_none_right_eq_some.mp hcall
  obtain ⟨frame, -, rfl⟩ := Option.map_eq_some_iff.mp hcall
  exact List.mem_range.mp (List.mem_reverse.mp hj)

/-! Some entries may stand on the levels below a `level`, the highest first. -/

section Levels

variable {α : Type} {on : α → Nat} {entries : List α} {level : Nat}

theorem lt_of_levels (h : entries.map on = (List.range level).reverse) :
    ∀ entry ∈ entries, on entry < level := by
  intro entry hentry
  have hmem : on entry ∈ entries.map on := List.mem_map_of_mem hentry
  rw [h] at hmem
  exact List.mem_range.mp (List.mem_reverse.mp hmem)

theorem levels_cons {first : α} {others : List α}
    (h : (first :: others).map on = (List.range level).reverse) :
    level = on first + 1 ∧ others.map on = (List.range (on first)).reverse := by
  cases level with
  | zero => simp at h
  | succ level =>
    rw [List.range_succ, List.reverse_append, List.map_cons] at h
    obtain ⟨hfirst, hothers⟩ := List.cons_eq_cons.mp h
    rw [hfirst]
    exact ⟨rfl, hothers⟩

theorem filter_lt_eq_self {bound : Nat} (h : entries.map on = (List.range level).reverse)
    (hle : level ≤ bound) : entries.filter (fun entry => on entry < bound) = entries :=
  List.filter_eq_self.mpr fun entry hentry =>
    decide_eq_true (Nat.lt_of_lt_of_le (lt_of_levels h entry hentry) hle)

theorem filter_lt_eq_tail (h : entries.map on = (List.range level).reverse) :
    entries.filter (fun entry => on entry < level - 1) = entries.tail := by
  cases entries with
  | nil => rfl
  | cons first others =>
    obtain ⟨rfl, hothers⟩ := levels_cons h
    rw [List.filter_cons_of_neg (by simp), Nat.add_sub_cancel]
    exact filter_lt_eq_self hothers (Nat.le_refl _)

end Levels

/-- The open calls behind step `k`. -/
def callsAfter (maxDepth level k : Nat) (calls : List (Nat × Frame)) : CallStep → List (Nat × Frame)
  | push frame => if level < maxDepth then (k, frame) :: calls else calls
  | pop => calls.tail
  | setPc _ | current | edit _ => calls

/-- What a step does to the open calls, if those stand on the levels below that in front of it. -/
theorem openCalls_step (h : steps[k]? = some step)
    (hlevels : (openCalls maxDepth steps k).map (fun call => levelAt maxDepth steps call.1) =
      (List.range (levelAt maxDepth steps k)).reverse) :
    openCalls maxDepth steps (k + 1) =
      step.callsAfter maxDepth (levelAt maxDepth steps k) k (openCalls maxDepth steps k) := by
  have hsucc : levelAt maxDepth steps (k + 1) = _ := levelAt_succ h
  rw [openCalls_succ, h]
  cases step with
  | push frame =>
    by_cases hlt : levelAt maxDepth steps k < maxDepth
    · rw [levelAfter, if_pos hlt] at hsucc
      rw [hsucc, filter_lt_eq_self hlevels (Nat.le_succ _)]
      simp [callsAfter, hlt, pushed?]
    · rw [levelAfter, if_neg hlt] at hsucc
      rw [hsucc, filter_lt_eq_self hlevels (Nat.le_refl _)]
      simp [callsAfter, hlt]
  | pop =>
    rw [levelAfter] at hsucc
    rw [hsucc, filter_lt_eq_tail hlevels]
    simp [callsAfter, pushed?]
  | setPc _ | current | edit _ =>
    rw [levelAfter] at hsucc
    rw [hsucc, filter_lt_eq_self hlevels (Nat.le_refl _)]
    simp [callsAfter]

theorem openCalls_succ_of_none (h : steps[k]? = none)
    (hlevels : (openCalls maxDepth steps k).map (fun call => levelAt maxDepth steps call.1) =
      (List.range (levelAt maxDepth steps k)).reverse) :
    openCalls maxDepth steps (k + 1) = openCalls maxDepth steps k := by
  rw [openCalls_succ, levelAt_succ_of_none h, filter_lt_eq_self hlevels (Nat.le_refl _)]
  simp

/-- The open calls stand on the levels one below the other down to the bottom. -/
theorem levels_openCalls (maxDepth : Nat) (steps : List CallStep) (k : Nat) :
    (openCalls maxDepth steps k).map (fun call => levelAt maxDepth steps call.1) =
      (List.range (levelAt maxDepth steps k)).reverse := by
  induction k with
  | zero => rfl
  | succ k ih =>
    cases h : steps[k]? with
    | none => rw [openCalls_succ_of_none h ih, levelAt_succ_of_none h, ih]
    | some step =>
      rw [openCalls_step h ih, levelAt_succ h]
      cases step with
      | push frame =>
        by_cases hlt : levelAt maxDepth steps k < maxDepth
        · simp only [callsAfter, levelAfter, if_pos hlt, List.map_cons, ih, List.range_succ,
            List.reverse_append, List.reverse_singleton, List.singleton_append]
        · simp only [callsAfter, levelAfter, if_neg hlt, ih]
      | pop =>
        simp only [callsAfter, levelAfter, List.map_tail, ih]
        cases levelAt maxDepth steps k with
        | zero => rfl
        | succ level => simp [List.range_succ]
      | setPc _ | current | edit _ => exact ih

/-- A call is the current one where the level is just above that on which it was pushed. -/
theorem head?_openCalls_iff {call : Nat × Frame} (h : call ∈ openCalls maxDepth steps k) :
    (openCalls maxDepth steps k).head? = some call ↔
      levelAt maxDepth steps k = levelAt maxDepth steps call.1 + 1 := by
  have hlevels := levels_openCalls maxDepth steps k
  generalize openCalls maxDepth steps k = calls at h hlevels
  cases calls with
  | nil => cases h
  | cons first others =>
    obtain ⟨hfirst, hothers⟩ := levels_cons hlevels
    rcases List.mem_cons.mp h with rfl | hmem
    · simpa using hfirst
    · have hlt := lt_of_levels hothers call hmem
      refine ⟨fun hhead => ?_, fun hlevel => by omega⟩
      obtain rfl : first = call := by simpa using hhead
      exact absurd hlt (Nat.lt_irrefl _)

/-! ## Edits -/

theorem editsOf_succ (maxDepth : Nat) (steps : List CallStep) (j k : Nat) :
    editsOf maxDepth steps j (k + 1) = editsOf maxDepth steps j k ++
      if j < k ∧ levelAt maxDepth steps k = levelAt maxDepth steps j + 1 then
        (steps[k]?.bind change?).toList else [] := by
  rw [editsOf, editsOf, List.range_succ, List.filterMap_append]
  congr 1
  simp only [List.filterMap_cons, List.filterMap_nil]
  split <;> split <;> simp_all

/-- A step that edits nothing, or a frame on another level, leaves the frame as it was. -/
theorem edited_succ_of_eq {call : Nat × Frame} (h : steps[k]?.bind change? = none ∨
      levelAt maxDepth steps k ≠ levelAt maxDepth steps call.1 + 1) :
    edited maxDepth steps (k + 1) call = edited maxDepth steps k call := by
  rw [edited, edited, editsOf_succ, List.foldl_append]
  rcases h with hnone | hlevel
  · simp [hnone]
  · simp [hlevel]

theorem edited_succ_of_edit {call : Nat × Frame} {change : Frame → Frame}
    (h : steps[k]? = some (edit change)) (hlt : call.1 < k)
    (hlevel : levelAt maxDepth steps k = levelAt maxDepth steps call.1 + 1) :
    edited maxDepth steps (k + 1) call = change (edited maxDepth steps k call) := by
  rw [edited, editsOf_succ, List.foldl_append, if_pos ⟨hlt, hlevel⟩, h]
  rfl

/-- A frame that was just pushed has no edits. -/
theorem edited_self_succ (frame : Frame) : edited maxDepth steps (k + 1) (k, frame) = frame := by
  have hnone : editsOf maxDepth steps k (k + 1) = [] := by
    refine List.filterMap_eq_nil_iff.mpr fun i hi => if_neg fun h => ?_
    have := List.mem_range.mp hi
    omega
  rw [edited, hnone]
  rfl

end CallStep

end Jvm
