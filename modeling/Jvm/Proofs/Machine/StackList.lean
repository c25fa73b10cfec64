import Jvm.Proofs.Machine.Runs
import Jvm.Proofs.Machine.SlotFlow

/-! # Operand stacks as bounded lists

What can be done with an operand stack, told of a list of slots, top first, that is never longer
than the capacity (`StackStep.onList`). Of a stack this list is all that an answer depends on: a
step on the stack answers as the step on its slots in use does (`StackStep.onList_inUse`), so runs
do (`StackStep.run_onList`). -/

namespace Jvm

namespace SlotList

/-- Puts the slots on top, the first one lowest, if there is room for all of them. -/
def push (capacity : Nat) (values slots : List Slot) : Except MachineError (Reply × List Slot) :=
  if slots.length + values.length ≤ capacity then .ok (.done, values.reverse ++ slots)
  else .error (.operandOverflow capacity)

/-- Takes the top slot off and answers what is read from it. -/
def popOne (read : Slot → Reply) (slots : List Slot) : Except MachineError (Reply × List Slot) :=
  if h : 1 ≤ slots.length then .ok (read slots[0], slots.drop 1) else .error .operandUnderflow

/-- Takes two slots off and answers what is read from the lower and the upper one. -/
def popTwo (read : Slot → Slot → Reply) (slots : List Slot) :
    Except MachineError (Reply × List Slot) :=
  if h : 2 ≤ slots.length then .ok (read slots[1] slots[0], slots.drop 2)
  else .error .operandUnderflow

end SlotList

namespace StackStep

/-- What a step answers and the list after it. -/
def onList (bound : Nat) : Action StackStep (List Slot) Reply
  | size, slots => .ok (.count slots.length, slots)
  | capacity, slots => .ok (.count bound, slots)
  | isEmpty, slots => .ok (.flag (slots.length == 0), slots)
  | clear, _ => .ok (.done, [])
  | peek depth, slots =>
    if h : depth < slots.length then .ok (.slot slots[depth], slots) else .error .operandUnderflow
  | push slot, slots => SlotList.push bound [slot] slots
  | pushInt value, slots => SlotList.push bound [.ofInt value] slots
  | pushFloat value, slots => SlotList.push bound [.ofFloat value] slots
  | pushLong value, slots => SlotList.push bound (longSlots value) slots
  | pushDouble value, slots => SlotList.push bound (longSlots (longOfDouble value)) slots
  | pushReference value, slots => SlotList.push bound [.ofReference value] slots
  | pop, slots => SlotList.popOne .slot slots
  | popInt, slots => SlotList.popOne (fun slot => .int slot.int) slots
  | popFloat, slots => SlotList.popOne (fun slot => .float slot.float) slots
  | popLong, slots => SlotList.popTwo (fun low high => .long (joinHalves low.int high.int)) slots
  | popDouble, slots =>
    SlotList.popTwo (fun low high => .double (doubleOfLong (joinHalves low.int high.int))) slots
  | popReference, slots => SlotList.popOne (fun slot => .reference slot.reference) slots

end StackStep

namespace OperandStack

variable {stack : OperandStack}

theorem push_inUse (slot : Slot) : SlotList.push stack.capacity [slot] stack.inUse =
    (fun next => (.done, next.inUse)) <$> stack.push slot := by
  obtain ⟨inUse, spare⟩ := stack
  cases spare with
  | nil => simp [SlotList.push, OperandStack.push, capacity, Functor.map, Except.map]
  | cons _ spare => simp [SlotList.push, OperandStack.push, capacity, Functor.map, Except.map]

theorem pushPair_inUse (first second : Slot) :
    SlotList.push stack.capacity [first, second] stack.inUse =
      (fun next => (.done, next.inUse)) <$> stack.pushPair first second := by
  obtain ⟨inUse, spare⟩ := stack
  match spare with
  | [] => simp [SlotList.push, pushPair, capacity, Functor.map, Except.map]
  | [_] => simp [SlotList.push, pushPair, capacity, Functor.map, Except.map]
  | _ :: _ :: spare => simp [SlotList.push, pushPair, capacity, Functor.map, Except.map]

theorem popOne_inUse (read : Slot → Reply) : SlotList.popOne read stack.inUse =
    (fun (slot, next) => (read slot, next.inUse)) <$> stack.pop := by
  obtain ⟨inUse, spare⟩ := stack
  cases inUse with
  | nil => simp [SlotList.popOne, pop, Functor.map, Except.map]
  | cons top below => simp [SlotList.popOne, pop, Functor.map, Except.map]

theorem popTwo_inUse (read : Slot → Slot → Reply) : SlotList.popTwo read stack.inUse =
    (fun ((low, high), next) => (read low high, next.inUse)) <$> stack.popPair := by
  obtain ⟨inUse, spare⟩ := stack
  match inUse with
  | [] => simp [SlotList.popTwo, popPair, Functor.map, Except.map]
  | [_] => simp [SlotList.popTwo, popPair, Functor.map, Except.map]
  | _ :: _ :: below => simp [SlotList.popTwo, popPair, Functor.map, Except.map]

theorem capacity_ofCapacity (length : Nat) : (ofCapacity length).capacity = length := by
  simp [ofCapacity, capacity]

/-- From one stack to the next the top went up over spare cells, which took the values, or down over
slots in use, which keep what is in them. -/
inductive Moved : OperandStack → List Slot → OperandStack → Prop where
  | up (inUse back : List Slot) {passed values : List Slot} (h : passed.length = values.length) :
    Moved ⟨inUse, passed ++ back⟩ values ⟨values.reverse ++ inUse, back⟩
  | down (front inUse back : List Slot) :
    Moved ⟨front ++ inUse, back⟩ [] ⟨inUse, front.reverse ++ back⟩

variable {next : OperandStack} {values : List Slot} {slot first second : Slot}

theorem Moved.capacity_eq (h : stack.Moved values next) : next.capacity = stack.capacity := by
  cases h with
  | up inUse back h =>
    simp only [capacity, List.length_append, List.length_reverse]
    omega
  | down front inUse back =>
    simp only [capacity, List.length_append, List.length_reverse]
    omega

theorem Moved.refl (stack : OperandStack) : stack.Moved [] stack := .down [] stack.inUse stack.spare

theorem moved_clear (stack : OperandStack) : stack.Moved [] stack.clear := by
  have hmoved := Moved.down stack.inUse [] stack.spare
  rwa [List.append_nil] at hmoved

theorem moved_of_push (h : stack.push slot = .ok next) : stack.Moved [slot] next := by
  obtain ⟨inUse, spare⟩ := stack
  cases spare with
  | nil => cases h
  | cons old spare =>
    cases h
    exact @Moved.up inUse spare [old] [slot] rfl

theorem moved_of_pushPair (h : stack.pushPair first second = .ok next) :
    stack.Moved [first, second] next := by
  obtain ⟨inUse, spare⟩ := stack
  match spare with
  | [] | [_] => cases h
  | old :: other :: spare =>
    cases h
    exact @Moved.up inUse spare [old, other] [first, second] rfl

theorem moved_of_pop (h : stack.pop = .ok (slot, next)) : stack.Moved [] next := by
  obtain ⟨inUse, spare⟩ := stack
  cases inUse with
  | nil => cases h
  | cons top below =>
    cases h
    exact .down [slot] below spare

theorem moved_of_popPair {pair : Slot × Slot} (h : stack.popPair = .ok (pair, next)) :
    stack.Moved [] next := by
  obtain ⟨inUse, spare⟩ := stack
  match inUse with
  | [] | [_] => cases h
  | second :: first :: below =>
    cases h
    exact .down [second, first] below spare

end OperandStack

namespace StackStep

variable {step : StackStep} {stack next : OperandStack} {reply : Reply}

/-- A step on a stack is the step on its slots in use. -/
theorem onList_inUse (step : StackStep) (stack : OperandStack) :
    onList stack.capacity step stack.inUse = Prod.map id OperandStack.inUse <$> step.act stack := by
  cases step with
  | size | capacity | clear => rfl
  | isEmpty =>
    cases h : stack.inUse <;> simp [onList, act, OperandStack.isEmpty, h, Functor.map, Except.map]
  | peek depth =>
    by_cases h : depth < stack.inUse.length
    · simp [onList, act, OperandStack.peek, h, Functor.map, Except.map]
    · simp [onList, act, OperandStack.peek, h, Functor.map, Except.map]
  | push _ | pushInt _ | pushFloat _ | pushReference _ =>
    rw [onList, OperandStack.push_inUse, act, Functor.map_map]
    rfl
  | pushLong _ | pushDouble _ =>
    rw [onList, longSlots, OperandStack.pushPair_inUse, act, Functor.map_map]
    rfl
  | pop | popInt | popFloat | popReference =>
    simp only [onList, OperandStack.popOne_inUse, act, OperandStack.popInt, OperandStack.popFloat,
      OperandStack.popReference, Functor.map_map]
    rfl
  | popLong | popDouble =>
    simp only [onList, OperandStack.popTwo_inUse, act, OperandStack.popLong,
      OperandStack.popDouble, Functor.map_map]
    rfl

/-- What a step that succeeds does to the stack. -/
theorem moved_of_act (h : step.act stack = .ok (reply, next)) : stack.Moved step.values next := by
  cases step with
  | size | capacity | isEmpty =>
    cases h
    exact .refl stack
  | clear =>
    cases h
    exact OperandStack.moved_clear stack
  | peek _ =>
    obtain ⟨_, -, hval⟩ := map_eq_ok_iff.mp h
    cases hval
    exact .refl stack
  | push _ | pushInt _ | pushFloat _ | pushReference _ =>
    obtain ⟨_, hpush, hval⟩ := map_eq_ok_iff.mp h
    cases hval
    exact OperandStack.moved_of_push hpush
  | pushLong _ | pushDouble _ =>
    obtain ⟨_, hpush, hval⟩ := map_eq_ok_iff.mp h
    cases hval
    exact OperandStack.moved_of_pushPair hpush
  | pop =>
    obtain ⟨_, hpop, hval⟩ := map_eq_ok_iff.mp h
    cases hval
    exact OperandStack.moved_of_pop hpop
  | popInt | popFloat | popReference =>
    obtain ⟨_, hvalue, hval⟩ := map_eq_ok_iff.mp h
    cases hval
    obtain ⟨_, hpop, hval⟩ := map_eq_ok_iff.mp hvalue
    cases hval
    exact OperandStack.moved_of_pop hpop
  | popLong =>
    obtain ⟨_, hvalue, hval⟩ := map_eq_ok_iff.mp h
    cases hval
    obtain ⟨_, hpop, hval⟩ := map_eq_ok_iff.mp hvalue
    cases hval
    exact OperandStack.moved_of_popPair hpop
  | popDouble =>
    obtain ⟨_, hvalue, hval⟩ := map_eq_ok_iff.mp h
    cases hval
    obtain ⟨_, hlong, hval⟩ := map_eq_ok_iff.mp hvalue
    cases hval
    obtain ⟨_, hpop, hval⟩ := map_eq_ok_iff.mp hlong
    cases hval
    exact OperandStack.moved_of_popPair hpop

theorem capacity_of_act (h : step.act stack = .ok (reply, next)) :
    next.capacity = stack.capacity := (moved_of_act h).capacity_eq

theorem run_capacity {steps : List StackStep} :
    ∀ outcome ∈ act.run stack steps, outcome.2.capacity = stack.capacity := by
  apply Action.keeps_of_mem_run (fun later : OperandStack => later.capacity = stack.capacity) rfl
  intro step before reply after hbefore h
  exact (capacity_of_act h).trans hbefore

/-- A run on a stack answers as the run on its slots in use, and leaves the same slots in use after
each step. -/
theorem run_onList (stack : OperandStack) (steps : List StackStep) :
    (onList stack.capacity).run stack.inUse steps =
      (act.run stack steps).map (Prod.map id OperandStack.inUse) := by
  apply Action.run_view (fun later : OperandStack => later.capacity = stack.capacity) rfl
  · intro step before reply after hbefore h
    exact (capacity_of_act h).trans hbefore
  · intro step before hbefore
    rw [← hbefore]
    exact onList_inUse step before

end StackStep

end Jvm
