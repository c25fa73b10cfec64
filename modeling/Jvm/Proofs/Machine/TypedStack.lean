import Jvm.Proofs.Machine.Arguments
import Jvm.Proofs.Machine.StackList

/-! # Whole values on an operand stack

Typed instructions push and pop whole values, of which a long or double takes two slots. As long as
each pop names the kind of the value on top (`TypedStep.WellTyped`), the slots are those of a stack
of values: every answer is the one that this stack gives, and the slots in use are the slots of its
values (`TypedStep.run_wellTyped`). One typed step is enough to see that (`onList_stacked`). -/

namespace Jvm

namespace Value

/-- The step that pushes the value. -/
def push : Value → StackStep
  | int value => .pushInt value
  | float value => .pushFloat value
  | long value => .pushLong value
  | double value => .pushDouble value
  | reference value => .pushReference value

/-- The slots of a stack of values, both top first. -/
def stacked (values : List Value) : List Slot := values.flatMap fun value => value.slots.reverse

/-- How many slots the values take. -/
def widths : List Value → Nat
  | [] => 0
  | value :: values => widths values + value.kind.width

theorem stacked_cons (value : Value) (values : List Value) :
    stacked (value :: values) = value.slots.reverse ++ stacked values := by
  simp [stacked]

theorem length_stacked (values : List Value) : (stacked values).length = widths values := by
  induction values with
  | nil => rfl
  | cons value values ih =>
    rw [stacked_cons, List.length_append, List.length_reverse, length_slots, ih, widths]
    exact Nat.add_comm _ _

end Value

/-- The step that pops a value of the kind. -/
def Kind.pop : Kind → StackStep
  | int => .popInt
  | float => .popFloat
  | long => .popLong
  | double => .popDouble
  | reference => .popReference

namespace Value

variable {bound : Nat}

theorem onList_push_slots (value : Value) (slots : List Slot) :
    StackStep.onList bound value.push slots = SlotList.push bound value.slots slots := by
  cases value <;> rfl

/-- The slots of a value are popped as that value, whatever is below. -/
theorem onList_pop_slots (value : Value) (below : List Slot) :
    StackStep.onList bound value.kind.pop (value.slots.reverse ++ below) =
      .ok (value.reply, below) := by
  cases value with
  | int _ | reference _ => rfl
  | float _ =>
    simp [slots, kind, Kind.pop, StackStep.onList, SlotList.popOne, reply, Slot.float,
      Slot.ofFloat, Slot.ofInt]
  | long _ =>
    simp [slots, kind, Kind.pop, StackStep.onList, SlotList.popTwo, reply, longSlots, Slot.ofInt]
  | double _ =>
    simp [slots, kind, Kind.pop, StackStep.onList, SlotList.popTwo, reply, longSlots, Slot.ofInt,
      doubleOfLong, longOfDouble]

end Value

inductive TypedStep where
  | push (value : Value)
  | pop (kind : Kind)
  | clear

namespace TypedStep

open Value

/-- The step on slots. -/
def untyped : TypedStep → StackStep
  | push value => value.push
  | pop kind => kind.pop
  | clear => .clear

/-- What a step answers and the stack of values after it. -/
def onValues (bound : Nat) : Action TypedStep (List Value) Reply
  | push value, values =>
    if widths values + value.kind.width ≤ bound then .ok (.done, value :: values)
    else .error (.operandOverflow bound)
  | pop _, top :: below => .ok (top.reply, below)
  | pop _, [] => .error .operandUnderflow
  | clear, _ => .ok (.done, [])

/-- A pop names the kind of the value on top. -/
def NamesTop : TypedStep → List Value → Prop
  | pop kind, top :: _ => kind = top.kind
  | _, _ => True

/-- Each pop names the kind of the value that is then on top. -/
def WellTyped (bound : Nat) (values : List Value) : List TypedStep → Prop
  | [] => True
  | step :: steps =>
    step.NamesTop values ∧ WellTyped bound ((onValues bound).next values step) steps

variable {bound : Nat} {values : List Value} {steps : List TypedStep}

theorem onList_push (value : Value) : StackStep.onList bound value.push (stacked values) =
    Prod.map id stacked <$> onValues bound (push value) values := by
  rw [value.onList_push_slots, SlotList.push, length_stacked, length_slots, onValues]
  by_cases h : widths values + value.kind.width ≤ bound
  · simp [h, stacked_cons, Functor.map, Except.map]
  · simp [h, Functor.map, Except.map]

/-- A value is popped as it was pushed. -/
theorem onList_pop (top : Value) (below : List Value) :
    StackStep.onList bound top.kind.pop (stacked (top :: below)) =
      .ok (top.reply, stacked below) := by
  rw [stacked_cons, top.onList_pop_slots]

theorem onList_pop_nil (kind : Kind) :
    StackStep.onList bound kind.pop [] = .error .operandUnderflow := by
  cases kind <;> rfl

/-- A step that names the kind on top acts on the slots of the values as on the values. -/
theorem onList_stacked (bound : Nat) (step : TypedStep) (h : step.NamesTop values) :
    StackStep.onList bound step.untyped (stacked values) =
      Prod.map id stacked <$> onValues bound step values := by
  cases step with
  | push value => exact onList_push value
  | clear => rfl
  | pop kind =>
    cases values with
    | nil => exact onList_pop_nil kind
    | cons top below =>
      have hkind : kind = top.kind := h
      rw [untyped, hkind, onList_pop]
      rfl

/-- The invariant carried along a run: the slots are those of the values. -/
theorem run_stacked (h : WellTyped bound values steps) :
    (StackStep.onList bound).run (stacked values) (steps.map untyped) =
      ((onValues bound).run values steps).map (Prod.map id stacked) := by
  induction steps generalizing values with
  | nil => rfl
  | cons step steps ih =>
    obtain ⟨hnames, hsteps⟩ := h
    have hstep := onList_stacked bound step hnames
    cases hact : onValues bound step values with
    | ok answer =>
      obtain ⟨reply, after⟩ := answer
      rw [Action.next_of_ok hact] at hsteps
      simp only [hact, Functor.map, Except.map, Prod.map, id] at hstep
      simp [Action.run, hstep, hact, ih hsteps]
    | error fault =>
      rw [Action.next_of_error hact] at hsteps
      simp only [hact, Functor.map, Except.map] at hstep
      simp [Action.run, hstep, hact, ih hsteps]

/-- A well-typed run on an operand stack is a run on whole values: what fits is pushed, what is
popped is the value on top bit for bit, and the slots in use are those that the values take. -/
theorem run_wellTyped (length : Nat) (h : WellTyped length [] steps) :
    let outcomes := StackStep.act.run (.ofCapacity length) (steps.map untyped)
    let expected := (onValues length).run [] steps
    outcomes.map (Prod.map id OperandStack.inUse) = expected.map (Prod.map id stacked) ∧
      outcomes.map (fun outcome => outcome.2.size) =
        expected.map (fun outcome => widths outcome.2) := by
  intro outcomes expected
  have hslots := StackStep.run_onList (.ofCapacity length) (steps.map untyped)
  rw [OperandStack.capacity_ofCapacity] at hslots
  have hsame : outcomes.map (Prod.map id OperandStack.inUse) =
      expected.map (Prod.map id stacked) := hslots.symm.trans (run_stacked h)
  have hsizes := congrArg (List.map fun outcome => outcome.2.length) hsame
  refine ⟨hsame, ?_⟩
  simpa [List.map_map, Function.comp_def, length_stacked, OperandStack.size] using hsizes

/-- A long with the sign bit set leaves no room above a float, and under it the float, a signalling
NaN, is still there. -/
theorem run_wellTyped_fullStack :
    let steps : List TypedStep := [.push (.float ⟨0x7f800001⟩), .push (.long (-2)), .push (.int 1),
      .pop .long, .pop .float, .pop .int]
    WellTyped 3 [] steps ∧
      (StackStep.act.run (.ofCapacity 3) (steps.map untyped)).map
        (Prod.map id OperandStack.inUse) = ([(.ok .done, [.float ⟨0x7f800001⟩]),
          (.ok .done, [.long (-2), .float ⟨0x7f800001⟩]),
          (.error (.operandOverflow 3), [.long (-2), .float ⟨0x7f800001⟩]),
          (.ok (.long (-2)), [.float ⟨0x7f800001⟩]), (.ok (.float ⟨0x7f800001⟩), []),
          (.error .operandUnderflow, [])] : List (Except MachineError Reply × List Value)).map
            (Prod.map id stacked) := by
  intro steps
  have hsteps : WellTyped 3 [] steps := ⟨trivial, trivial, trivial, rfl, rfl, trivial, trivial⟩
  exact ⟨hsteps, (run_wellTyped 3 hsteps).1⟩

end TypedStep

end Jvm
