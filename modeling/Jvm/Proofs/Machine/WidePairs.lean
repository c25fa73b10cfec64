import Jvm.Proofs.Machine.Arguments
import Mathlib.Algebra.Ring.Int.Defs

/-! # Longs and doubles between operand stack and local variables

Both parts of a frame keep a long or double in two slots, the low half in the first. So its slots
may be moved one by one (`Frame.moveToLocals`, `Frame.moveToStack`): the value is then read from the
other part as it was written to the one, and nothing else in the frame changes
(`Frame.wide_values_move`). -/

namespace Jvm

/-- The low half counts as a number without sign, the high half brings the sign. -/
theorem toInt_joinHalves (low high : Int32) :
    (joinHalves low high).toInt = high.toInt * 2 ^ 32 + low.toUInt32.toNat := by
  have happend : (joinHalves low high).toInt = (high.toBitVec ++ low.toBitVec).toInt := rfl
  rw [happend, BitVec.toInt_append, if_neg (by decide), Int.mul_comm]
  rfl

theorem doubleOfLong_longOfDouble (value : Binary64) : doubleOfLong (longOfDouble value) = value := by
  simp [doubleOfLong, longOfDouble]

namespace OperandStack

variable {stack : OperandStack} {first second : Slot}

/-- Two slots are pushed one after the other, unless there is no room for both. -/
theorem pushPair_eq (stack : OperandStack) (first second : Slot) :
    stack.pushPair first second = stack.push first >>= fun next => next.push second := by
  obtain ⟨inUse, spare⟩ := stack
  match spare with
  | [] => rfl
  | [_] => simp [pushPair, push, capacity, bind, Except.bind]
  | _ :: _ :: _ => rfl

/-- Two slots are popped one after the other, unless there is only one. -/
theorem popPair_eq (stack : OperandStack) : stack.popPair =
    stack.pop >>= fun (second, next) =>
      next.pop >>= fun (first, rest) => pure ((first, second), rest) := by
  obtain ⟨inUse, spare⟩ := stack
  match inUse with
  | [] | [_] | _ :: _ :: _ => rfl

theorem exists_pushPair (hroom : stack.size + 2 ≤ stack.capacity) (first second : Slot) :
    ∃ next, stack.pushPair first second = .ok next ∧
      next.inUse = second :: first :: stack.inUse := by
  obtain ⟨inUse, spare⟩ := stack
  match spare with
  | [] | [_] =>
    simp only [size, capacity, List.length_nil, List.length_singleton] at hroom
    omega
  | _ :: _ :: spare => exact ⟨_, rfl, rfl⟩

theorem popPair_of_inUse {slots : List Slot} (h : stack.inUse = second :: first :: slots) :
    ∃ rest, stack.popPair = .ok ((first, second), rest) ∧ rest.inUse = slots := by
  obtain ⟨inUse, spare⟩ := stack
  cases h
  exact ⟨_, rfl, rfl⟩

theorem popLong_of_popPair {low high : Int32} {rest : OperandStack}
    (h : stack.popPair = .ok ((.ofInt low, .ofInt high), rest)) :
    stack.popLong = .ok (joinHalves low high, rest) := by
  rw [popLong, h]
  rfl

theorem popDouble_of_popLong {value : Binary64} {rest : OperandStack}
    (h : stack.popLong = .ok (longOfDouble value, rest)) : stack.popDouble = .ok (value, rest) := by
  rw [popDouble, h]
  simp [doubleOfLong_longOfDouble, Functor.map, Except.map]

end OperandStack

namespace Locals

variable {locals upper next : Locals} {index : Nat} {low high : Slot}

theorem long_of_ints {low high : Int32} (hlow : locals.slots[index]? = some (.ofInt low))
    (hhigh : locals.slots[index + 1]? = some (.ofInt high)) :
    locals.long index = .ok (joinHalves low high) := by
  rw [long, pair_eq_ok_iff.mpr ⟨hlow, hhigh⟩]
  rfl

theorem double_of_long {value : Binary64} (h : locals.long index = .ok (longOfDouble value)) :
    locals.double index = .ok value := by
  rw [double, h]
  exact congrArg Except.ok (doubleOfLong_longOfDouble value)

theorem exists_setSlot (h : index < locals.size) (slot : Slot) :
    ∃ next, locals.setSlot index slot = .ok next := ⟨_, dif_pos h⟩

theorem exists_setPair (h : index + 1 < locals.size) (first second : Slot) :
    ∃ next, locals.setPair index first second = .ok next := ⟨_, if_pos h⟩

/-- The two slots of a pair may be written one after the other, the second one first. -/
theorem Wrote.pair (hupper : locals.Wrote (index + 1) [high] upper)
    (hlower : upper.Wrote index [low] next) : locals.Wrote index [low, high] next := by
  refine ⟨hupper.fits, hlower.size_eq.trans hupper.size_eq, fun i hi => ?_, fun i hi => ?_⟩
  · match i, hi with
    | 0, _ => exact hlower.inside 0 Nat.zero_lt_one
    | 1, _ =>
      rw [hlower.outside (index + 1) (.inr (Nat.le_refl _))]
      exact hupper.inside 0 Nat.zero_lt_one
  · simp only [List.length_cons, List.length_nil] at hi
    rw [hlower.outside i (by simp; omega), hupper.outside i (by simp; omega)]

theorem Wrote.first_eq (h : locals.Wrote index [low, high] next) :
    next.slots[index]? = some low := h.inside 0 Nat.two_pos

theorem Wrote.second_eq (h : locals.Wrote index [low, high] next) :
    next.slots[index + 1]? = some high := h.inside 1 Nat.one_lt_two

end Locals

namespace Frame

/-- Pops the top slot into the local behind the one at an index, and the next slot into the one at
the index. -/
def moveToLocals (frame : Frame) (index : Nat) : Except MachineError Frame := do
  let (high, stack) ← frame.stack.pop
  let locals ← frame.locals.setSlot (index + 1) high
  let (low, stack) ← stack.pop
  let locals ← locals.setSlot index low
  return { locals, stack }

/-- Pushes the local at an index and then the one behind it. -/
def moveToStack (frame : Frame) (index : Nat) : Except MachineError Frame := do
  let low ← frame.locals.slot index
  let stack ← frame.stack.push low
  let high ← frame.locals.slot (index + 1)
  let stack ← stack.push high
  return { frame with stack }

/-- The frames have the same locals but for those at an index and behind it, and the same slots on
their stacks. -/
structure SameBeside (frame : Frame) (index : Nat) (next : Frame) : Prop where
  locals : ∀ i, i ≠ index → i ≠ index + 1 → next.locals.slots[i]? = frame.locals.slots[i]?
  stack : next.stack.inUse = frame.stack.inUse

variable {frame moved : Frame} {index : Nat} {low high : Slot} {pushed : OperandStack}
  {stored : Locals}

theorem moveToLocals_of_inUse {below : List Slot} (hlocals : index + 1 < frame.locals.size)
    (h : frame.stack.inUse = high :: low :: below) :
    ∃ moved, frame.moveToLocals index = .ok moved ∧
      frame.locals.Wrote index [low, high] moved.locals ∧ moved.stack.inUse = below := by
  obtain ⟨rest, hpop, hrest⟩ := OperandStack.popPair_of_inUse h
  rw [OperandStack.popPair_eq] at hpop
  obtain ⟨⟨_, next⟩, hhigh, hpop⟩ := bind_eq_ok_iff.mp hpop
  obtain ⟨⟨_, _⟩, hlow, hval⟩ := bind_eq_ok_iff.mp hpop
  cases hval
  obtain ⟨upper, hupper⟩ := Locals.exists_setSlot hlocals high
  have hwrote := Locals.setSlot_eq_ok_iff.mp hupper
  have hindex : index < upper.size := hwrote.size_eq ▸ Nat.lt_of_succ_lt hlocals
  obtain ⟨lower, hlower⟩ := Locals.exists_setSlot hindex low
  refine ⟨⟨lower, rest⟩, ?_, hwrote.pair (Locals.setSlot_eq_ok_iff.mp hlower), hrest⟩
  simp [moveToLocals, hhigh, hupper, hlow, hlower, bind, Except.bind, pure, Except.pure]

theorem moveToStack_of_slots (hroom : frame.stack.size + 2 ≤ frame.stack.capacity)
    (hlow : frame.locals.slots[index]? = some low)
    (hhigh : frame.locals.slots[index + 1]? = some high) :
    ∃ stack, frame.moveToStack index = .ok { frame with stack } ∧
      stack.inUse = high :: low :: frame.stack.inUse := by
  obtain ⟨stack, hpush, hinUse⟩ := OperandStack.exists_pushPair hroom low high
  rw [OperandStack.pushPair_eq] at hpush
  obtain ⟨next, hfirst, hsecond⟩ := bind_eq_ok_iff.mp hpush
  refine ⟨stack, ?_, hinUse⟩
  simp [moveToStack, Locals.slot_eq_ok_iff.mpr hlow, Locals.slot_eq_ok_iff.mpr hhigh, hfirst,
    hsecond, bind, Except.bind, pure, Except.pure]

/-- A pair of slots that is pushed and moved is in the locals. -/
theorem moveToLocals_pushPair (hlocals : index + 1 < frame.locals.size)
    (hroom : frame.stack.size + 2 ≤ frame.stack.capacity) (low high : Slot) :
    ∃ pushed moved, frame.stack.pushPair low high = .ok pushed ∧
      moveToLocals { frame with stack := pushed } index = .ok moved ∧
      moved.locals.slots[index]? = some low ∧ moved.locals.slots[index + 1]? = some high ∧
      frame.SameBeside index moved := by
  obtain ⟨pushed, hpush, hinUse⟩ := OperandStack.exists_pushPair hroom low high
  obtain ⟨moved, hmove, hwrote, hbelow⟩ :=
    @moveToLocals_of_inUse ⟨frame.locals, pushed⟩ index low high _ hlocals hinUse
  refine ⟨pushed, moved, hpush, hmove, hwrote.first_eq, hwrote.second_eq, ?_, hbelow⟩
  intro i hi hi'
  exact hwrote.outside i (by simp only [List.length_cons, List.length_nil]; omega)

/-- A pair of slots that is stored and moved is on the stack. -/
theorem moveToStack_setPair (hlocals : index + 1 < frame.locals.size)
    (hroom : frame.stack.size + 2 ≤ frame.stack.capacity) (low high : Slot) :
    ∃ stored moved rest, frame.locals.setPair index low high = .ok stored ∧
      moveToStack { frame with locals := stored } index = .ok moved ∧
      moved.stack.popPair = .ok ((low, high), rest) ∧
      frame.SameBeside index { moved with stack := rest } := by
  obtain ⟨stored, hset⟩ := Locals.exists_setPair hlocals low high
  have hwrote := Locals.setPair_eq_ok_iff.mp hset
  obtain ⟨stack, hmove, hinUse⟩ :=
    @moveToStack_of_slots ⟨stored, frame.stack⟩ index low high hroom hwrote.first_eq
      hwrote.second_eq
  obtain ⟨rest, hpop, hrest⟩ := OperandStack.popPair_of_inUse hinUse
  refine ⟨stored, _, rest, hset, hmove, hpop, ?_, hrest⟩
  intro i hi hi'
  exact hwrote.outside i (by simp only [List.length_cons, List.length_nil]; omega)

theorem long_moves (hlocals : index + 1 < frame.locals.size)
    (hroom : frame.stack.size + 2 ≤ frame.stack.capacity) (value : Int64) :
    (∃ pushed moved, frame.stack.pushLong value = .ok pushed ∧
      moveToLocals { frame with stack := pushed } index = .ok moved ∧
      moved.locals.long index = .ok value ∧ frame.SameBeside index moved) ∧
    ∃ stored moved rest, frame.locals.setLong index value = .ok stored ∧
      moveToStack { frame with locals := stored } index = .ok moved ∧
      moved.stack.popLong = .ok (value, rest) ∧
      frame.SameBeside index { moved with stack := rest } := by
  constructor
  · obtain ⟨pushed, moved, hpush, hmove, hlow, hhigh, hbeside⟩ :=
      moveToLocals_pushPair hlocals hroom (.ofInt (lowHalf value)) (.ofInt (highHalf value))
    exact ⟨pushed, moved, hpush, hmove, Locals.long_of_slots hlow hhigh, hbeside⟩
  · obtain ⟨stored, moved, rest, hset, hmove, hpop, hbeside⟩ :=
      moveToStack_setPair hlocals hroom (.ofInt (lowHalf value)) (.ofInt (highHalf value))
    have hvalue := OperandStack.popLong_of_popPair hpop
    rw [joinHalves_halves] at hvalue
    exact ⟨stored, moved, rest, hset, hmove, hvalue, hbeside⟩

/-- Where two slots are free on the operand stack and two locals are there, a long or double that is
pushed and popped slot by slot into the locals, the top slot into the second one, is read from them;
and one that is stored in the locals and pushed slot by slot, the first one first, is popped. All
other locals and the slots below stay as they are. Two ints side by side are the long that splits
into them again, the first one its low half without a sign. -/
theorem wide_values_move (hlocals : index + 1 < frame.locals.size)
    (hroom : frame.stack.size + 2 ≤ frame.stack.capacity) :
    (∀ value : Int64,
      (∃ pushed moved, frame.stack.pushLong value = .ok pushed ∧
        moveToLocals { frame with stack := pushed } index = .ok moved ∧
        moved.locals.long index = .ok value ∧ frame.SameBeside index moved) ∧
      ∃ stored moved rest, frame.locals.setLong index value = .ok stored ∧
        moveToStack { frame with locals := stored } index = .ok moved ∧
        moved.stack.popLong = .ok (value, rest) ∧
        frame.SameBeside index { moved with stack := rest }) ∧
    (∀ value : Binary64,
      (∃ pushed moved, frame.stack.pushDouble value = .ok pushed ∧
        moveToLocals { frame with stack := pushed } index = .ok moved ∧
        moved.locals.double index = .ok value ∧ frame.SameBeside index moved) ∧
      ∃ stored moved rest, frame.locals.setDouble index value = .ok stored ∧
        moveToStack { frame with locals := stored } index = .ok moved ∧
        moved.stack.popDouble = .ok (value, rest) ∧
        frame.SameBeside index { moved with stack := rest }) ∧
    ∀ low high : Int32, ∃ value : Int64,
      value.toInt = high.toInt * 2 ^ 32 + low.toUInt32.toNat ∧
      lowHalf value = low ∧ highHalf value = high ∧
      (∃ first second, frame.locals.setInt index low = .ok first ∧
        first.setInt (index + 1) high = .ok second ∧ second.long index = .ok value) ∧
      ∃ first second rest, frame.stack.pushInt low = .ok first ∧
        first.pushInt high = .ok second ∧ second.popLong = .ok (value, rest) := by
  refine ⟨long_moves hlocals hroom, fun value => ?_, fun low high => ?_⟩
  · obtain ⟨⟨pushed, moved, hpush, hmove, hlong, hbeside⟩,
      stored, moved', rest, hset, hmove', hpop, hbeside'⟩ :=
      long_moves hlocals hroom (longOfDouble value)
    exact ⟨⟨pushed, moved, hpush, hmove, Locals.double_of_long hlong, hbeside⟩,
      stored, moved', rest, hset, hmove', OperandStack.popDouble_of_popLong hpop, hbeside'⟩
  · refine ⟨joinHalves low high, toInt_joinHalves low high, lowHalf_joinHalves low high,
      highHalf_joinHalves low high, ?_, ?_⟩
    · obtain ⟨first, hfirst⟩ := Locals.exists_setSlot (Nat.lt_of_succ_lt hlocals) (.ofInt low)
      have hlow := Locals.setSlot_eq_ok_iff.mp hfirst
      have hindex : index + 1 < first.size := hlow.size_eq ▸ hlocals
      obtain ⟨second, hsecond⟩ := Locals.exists_setSlot hindex (.ofInt high)
      have hhigh := Locals.setSlot_eq_ok_iff.mp hsecond
      refine ⟨first, second, hfirst, hsecond, Locals.long_of_ints ?_ (hhigh.inside 0 Nat.one_pos)⟩
      rw [hhigh.outside index (.inl (Nat.lt_succ_self index))]
      exact hlow.inside 0 Nat.one_pos
    · obtain ⟨second, hpair, hinUse⟩ :=
        OperandStack.exists_pushPair hroom (.ofInt low) (.ofInt high)
      rw [OperandStack.pushPair_eq] at hpair
      obtain ⟨first, hfirst, hsecond⟩ := bind_eq_ok_iff.mp hpair
      obtain ⟨rest, hpop, -⟩ := OperandStack.popPair_of_inUse hinUse
      exact ⟨first, second, rest, hfirst, hsecond, OperandStack.popLong_of_popPair hpop⟩

/-- The least long between a full stack and the last two of three locals, over an int that stays. -/
theorem wide_values_move_leastLong :
    let frame : Frame := ⟨.ofSize 3, ⟨[.ofInt 7], [.ofInt 8, .ofInt 9]⟩⟩
    1 + 1 < frame.locals.size ∧ frame.stack.size + 2 ≤ frame.stack.capacity ∧
      ∃ pushed moved, frame.stack.pushLong (-9223372036854775808) = .ok pushed ∧
        moveToLocals { frame with stack := pushed } 1 = .ok moved ∧
        moved.locals.long 1 = .ok (-9223372036854775808) ∧ moved.stack.toList = [.ofInt 7] := by
  intro frame
  have hlocals : 1 + 1 < frame.locals.size := by decide
  have hroom : frame.stack.size + 2 ≤ frame.stack.capacity := by decide
  obtain ⟨pushed, moved, hpush, hmove, hlong, hbeside⟩ :=
    ((wide_values_move hlocals hroom).1 (-9223372036854775808)).1
  refine ⟨hlocals, hroom, pushed, moved, hpush, hmove, hlong, ?_⟩
  rw [OperandStack.toList, hbeside.stack]
  rfl

end Frame

end Jvm
