import Jvm.Machine.ThreadStep
import Jvm.Proofs.Machine.Locals

/-! # Where slots come from

A slot of a thread is zeroed, was there before the step, or is one of those that the step writes,
and what the step answers shows only slots that were there (`SlotFlow`). Everything that can be
done with a thread is of this kind (`ThreadStep.act_flow`). The cells of an operand stack count
above its top as well: a popped slot stays where it was. -/

namespace Jvm

/-- How a step goes through the slots: `after` are zeroed, from before or among those written, and
the slots shown were there before, whole or only as a reference. -/
structure SlotFlow (before values after shown : List Slot) : Prop where
  source : ∀ slot ∈ after, slot = {} ∨ slot ∈ before ∨ slot ∈ values
  seen : ∀ slot ∈ shown, slot ∈ before ∨ ∃ cell ∈ before, slot = .ofReference cell.reference

namespace SlotFlow

variable {before values after shown : List Slot}

/-- Nothing is written, but slots may have moved. -/
theorem moved (hafter : ∀ slot, slot ∈ after ↔ slot ∈ before)
    (h : ∀ slot ∈ shown, slot ∈ before ∨ ∃ cell ∈ before, slot = .ofReference cell.reference) :
    SlotFlow before values after shown :=
  ⟨fun slot hmem => .inr (.inl ((hafter slot).mp hmem)), h⟩

theorem look
    (h : ∀ slot ∈ shown, slot ∈ before ∨ ∃ cell ∈ before, slot = .ofReference cell.reference) :
    SlotFlow before values before shown := moved (fun _ => .rfl) h

theorem quiet : SlotFlow before values before [] := look (List.forall_mem_nil _)

theorem write (h : ∀ slot ∈ after, slot ∈ before ∨ slot ∈ values) :
    SlotFlow before values after [] :=
  ⟨fun slot hmem => .inr (h slot hmem), List.forall_mem_nil _⟩

theorem append_right (h : SlotFlow before values after shown) (others : List Slot) :
    SlotFlow (before ++ others) values (after ++ others) shown := by
  refine ⟨fun slot hmem => ?_, fun slot hmem => ?_⟩
  · rcases List.mem_append.mp hmem with hafter | hother
    · rcases h.source slot hafter with hzero | hbefore | hvalue
      · exact .inl hzero
      · exact .inr (.inl (List.mem_append_left _ hbefore))
      · exact .inr (.inr hvalue)
    · exact .inr (.inl (List.mem_append_right _ hother))
  · rcases h.seen slot hmem with hbefore | ⟨cell, hcell, hslot⟩
    · exact .inl (List.mem_append_left _ hbefore)
    · exact .inr ⟨cell, List.mem_append_left _ hcell, hslot⟩

theorem append_left (h : SlotFlow before values after shown) (others : List Slot) :
    SlotFlow (others ++ before) values (others ++ after) shown := by
  have hflow := h.append_right others
  refine ⟨fun slot hmem => ?_, fun slot hmem => ?_⟩
  · have hsource := hflow.source slot (List.mem_append.mpr (List.mem_append.mp hmem).symm)
    simpa [or_comm] using hsource
  · simpa [or_comm] using hflow.seen slot hmem

end SlotFlow

/-- The slots of a stack, those above its top included. -/
def OperandStack.cells (stack : OperandStack) : List Slot := stack.inUse ++ stack.spare

def Frame.cells (frame : Frame) : List Slot := frame.locals.cells ++ frame.stack.cells

def Thread.cells (thread : Thread) : List Slot := thread.frames.flatMap Frame.cells

/-- The slots that an answer shows. A lone reference counts as the slot that holds it. -/
def Reply.cells : Reply → List Slot
  | .slot cell => [cell]
  | .reference value => [.ofReference value]
  | .done | .count _ | .flag _ | .int _ | .float _ | .long _ | .double _ => []

def ThreadReply.cells : ThreadReply → List Slot
  | .frame top => top.cells
  | .caller below => (below.map Frame.cells).getD []
  | .frames all => all.flatMap Frame.cells
  | .part answer => answer.cells
  | .sameAsCaller _ | .depth _ => []

/-! ## The two parts of a frame -/

/-- The slots that a step writes. -/
def LocalsStep.values : LocalsStep → List Slot
  | setSlot _ value => [value]
  | setInt _ value => [.ofInt value]
  | setFloat _ value => [.ofFloat value]
  | setLong _ value => longSlots value
  | setDouble _ value => longSlots (longOfDouble value)
  | setReference _ value => [.ofReference value]
  | size | isEmpty | slot _ | int _ | float _ | long _ | double _ | reference _ => []

def StackStep.values : StackStep → List Slot
  | push value => [value]
  | pushInt value => [.ofInt value]
  | pushFloat value => [.ofFloat value]
  | pushLong value => longSlots value
  | pushDouble value => longSlots (longOfDouble value)
  | pushReference value => [.ofReference value]
  | size | capacity | isEmpty | clear | peek _
  | pop | popInt | popFloat | popLong | popDouble | popReference => []

theorem LocalsStep.act_flow {step : LocalsStep} {locals next : Locals} {reply : Reply}
    (h : step.act locals = .ok (reply, next)) :
    SlotFlow locals.cells step.values next.cells reply.cells := by
  cases step with
  | size | isEmpty =>
    cases h
    exact .quiet
  | int _ | float _ | long _ | double _ =>
    obtain ⟨value, -, hval⟩ := map_eq_ok_iff.mp h
    cases hval
    exact .quiet
  | slot index =>
    obtain ⟨slot, hslot, hval⟩ := map_eq_ok_iff.mp h
    cases hval
    have hmem := Locals.mem_cells_iff.mpr ⟨index, Locals.slot_eq_ok_iff.mp hslot⟩
    exact .look (List.forall_mem_singleton.mpr (.inl hmem))
  | reference index =>
    obtain ⟨value, hvalue, hval⟩ := map_eq_ok_iff.mp h
    cases hval
    obtain ⟨slot, hslot, rfl⟩ := map_eq_ok_iff.mp hvalue
    have hmem := Locals.mem_cells_iff.mpr ⟨index, Locals.slot_eq_ok_iff.mp hslot⟩
    exact .look (List.forall_mem_singleton.mpr (.inr ⟨slot, hmem, rfl⟩))
  | setSlot _ _ | setInt _ _ | setFloat _ _ | setReference _ _ =>
    obtain ⟨_, hset, hval⟩ := map_eq_ok_iff.mp h
    cases hval
    exact .write fun _ => (Locals.setSlot_eq_ok_iff.mp hset).mem_cells
  | setLong _ _ | setDouble _ _ =>
    obtain ⟨_, hset, hval⟩ := map_eq_ok_iff.mp h
    cases hval
    exact .write fun _ => (Locals.setPair_eq_ok_iff.mp hset).mem_cells

namespace OperandStack

variable {stack next : OperandStack} {slot first second : Slot} {depth : Nat}

theorem mem_cells_of_peek (h : stack.peek depth = .ok slot) : slot ∈ stack.cells := by
  unfold peek at h
  split at h
  · rename_i hslot
    cases h
    exact List.mem_append_left _ (List.mem_of_getElem? hslot)
  · cases h

theorem mem_cells_clear : slot ∈ stack.clear.cells ↔ slot ∈ stack.cells := by
  simp [clear, cells]

/-- Popping moves the top to the spare slots and changes none. -/
theorem pop_eq_ok (h : stack.pop = .ok (slot, next)) :
    slot ∈ stack.cells ∧ ∀ cell, cell ∈ next.cells ↔ cell ∈ stack.cells := by
  obtain ⟨inUse, spare⟩ := stack
  cases inUse with
  | nil => cases h
  | cons top below =>
    cases h
    simp [cells, or_left_comm]

theorem popPair_eq_ok (h : stack.popPair = .ok ((first, second), next)) :
    ∀ cell, cell ∈ next.cells ↔ cell ∈ stack.cells := by
  obtain ⟨inUse, spare⟩ := stack
  match inUse with
  | [] | [_] => cases h
  | _ :: _ :: _ =>
    cases h
    intro cell
    simp only [cells, List.mem_append, List.mem_cons]
    grind

theorem push_eq_ok (h : stack.push slot = .ok next) :
    ∀ cell ∈ next.cells, cell ∈ stack.cells ∨ cell ∈ [slot] := by
  obtain ⟨inUse, spare⟩ := stack
  cases spare with
  | nil => cases h
  | cons _ spare =>
    cases h
    simp only [cells, List.mem_append, List.mem_cons, List.not_mem_nil]
    grind

theorem pushPair_eq_ok (h : stack.pushPair first second = .ok next) :
    ∀ cell ∈ next.cells, cell ∈ stack.cells ∨ cell ∈ [first, second] := by
  obtain ⟨inUse, spare⟩ := stack
  match spare with
  | [] | [_] => cases h
  | _ :: _ :: _ =>
    cases h
    simp only [cells, List.mem_append, List.mem_cons, List.not_mem_nil]
    grind

end OperandStack

theorem StackStep.act_flow {step : StackStep} {stack next : OperandStack} {reply : Reply}
    (h : step.act stack = .ok (reply, next)) :
    SlotFlow stack.cells step.values next.cells reply.cells := by
  cases step with
  | size | capacity | isEmpty =>
    cases h
    exact .quiet
  | clear =>
    cases h
    exact .moved (fun _ => OperandStack.mem_cells_clear) (List.forall_mem_nil _)
  | peek depth =>
    obtain ⟨slot, hslot, hval⟩ := map_eq_ok_iff.mp h
    cases hval
    exact .look (List.forall_mem_singleton.mpr (.inl (OperandStack.mem_cells_of_peek hslot)))
  | push _ | pushInt _ | pushFloat _ | pushReference _ =>
    obtain ⟨_, hpush, hval⟩ := map_eq_ok_iff.mp h
    cases hval
    exact .write (OperandStack.push_eq_ok hpush)
  | pushLong _ | pushDouble _ =>
    obtain ⟨_, hpush, hval⟩ := map_eq_ok_iff.mp h
    cases hval
    exact .write (OperandStack.pushPair_eq_ok hpush)
  | pop =>
    obtain ⟨⟨slot, rest⟩, hpop, hval⟩ := map_eq_ok_iff.mp h
    cases hval
    have hmoved := OperandStack.pop_eq_ok hpop
    exact .moved hmoved.2 (List.forall_mem_singleton.mpr (.inl hmoved.1))
  | popInt | popFloat =>
    obtain ⟨_, hvalue, hval⟩ := map_eq_ok_iff.mp h
    cases hval
    obtain ⟨⟨slot, rest⟩, hpop, hval⟩ := map_eq_ok_iff.mp hvalue
    cases hval
    exact .moved (OperandStack.pop_eq_ok hpop).2 (List.forall_mem_nil _)
  | popReference =>
    obtain ⟨_, hvalue, hval⟩ := map_eq_ok_iff.mp h
    cases hval
    obtain ⟨⟨slot, rest⟩, hpop, hval⟩ := map_eq_ok_iff.mp hvalue
    cases hval
    have hmoved := OperandStack.pop_eq_ok hpop
    exact .moved hmoved.2 (List.forall_mem_singleton.mpr (.inr ⟨slot, hmoved.1, rfl⟩))
  | popLong =>
    obtain ⟨_, hvalue, hval⟩ := map_eq_ok_iff.mp h
    cases hval
    obtain ⟨⟨_, rest⟩, hpop, hval⟩ := map_eq_ok_iff.mp hvalue
    cases hval
    exact .moved (OperandStack.popPair_eq_ok hpop) (List.forall_mem_nil _)
  | popDouble =>
    obtain ⟨_, hvalue, hval⟩ := map_eq_ok_iff.mp h
    cases hval
    obtain ⟨_, hlong, hval⟩ := map_eq_ok_iff.mp hvalue
    cases hval
    obtain ⟨⟨_, rest⟩, hpop, hval⟩ := map_eq_ok_iff.mp hlong
    cases hval
    exact .moved (OperandStack.popPair_eq_ok hpop) (List.forall_mem_nil _)

/-! ## Threads -/

theorem Frame.cells_ofSizes {maxLocals maxStack : Nat} {slot : Slot}
    (h : slot ∈ (ofSizes maxLocals maxStack).cells) : slot = {} := by
  rcases List.mem_append.mp h with hlocals | hstack
  · exact (Array.mem_replicate.mp (Array.mem_toList_iff.mp hlocals)).2
  · exact (List.mem_replicate.mp hstack).2

/-- A frame for a method is zeroed. -/
theorem Frame.exists_sizes_of_ofMethod {method : Member} {pool : ConstantPool} {frame : Frame}
    (h : ofMethod method pool = .ok frame) :
    ∃ maxLocals maxStack, frame = ofSizes maxLocals maxStack := by
  obtain ⟨name, -, h⟩ := bind_eq_ok_iff.mp h
  dsimp only at h
  split at h
  · obtain ⟨text, -, h⟩ := bind_eq_ok_iff.mp h
    obtain ⟨descriptor, -, h⟩ := bind_eq_ok_iff.mp h
    split at h
    · cases h
    · cases h
      exact ⟨_, _, rfl⟩
  · cases h

namespace Thread

variable {thread next : Thread} {frame top : Frame}

theorem mem_cells_iff {slot : Slot} :
    slot ∈ thread.cells ↔ ∃ frame ∈ thread.frames, slot ∈ frame.cells := List.mem_flatMap

theorem current_eq_ok_iff : thread.current = .ok frame ↔ thread.frames.head? = some frame := by
  unfold current
  split <;> simp_all

/-- Work on the current frame replaces it by what the work left. -/
theorem edit_eq_ok_iff {α : Type} {work : Frame → Except MachineError (α × Frame)} {value : α} :
    thread.edit work = .ok (value, next) ↔ ∃ top below top', thread.frames = top :: below ∧
      work top = .ok (value, top') ∧ next = { thread with frames := top' :: below } := by
  unfold edit
  split
  · rename_i top below hframes
    constructor
    · intro h
      obtain ⟨⟨_, top'⟩, hwork, hval⟩ := bind_eq_ok_iff.mp h
      cases hval
      exact ⟨top, below, top', hframes, hwork, rfl⟩
    · rintro ⟨_, _, top', hframes', hwork, rfl⟩
      cases hframes.symm.trans hframes'
      rw [hwork]
      rfl
  · rename_i hframes
    simp [hframes]

end Thread

/-- The slots that a step writes. -/
def ThreadStep.values : ThreadStep → List Slot
  | onLocals step => step.values
  | onStack step => step.values
  | _ => []

theorem ThreadStep.pushing_eq_ok {thread next : Thread} {found : Except MachineError Frame}
    {answer : ThreadReply × List Event} (h : pushing thread found = .ok (answer, next)) :
    ∃ frame, found = .ok frame ∧ answer.1 = .part .done ∧
      next = { thread with frames := frame :: thread.frames } := by
  obtain ⟨frame, hfound, h⟩ := bind_eq_ok_iff.mp h
  obtain ⟨⟨pushed, event⟩, hpush, hval⟩ := bind_eq_ok_iff.mp h
  cases hval
  unfold Thread.push at hpush
  split at hpush
  · cases hpush
    exact ⟨frame, hfound, rfl, rfl⟩
  · cases hpush

/-- Pushing a frame adds its slots, here next to slots outside the thread. -/
theorem ThreadStep.pushing_flow {thread next : Thread} {found : Except MachineError Frame}
    {answer : ThreadReply × List Event} {values : List Slot} (others : List Slot)
    (h : pushing thread found = .ok (answer, next))
    (hfound : ∀ frame, found = .ok frame →
      ∀ slot ∈ frame.cells, slot = {} ∨ slot ∈ thread.cells ++ others) :
    SlotFlow (thread.cells ++ others) values (next.cells ++ others) answer.1.cells := by
  obtain ⟨frame, hframe, hdone, rfl⟩ := pushing_eq_ok h
  rw [hdone]
  refine ⟨fun slot hmem => ?_, List.forall_mem_nil _⟩
  have hcells : Thread.cells { thread with frames := frame :: thread.frames } =
      frame.cells ++ thread.cells := List.flatMap_cons
  rw [hcells, List.append_assoc] at hmem
  rcases List.mem_append.mp hmem with hnew | hold
  · exact (hfound frame hframe slot hnew).imp_right .inl
  · exact .inr (.inl hold)

theorem ThreadStep.act_flow {step : ThreadStep} {thread next : Thread}
    {answer : ThreadReply × List Event} (h : step.act thread = .ok (answer, next)) :
    SlotFlow thread.cells step.values next.cells answer.1.cells := by
  -- a frame that is pushed is zeroed or a copy of one that is there
  have hpushed (found : Except MachineError Frame)
      (hpush : pushing thread found = .ok (answer, next))
      (hfound : ∀ frame, found = .ok frame →
        ∀ slot ∈ frame.cells, slot = {} ∨ slot ∈ thread.cells) :
      SlotFlow thread.cells step.values next.cells answer.1.cells := by
    simpa using pushing_flow [] hpush (by simpa using hfound)
  have hframe {frame : Frame} (hmem : frame ∈ thread.frames) :
      ∀ slot ∈ frame.cells, slot ∈ thread.cells := fun slot hslot =>
    Thread.mem_cells_iff.mpr ⟨frame, hmem, hslot⟩
  cases step with
  | pushFrame maxLocals maxStack =>
    refine hpushed _ h fun frame hfound slot hslot => ?_
    cases hfound
    exact .inl (Frame.cells_ofSizes hslot)
  | pushMethod method pool =>
    refine hpushed _ h fun frame hfound slot hslot => ?_
    obtain ⟨_, _, rfl⟩ := Frame.exists_sizes_of_ofMethod hfound
    exact .inl (Frame.cells_ofSizes hslot)
  | pushCopy =>
    refine hpushed _ h fun frame hfound slot hslot => ?_
    have hhead := Thread.current_eq_ok_iff.mp hfound
    exact .inr (hframe (List.mem_of_mem_head? hhead) slot hslot)
  | popFrame =>
    obtain ⟨⟨frame, popped, event⟩, hpop, hval⟩ := bind_eq_ok_iff.mp h
    cases hval
    unfold Thread.pop at hpop
    split at hpop
    · rename_i below hframes
      cases hpop
      have hcells : thread.cells = frame.cells ++ below.flatMap Frame.cells := by
        rw [Thread.cells, hframes, List.flatMap_cons]
      refine ⟨fun slot hslot => .inr (.inl ?_), fun slot hslot => .inl ?_⟩
      · exact hcells ▸ List.mem_append_right _ hslot
      · exact hcells ▸ List.mem_append_left _ hslot
    · cases hpop
  | current =>
    obtain ⟨frame, hfound, hval⟩ := bind_eq_ok_iff.mp h
    cases hval
    have hhead := Thread.current_eq_ok_iff.mp hfound
    exact .look fun slot hslot => .inl (hframe (List.mem_of_mem_head? hhead) slot hslot)
  | caller =>
    cases h
    refine .look fun slot hslot => .inl ?_
    rcases hcaller : thread.caller? with _ | frame
    · simp [ThreadReply.cells, hcaller] at hslot
    · simp only [ThreadReply.cells, hcaller] at hslot
      exact hframe (List.mem_of_getElem? hcaller) slot hslot
  | frames =>
    cases h
    exact .look fun slot hslot => .inl hslot
  | sameAsCaller =>
    obtain ⟨frame, -, hval⟩ := bind_eq_ok_iff.mp h
    cases hval
    exact .quiet
  | isEmpty | maxDepth | setPc _ =>
    cases h
    exact .quiet
  | onLocals step =>
    obtain ⟨top, below, top', hframes, hwork, rfl⟩ := Thread.edit_eq_ok_iff.mp h
    obtain ⟨⟨reply, locals⟩, hact, hval⟩ := bind_eq_ok_iff.mp hwork
    cases hval
    have hflow := (LocalsStep.act_flow hact).append_right
      (top.stack.cells ++ below.flatMap Frame.cells)
    simpa [Thread.cells, Frame.cells, hframes, ThreadStep.values, ThreadReply.cells] using hflow
  | onStack step =>
    obtain ⟨top, below, top', hframes, hwork, rfl⟩ := Thread.edit_eq_ok_iff.mp h
    obtain ⟨⟨reply, stack⟩, hact, hval⟩ := bind_eq_ok_iff.mp hwork
    cases hval
    have hflow := ((StackStep.act_flow hact).append_left top.locals.cells).append_right
      (below.flatMap Frame.cells)
    simpa [Thread.cells, Frame.cells, hframes, ThreadStep.values, ThreadReply.cells] using hflow

end Jvm
