import Jvm.Machine.Frame
import Jvm.Machine.Run
import Jvm.Proofs.Machine.Locals

/-! # Arguments in local variables

The receiver of an instance method comes first, then each argument at the next free slot, two slots
for a long or double (`Argument.place`). A frame is granted for a method exactly if all of them can
be stored, and the slots needed are those in front of the first that stays free. As the arguments
share no slot, the order in which they are stored does not matter. -/

namespace Jvm

/-- The kinds of value that typed instructions tell apart. -/
inductive Kind where
  | int | float | long | double | reference
  deriving DecidableEq

def Kind.width : Kind → Nat
  | long | double => 2
  | int | float | reference => 1

/-- The kind that a value of the type is handled as. -/
def FieldType.kind : FieldType → Kind
  | ⟨_, _ + 1⟩ => .reference
  | ⟨.object _, 0⟩ => .reference
  | ⟨.long, 0⟩ => .long
  | ⟨.double, 0⟩ => .double
  | ⟨.float, 0⟩ => .float
  | ⟨.byte, 0⟩ | ⟨.char, 0⟩ | ⟨.int, 0⟩ | ⟨.short, 0⟩ | ⟨.boolean, 0⟩ => .int

theorem FieldType.width_kind (type : FieldType) : type.kind.width = type.slotWidth := by
  obtain ⟨element, dimensions⟩ := type
  cases dimensions <;> cases element <;> rfl

/-- The kinds of the arguments on entry, the receiver of an instance method first. -/
def MethodDescriptor.argumentKinds (method : MethodDescriptor) (isStatic : Bool) : List Kind :=
  (if isStatic then [] else [.reference]) ++ method.parameters.map FieldType.kind

inductive Value where
  | int (value : Int32)
  | float (value : Binary32)
  | long (value : Int64)
  | double (value : Binary64)
  | reference (value : Option ObjectRef)
  deriving DecidableEq

namespace Value

def kind : Value → Kind
  | int _ => .int
  | float _ => .float
  | long _ => .long
  | double _ => .double
  | reference _ => .reference

/-- The slots that hold the value. -/
def slots : Value → List Slot
  | int value => [.ofInt value]
  | float value => [.ofFloat value]
  | long value => longSlots value
  | double value => longSlots (longOfDouble value)
  | reference value => [.ofReference value]

/-- The answer that shows the value. -/
def reply : Value → Reply
  | int value => .int value
  | float value => .float value
  | long value => .long value
  | double value => .double value
  | reference value => .reference value

theorem length_slots (value : Value) : value.slots.length = value.kind.width := by
  cases value <;> rfl

end Value

namespace Locals

def store (locals : Locals) (index : Nat) : Value → Except MachineError Locals
  | .int value => locals.setInt index value
  | .float value => locals.setFloat index value
  | .long value => locals.setLong index value
  | .double value => locals.setDouble index value
  | .reference value => locals.setReference index value

def load (locals : Locals) (index : Nat) : Kind → Except MachineError Value
  | .int => .int <$> locals.int index
  | .float => .float <$> locals.float index
  | .long => .long <$> locals.long index
  | .double => .double <$> locals.double index
  | .reference => .reference <$> locals.reference index

variable {locals next : Locals} {index : Nat} {value : Value}

theorem store_eq_ok_iff :
    locals.store index value = .ok next ↔ locals.Wrote index value.slots next := by
  cases value with
  | int _ | float _ | reference _ => exact setSlot_eq_ok_iff
  | long _ | double _ => exact setPair_eq_ok_iff

theorem exists_store_iff :
    (∃ next, locals.store index value = .ok next) ↔ index + value.kind.width ≤ locals.size := by
  constructor
  · rintro ⟨next, hstore⟩
    exact value.length_slots ▸ (store_eq_ok_iff.mp hstore).fits
  · intro h
    cases value with
    | int _ | float _ | reference _ => exact ⟨_, dif_pos h⟩
    | long _ | double _ => exact ⟨_, if_pos h⟩

/-- The value is in the slots from the index on. -/
def Holds (locals : Locals) (index : Nat) (value : Value) : Prop :=
  ∀ i slot, value.slots[i]? = some slot → locals.slots[index + i]? = some slot

theorem long_of_slots {number : Int64}
    (hlow : locals.slots[index]? = some (.ofInt (lowHalf number)))
    (hhigh : locals.slots[index + 1]? = some (.ofInt (highHalf number))) :
    locals.long index = .ok number := by
  rw [long, pair_eq_ok_iff.mpr ⟨hlow, hhigh⟩]
  exact congrArg Except.ok (joinHalves_halves number)

/-- A value reads back from its slots bit for bit. -/
theorem Holds.load (h : locals.Holds index value) : locals.load index value.kind = .ok value := by
  cases value with
  | int number =>
    have hslot : locals.slot index = .ok (.ofInt number) := slot_eq_ok_iff.mpr (h 0 _ rfl)
    rw [Value.kind, Locals.load, int, hslot]
    rfl
  | float number =>
    have hslot : locals.slot index = .ok (.ofFloat number) := slot_eq_ok_iff.mpr (h 0 _ rfl)
    rw [Value.kind, Locals.load, float, hslot]
    simp [Slot.float, Slot.ofFloat, Slot.ofInt, Functor.map, Except.map]
  | reference object =>
    have hslot : locals.slot index = .ok (.ofReference object) := slot_eq_ok_iff.mpr (h 0 _ rfl)
    rw [Value.kind, Locals.load, reference, hslot]
    rfl
  | long number =>
    have hlong : locals.long index = .ok number := long_of_slots (h 0 _ rfl) (h 1 _ rfl)
    rw [Value.kind, Locals.load, hlong]
    rfl
  | double number =>
    have hlong : locals.long index = .ok (longOfDouble number) :=
      long_of_slots (h 0 _ rfl) (h 1 _ rfl)
    rw [Value.kind, Locals.load, double, hlong]
    simp [doubleOfLong, longOfDouble, Functor.map, Except.map]

end Locals

/-- The first slot that stays free if values of these kinds are put from the slot `free` on. -/
def Kind.firstFree (free : Nat) : List Kind → Nat
  | [] => free
  | kind :: kinds => firstFree (free + kind.width) kinds

theorem Kind.le_firstFree (kinds : List Kind) (free : Nat) : free ≤ firstFree free kinds := by
  induction kinds generalizing free with
  | nil => exact Nat.le_refl free
  | cons kind kinds ih => exact Nat.le_trans (Nat.le_add_right _ _) (ih _)

theorem Kind.firstFree_add (kinds : List Kind) (free more : Nat) :
    firstFree (free + more) kinds = more + firstFree free kinds := by
  induction kinds generalizing free with
  | nil => exact Nat.add_comm _ _
  | cons kind kinds ih => rw [firstFree, firstFree, Nat.add_right_comm, ih]

theorem Kind.firstFree_types (types : List FieldType) (free : Nat) :
    firstFree free (types.map FieldType.kind) =
      types.foldr (fun type slots => type.slotWidth + slots) free := by
  induction types with
  | nil => rfl
  | cons type types ih =>
    rw [List.map_cons, firstFree, firstFree_add, FieldType.width_kind, ih, List.foldr_cons]

/-- The slots counted for a descriptor are those in front of the first free one. -/
theorem MethodDescriptor.argumentSlots_eq (method : MethodDescriptor) (isStatic : Bool) :
    method.argumentSlots isStatic = Kind.firstFree 0 (method.argumentKinds isStatic) := by
  rw [argumentSlots, ← Kind.firstFree_types]
  cases isStatic <;> rfl

/-- A value and the slot where it starts. -/
structure Argument where
  index : Nat
  value : Value

namespace Argument

/-- The slot behind the value. -/
def stop (argument : Argument) : Nat := argument.index + argument.value.kind.width

/-- Puts each value at the next free slot. -/
def place (free : Nat) : List Value → List Argument
  | [] => []
  | value :: values => ⟨free, value⟩ :: place (free + value.kind.width) values

/-- Stores one after the other. -/
def storeAll (arguments : List Argument) (locals : Locals) : Except MachineError Locals :=
  arguments.foldlM (fun locals argument => locals.store argument.index argument.value) locals

/-- The two share no slot. -/
def Apart (first second : Argument) : Prop := first.stop ≤ second.index ∨ second.stop ≤ first.index

variable {arguments : List Argument} {argument : Argument} {locals next : Locals}
  {values : List Value} {free : Nat}

theorem Apart.symm {first second : Argument} (h : first.Apart second) : second.Apart first :=
  Or.symm h

theorem le_index_of_mem_place (h : argument ∈ place free values) : free ≤ argument.index := by
  induction values generalizing free with
  | nil => cases h
  | cons value values ih =>
    rcases List.mem_cons.mp h with rfl | hmem
    · exact Nat.le_refl free
    · exact Nat.le_trans (Nat.le_add_right _ _) (ih hmem)

theorem pairwise_place (values : List Value) (free : Nat) : (place free values).Pairwise Apart := by
  induction values generalizing free with
  | nil => exact .nil
  | cons value values ih => exact .cons (fun _ hmem => .inl (le_index_of_mem_place hmem)) (ih _)

/-- What is placed ends where the free slots begin. -/
theorem forall_place_stop_le_iff {size : Nat} (hfree : free ≤ size) :
    (∀ argument ∈ place free values, argument.stop ≤ size) ↔
      Kind.firstFree free (values.map Value.kind) ≤ size := by
  induction values generalizing free with
  | nil => simpa [place, Kind.firstFree] using hfree
  | cons value values ih =>
    rw [place, List.forall_mem_cons, List.map_cons, Kind.firstFree]
    constructor
    · rintro ⟨hfirst, hrest⟩
      exact (ih hfirst).mp hrest
    · intro h
      have hfirst : free + value.kind.width ≤ size := Nat.le_trans (Kind.le_firstFree _ _) h
      exact ⟨hfirst, (ih hfirst).mpr h⟩

theorem storeAll_cons_eq_ok_iff : storeAll (argument :: arguments) locals = .ok next ↔
    ∃ mid, locals.store argument.index argument.value = .ok mid ∧
      storeAll arguments mid = .ok next := by
  rw [storeAll, List.foldlM_cons, bind_eq_ok_iff]
  rfl

/-- All of them can be stored exactly if each fits. -/
theorem exists_storeAll_iff :
    (∃ next, storeAll arguments locals = .ok next) ↔
      ∀ argument ∈ arguments, argument.stop ≤ locals.size := by
  induction arguments generalizing locals with
  | nil => exact iff_of_true ⟨locals, rfl⟩ (List.forall_mem_nil _)
  | cons argument arguments ih =>
    rw [List.forall_mem_cons]
    constructor
    · rintro ⟨next, h⟩
      obtain ⟨mid, hstore, hrest⟩ := storeAll_cons_eq_ok_iff.mp h
      refine ⟨Locals.exists_store_iff.mp ⟨mid, hstore⟩, ?_⟩
      rw [← (Locals.store_eq_ok_iff.mp hstore).size_eq]
      exact ih.mp ⟨next, hrest⟩
    · rintro ⟨hfirst, hrest⟩
      obtain ⟨mid, hstore⟩ := Locals.exists_store_iff.mpr hfirst
      rw [← (Locals.store_eq_ok_iff.mp hstore).size_eq] at hrest
      obtain ⟨next, hnext⟩ := ih.mpr hrest
      exact ⟨next, storeAll_cons_eq_ok_iff.mpr ⟨mid, hstore, hnext⟩⟩

/-- Arguments that share no slot are all there after they were stored, and the slots outside of
them are as before. -/
theorem holds_of_storeAll (h : storeAll arguments locals = .ok next)
    (hapart : arguments.Pairwise Apart) :
    (∀ argument ∈ arguments, next.Holds argument.index argument.value) ∧
      ∀ i, (∀ argument ∈ arguments, i < argument.index ∨ argument.stop ≤ i) →
        next.slots[i]? = locals.slots[i]? := by
  induction arguments generalizing locals with
  | nil =>
    cases h
    exact ⟨List.forall_mem_nil _, fun _ _ => rfl⟩
  | cons argument arguments ih =>
    obtain ⟨mid, hstore, hrest⟩ := storeAll_cons_eq_ok_iff.mp h
    obtain ⟨hfirst, hpairs⟩ := List.pairwise_cons.mp hapart
    obtain ⟨hholds, houtside⟩ := ih hrest hpairs
    have hwrote := Locals.store_eq_ok_iff.mp hstore
    have hstop : argument.index + argument.value.slots.length = argument.stop := by
      rw [Value.length_slots, stop]
    refine ⟨List.forall_mem_cons.mpr ⟨fun i slot hslot => ?_, hholds⟩, fun i hi => ?_⟩
    · -- what is stored later leaves these slots alone
      have hlt := (List.getElem?_eq_some_iff.mp hslot).1
      rw [houtside, hwrote.inside i hlt, hslot]
      intro other hother
      rcases hfirst other hother with hbehind | hfront <;> omega
    · obtain ⟨hargument, hothers⟩ := List.forall_mem_cons.mp hi
      rw [houtside i hothers, hwrote.outside i (by omega)]

/-- In a zeroed table of enough slots arguments can be stored in any order, all of them or only
some. They read back, and the slots behind the last one stay zeroed. -/
theorem storeAll_ofSize {maxLocals : Nat} {chosen stores : List Argument}
    (h : Kind.firstFree 0 (values.map Value.kind) ≤ maxLocals)
    (hchosen : chosen.Sublist (place 0 values)) (hstores : stores.Perm chosen) :
    ∃ locals, storeAll stores (.ofSize maxLocals) = .ok locals ∧
      (∀ argument ∈ stores, locals.load argument.index argument.value.kind = .ok argument.value) ∧
      ∀ index, Kind.firstFree 0 (values.map Value.kind) ≤ index → index < maxLocals →
        locals.slot index = .ok {} := by
  have hstop : ∀ argument ∈ stores, argument.stop ≤ Kind.firstFree 0 (values.map Value.kind) := by
    intro argument hmem
    exact (forall_place_stop_le_iff (Nat.zero_le _)).mpr (Nat.le_refl _) argument
      (hchosen.subset (hstores.subset hmem))
  have hapart : stores.Pairwise Apart :=
    (hstores.pairwise_iff Apart.symm).mpr ((pairwise_place values 0).sublist hchosen)
  have hsize : (Locals.ofSize maxLocals).size = maxLocals := Array.size_replicate
  obtain ⟨locals, hlocals⟩ := exists_storeAll_iff.mpr fun argument hmem =>
    hsize ▸ Nat.le_trans (hstop argument hmem) h
  obtain ⟨hholds, houtside⟩ := holds_of_storeAll hlocals hapart
  refine ⟨locals, hlocals, fun argument hmem => (hholds argument hmem).load, ?_⟩
  intro index hfree hlt
  have hkept := houtside index fun argument hmem => .inr (Nat.le_trans (hstop argument hmem) hfree)
  rw [Locals.slot_eq_ok_iff, hkept]
  simp [Locals.ofSize, hlt]

end Argument

namespace Frame

variable {method : Member} {pool : ConstantPool} {name text : String} {code : Code}
  {descriptor : MethodDescriptor}

/-- Where nothing else is at fault, the slots decide. -/
theorem ofMethod_eq (hname : method.name pool = .ok name) (hcode : method.code? = some code)
    (htext : method.descriptor pool = .ok text)
    (hparse : MethodDescriptor.parse text = .ok descriptor) :
    let needed := Kind.firstFree 0 (descriptor.argumentKinds (method.accessFlags.has .static))
    ofMethod method pool =
      if code.maxLocals.toNat < needed then
        .error (.localsTooSmall name needed code.maxLocals.toNat)
      else .ok (ofCode code) := by
  intro needed
  have hok {α : Type} (value : α) :
      (Except.ok value : Except FormatError α).mapError MachineError.format = .ok value := rfl
  rw [show needed = descriptor.argumentSlots (method.accessFlags.has .static) from
    (descriptor.argumentSlots_eq _).symm]
  unfold ofMethod
  simp only [hname, hcode, htext, hok, hparse, bind, Except.bind]
  split <;> rfl

/-- Which frames are granted, and what they are good for: all arguments can be stored exactly if
there is a frame; the fault otherwise tells how many slots are needed; and some or all of the
arguments, stored in any order, read back bit for bit and leave the other slots zeroed. -/
theorem ofMethod_receives (hname : method.name pool = .ok name) (hcode : method.code? = some code)
    (htext : method.descriptor pool = .ok text)
    (hparse : MethodDescriptor.parse text = .ok descriptor) :
    let kinds := descriptor.argumentKinds (method.accessFlags.has .static)
    let needed := Kind.firstFree 0 kinds
    let maxLocals := code.maxLocals.toNat
    (∀ values : List Value, values.map Value.kind = kinds →
      ((∃ frame, ofMethod method pool = .ok frame) ↔
        ∃ locals, Argument.storeAll (Argument.place 0 values) (.ofSize maxLocals) = .ok locals)) ∧
    ((¬ ∃ frame, ofMethod method pool = .ok frame) →
      ofMethod method pool = .error (.localsTooSmall name needed maxLocals)) ∧
    ∀ frame, ofMethod method pool = .ok frame →
      frame.locals.size = maxLocals ∧ frame.stack.isEmpty ∧
      frame.stack.capacity = code.maxStack.toNat ∧
      ∀ values : List Value, values.map Value.kind = kinds →
        ∀ chosen stores : List Argument, chosen.Sublist (Argument.place 0 values) →
          stores.Perm chosen → ∃ locals, Argument.storeAll stores frame.locals = .ok locals ∧
            (∀ argument ∈ stores,
              locals.load argument.index argument.value.kind = .ok argument.value) ∧
            ∀ index, needed ≤ index → index < maxLocals → locals.slot index = .ok {} := by
  intro kinds needed maxLocals
  have hmethod : ofMethod method pool =
      if maxLocals < needed then .error (.localsTooSmall name needed maxLocals)
      else .ok (ofCode code) := ofMethod_eq hname hcode htext hparse
  have hgranted : (∃ frame, ofMethod method pool = .ok frame) ↔ needed ≤ maxLocals := by
    rw [hmethod]
    by_cases hfew : maxLocals < needed
    · simp [hfew]
    · simp [hfew, Nat.not_lt.mp hfew]
  refine ⟨fun values hvalues => ?_, fun hrefused => ?_, fun frame hframe => ?_⟩
  · have hsize : (Locals.ofSize maxLocals).size = maxLocals := Array.size_replicate
    rw [hgranted, Argument.exists_storeAll_iff, hsize,
      Argument.forall_place_stop_le_iff (Nat.zero_le _), hvalues]
  · rw [hgranted, Nat.not_le] at hrefused
    rw [hmethod, if_pos hrefused]
  · have hneeded := hgranted.mp ⟨frame, hframe⟩
    rw [hmethod, if_neg (Nat.not_lt.mpr hneeded)] at hframe
    cases hframe
    refine ⟨Array.size_replicate, rfl, ?_, fun values hvalues chosen stores hchosen hstores => ?_⟩
    · simp [ofCode, ofSizes, OperandStack.ofCapacity, OperandStack.capacity]
    · rw [show needed = Kind.firstFree 0 (values.map Value.kind) from hvalues ▸ rfl] at hneeded ⊢
      exact Argument.storeAll_ofSize hneeded hchosen hstores

/-- An instance method whose double is last takes six of seven slots, and its arguments may come
last one first. The same method without a receiver takes five, from slot 0 on. -/
theorem ofMethod_receives_doubleLast :
    let pool : ConstantPool := ⟨#[none, some (.utf8 "put"), some (.utf8 "(JLo;D)V")]⟩
    let code : Code := ⟨4, 7, [], [], []⟩
    let onObject : Member :=
      { accessFlags := {}, nameIndex := 1, descriptorIndex := 2, attributes := [.code code] }
    let onClass : Member := { onObject with accessFlags := ⟨0x0008⟩ }
    let descriptor : MethodDescriptor := ⟨[⟨.long, 0⟩, ⟨.object "o", 0⟩, ⟨.double, 0⟩], none⟩
    let values : List Value := [.long 3, .reference none, .double ⟨1⟩]
    (onObject.name pool = .ok "put" ∧ onObject.code? = some code ∧
      onObject.descriptor pool = .ok "(JLo;D)V" ∧
      MethodDescriptor.parse "(JLo;D)V" = .ok descriptor) ∧
    (∃ frame, ofMethod onObject pool = .ok frame ∧
      ∃ locals, Argument.storeAll (Argument.place 0 (.reference none :: values)).reverse
          frame.locals = .ok locals ∧
        locals.load 4 .double = .ok (.double ⟨1⟩) ∧ locals.slot 6 = .ok {}) ∧
    ∃ frame, ofMethod onClass pool = .ok frame ∧
      ∃ locals, Argument.storeAll (Argument.place 0 values).reverse frame.locals = .ok locals ∧
        locals.load 0 .long = .ok (.long 3) ∧ locals.load 3 .double = .ok (.double ⟨1⟩) ∧
        locals.slot 5 = .ok {} := by
  intro pool code onObject onClass descriptor values
  refine ⟨⟨rfl, rfl, rfl, rfl⟩, ?_, ?_⟩
  · obtain ⟨hexact, -, hgood⟩ :=
      @ofMethod_receives onObject pool "put" "(JLo;D)V" code descriptor rfl rfl rfl rfl
    have hkinds : (Value.reference none :: values).map Value.kind =
        descriptor.argumentKinds (onObject.accessFlags.has .static) := by
      show _ = descriptor.argumentKinds (AccessFlags.has {} .static)
      rfl
    obtain ⟨frame, hframe⟩ := (hexact _ hkinds).mpr ⟨_, rfl⟩
    obtain ⟨-, -, -, hstored⟩ := hgood frame hframe
    obtain ⟨locals, hlocals, hload, hrest⟩ :=
      hstored _ hkinds _ _ (List.Sublist.refl _) (List.reverse_perm _)
    have hdouble : Argument.mk 4 (.double ⟨1⟩) ∈
        (Argument.place 0 (.reference none :: values)).reverse := by
      simp [Argument.place, values, Value.kind, Kind.width]
    exact ⟨frame, hframe, locals, hlocals, hload _ hdouble, hrest 6 (by decide) (by decide)⟩
  · obtain ⟨hexact, -, hgood⟩ :=
      @ofMethod_receives onClass pool "put" "(JLo;D)V" code descriptor rfl rfl rfl rfl
    have hkinds : values.map Value.kind =
        descriptor.argumentKinds (onClass.accessFlags.has .static) := by
      show _ = descriptor.argumentKinds (AccessFlags.has ⟨0x0008⟩ .static)
      rfl
    obtain ⟨frame, hframe⟩ := (hexact values hkinds).mpr ⟨_, rfl⟩
    obtain ⟨-, -, -, hstored⟩ := hgood frame hframe
    obtain ⟨locals, hlocals, hload, hrest⟩ :=
      hstored values hkinds _ _ (List.Sublist.refl _) (List.reverse_perm _)
    have hlong : Argument.mk 0 (.long 3) ∈ (Argument.place 0 values).reverse := by
      simp [Argument.place, values, Value.kind, Kind.width]
    have hdouble : Argument.mk 3 (.double ⟨1⟩) ∈ (Argument.place 0 values).reverse := by
      simp [Argument.place, values, Value.kind, Kind.width]
    exact ⟨frame, hframe, locals, hlocals, hload _ hlong, hload _ hdouble,
      hrest 5 (by decide) (by decide)⟩

end Frame

end Jvm
