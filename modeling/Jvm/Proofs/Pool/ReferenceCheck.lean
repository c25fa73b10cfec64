import Jvm.Proofs.Decoding.Law
import Jvm.Proofs.Pool.Stream

/-! # The check of references

Once all constants that are announced have been read, only the pool indices in them can still be
wrong. The check goes through them by slot and then by field and stops at the first one that leads
to no constant (`ConstantPool.checked_of_declares`). -/

namespace Jvm

open BigEndian Decoder

/-- The constant holds this pool index; its pool indices are numbered from 0 in the order of its
fields. The bootstrap index of a dynamic call is none. -/
inductive Constant.HoldsIndex : Constant → Nat → UInt16 → Prop
  | className (nameIndex : UInt16) : HoldsIndex (.classInfo nameIndex) 0 nameIndex
  | text (textIndex : UInt16) : HoldsIndex (.string textIndex) 0 textIndex
  | memberClass (kind : MemberKind) (classIndex nameAndTypeIndex : UInt16) :
      HoldsIndex (.memberRef kind classIndex nameAndTypeIndex) 0 classIndex
  | memberNameAndType (kind : MemberKind) (classIndex nameAndTypeIndex : UInt16) :
      HoldsIndex (.memberRef kind classIndex nameAndTypeIndex) 1 nameAndTypeIndex
  | name (nameIndex descriptorIndex : UInt16) :
      HoldsIndex (.nameAndType nameIndex descriptorIndex) 0 nameIndex
  | descriptor (nameIndex descriptorIndex : UInt16) :
      HoldsIndex (.nameAndType nameIndex descriptorIndex) 1 descriptorIndex
  | handle (kind : UInt8) (referenceIndex : UInt16) :
      HoldsIndex (.methodHandle kind referenceIndex) 0 referenceIndex
  | methodType (descriptorIndex : UInt16) :
      HoldsIndex (.methodType descriptorIndex) 0 descriptorIndex
  | dynamic (bootstrapIndex nameAndTypeIndex : UInt16) :
      HoldsIndex (.invokeDynamic bootstrapIndex nameAndTypeIndex) 0 nameAndTypeIndex

theorem Constant.holdsIndex_iff {constant : Constant} {field : Nat} {index : UInt16} :
    constant.HoldsIndex field index ↔ constant.references[field]? = some index := by
  constructor
  · intro h
    cases h <;> rfl
  · intro h
    -- no constant holds more than two
    match field with
    | 0 => cases constant <;> cases h <;> constructor
    | 1 => cases constant <;> cases h <;> constructor
    | _ + 2 => cases constant <;> cases h

theorem Constant.mem_references_iff {constant : Constant} {index : UInt16} :
    index ∈ constant.references ↔ ∃ field, constant.HoldsIndex field index := by
  simp only [holdsIndex_iff, List.mem_iff_getElem?]

/-- The constants could not all be read. -/
def FormatError.OnStream : FormatError → Prop
  | truncated .. | unknownTag .. | malformedText _ | wideAtEnd _ => True
  | badMagic _ | unsupportedVersion .. | indexOutOfRange .. | unusableIndex _ | kindMismatch ..
  | notMemberRef .. | invalidDescriptor _ => False

/-- The constant at hand could not be read. -/
def FormatError.OnConstant : FormatError → Prop
  | truncated .. | unknownTag .. | malformedText _ => True
  | _ => False

/-! ## Faults while constants are read -/

/-- The faults of the step are all of this kind. -/
def FailsAs {α : Type} (kind : FormatError → Prop) (step : Decoder α) : Prop :=
  ∀ c fault, (step c).result = .error fault → kind fault

/-- A fault of the step is one of reading. -/
def FailsOnStream {α : Type} (step : Decoder α) : Prop :=
  ∀ c fault, (step c).result = .error fault → fault.OnStream

section

variable {α β : Type} {kind kind' : FormatError → Prop}

theorem FailsAs.mono {step : Decoder α} (h : FailsAs kind step)
    (hkind : ∀ fault, kind fault → kind' fault) : FailsAs kind' step :=
  fun c fault hfault => hkind fault (h c fault hfault)

theorem FailsAs.bind {first : Decoder α} {second : α → Decoder β} (hfirst : FailsAs kind first)
    (hsecond : ∀ value, FailsAs kind (second value)) : FailsAs kind (first >>= second) := by
  intro c fault hfault
  rcases h : first c with ⟨found | value, next, events⟩
  · rw [bind_of_error h] at hfault
    cases hfault
    exact hfirst c fault (by rw [h])
  · rw [bind_of_ok h] at hfault
    exact hsecond value next fault hfault

theorem failsAs_of_ok {step : Decoder α} (h : ∀ c fault, (step c).result ≠ .error fault) :
    FailsAs kind step :=
  fun c fault hfault => absurd hfault (h c fault)

theorem failsAs_fail {fault : FormatError} (h : kind fault) :
    FailsAs kind (fail fault : Decoder α) := by
  intro c other hother
  cases hother
  exact h

/-- Reading fails for want of bytes. -/
theorem failsAs_steps (h : ∀ offset needed, kind (.truncated offset needed)) :
    Steps (FailsAs kind) where
  pure _ := failsAs_of_ok fun _ _ h => (nomatch h)
  bind := .bind
  bytes count c fault hfault := by
    unfold bytes at hfault
    split at hfault
    · cases hfault
    · cases hfault
      exact h _ _

theorem failsAs_position : FailsAs kind position :=
  failsAs_of_ok fun _ _ h => (nomatch h)

end

theorem Constant.failsAs_decode : FailsAs FormatError.OnConstant decode := by
  have steps : Steps (FailsAs FormatError.OnConstant) := failsAs_steps fun _ _ => trivial
  have htext : FailsAs FormatError.OnConstant decodeText :=
    steps.bind steps.u16 fun length => steps.bind failsAs_position fun start =>
      steps.bind (steps.bytes length.toNat) fun encoded => by
        cases ModifiedUtf8.decode? encoded with
        | some text => exact steps.pure text
        | none => exact failsAs_fail trivial
  refine steps.bind failsAs_position fun offset => steps.bind steps.u8 fun byte => ?_
  cases Tag.ofByte? byte with
  | some kind => exact steps.constantPayload fun _ => htext
  | none => exact failsAs_fail trivial

theorem FormatError.OnConstant.onStream {fault : FormatError} (h : fault.OnConstant) :
    fault.OnStream := by
  cases fault with
  | truncated | unknownTag | malformedText => trivial
  | _ => exact h.elim

namespace ConstantPool

theorem failsOnStream_decodeSlots : FailsOnStream decodeSlots := by
  show FailsAs FormatError.OnStream decodeSlots
  have steps : Steps (FailsAs FormatError.OnStream) := failsAs_steps fun _ _ => trivial
  have hslot (slots : Array (Option Constant)) : FailsAs FormatError.OnStream (decodeSlot slots) := by
    unfold decodeSlot
    split
    · exact steps.pure _
    · exact steps.bind (Constant.failsAs_decode.mono fun _ h => h.onStream) fun constant =>
        steps.bind (failsAs_of_ok fun _ _ h => (nomatch h)) fun _ => steps.pure _
  refine steps.bind steps.u16 fun count =>
    steps.bind (steps.rounds hslot (count.toNat - 1) #[none]) fun slots => ?_
  split
  · exact failsAs_fail trivial
  · exact steps.pure _

/-! ## The first index that leads to no constant -/

/-- There is a constant at the index. -/
def Lands (pool : ConstantPool) (index : UInt16) : Prop :=
  ∃ target, pool.slots[index.toNat]? = some (some target)

/-- The constant in the slot holds, in this field, an index at which there is no constant. -/
def Dangles (pool : ConstantPool) (slot field : Nat) (index : UInt16) : Prop :=
  ∃ constant, pool.slots[slot]? = some (some constant) ∧ constant.HoldsIndex field index ∧
    ¬ pool.Lands index

/-- No other one is in an earlier slot or in an earlier field of the same slot. -/
def DanglesFirst (pool : ConstantPool) (slot field : Nat) (index : UInt16) : Prop :=
  pool.Dangles slot field index ∧ ∀ slot' field' index', pool.Dangles slot' field' index' →
    slot < slot' ∨ slot = slot' ∧ field ≤ field'

variable {c next : Cursor} {count : UInt16} {constants : List Constant} {pool : ConstantPool}
  {index : UInt16} {fault : FormatError}

theorem discard_get_eq_ok_iff : discard (pool.get index) = .ok () ↔ pool.Lands index := by
  simp only [discard_eq_ok_iff, get_eq_ok_iff, Lands]

theorem discard_get_eq_error_iff :
    discard (pool.get index) = .error fault ↔ pool.get index = .error fault := by
  cases pool.get index with
  | error found => exact ⟨fun h => by cases h; rfl, fun h => by cases h; rfl⟩
  | ok constant => exact ⟨fun h => (nomatch h), fun h => (nomatch h)⟩

/-- The indices of one constant are checked after another. -/
theorem checkReferences_eq (pool : ConstantPool) : pool.checkReferences =
    pool.entries.forM fun entry => entry.2.references.forM fun index => discard (pool.get index) := by
  unfold checkReferences
  induction pool.entries with
  | nil => rfl
  | cons entry entries ih =>
    rw [List.forM_eq_forM, List.forM_eq_forM] at ih ⊢
    rw [List.flatMap_cons, List.forM_append, List.forM_cons, ih]

theorem forM_get_eq_ok_iff {indices : List UInt16} :
    (indices.forM fun index => discard (pool.get index)) = .ok () ↔
      ∀ index ∈ indices, pool.Lands index := by
  rw [forM_eq_ok_iff]
  simp only [discard_get_eq_ok_iff]

/-- Behind entries whose indices all lead to constants, only the next one and those after it are
left to hold one that does not. -/
theorem Dangles.behind {earlier later : List (Nat × Constant)} {slot slot' field : Nat}
    {constant : Constant} (h : pool.Dangles slot' field index)
    (hentries : pool.entries = earlier ++ (slot, constant) :: later)
    (hearlier : ∀ entry ∈ earlier, ∀ index ∈ entry.2.references, pool.Lands index) :
    slot < slot' ∨ slot = slot' ∧ constant.HoldsIndex field index := by
  have hsorted := pairwise_entries pool
  obtain ⟨constant', hslot, hfield, hdangling⟩ := h
  rw [hentries, List.pairwise_append, List.pairwise_cons] at hsorted
  rw [← mem_entries_iff, hentries] at hslot
  rcases List.mem_append.mp hslot with hmem | hmem
  · have hlands := hearlier _ hmem index (Constant.mem_references_iff.mpr ⟨field, hfield⟩)
    exact absurd hlands hdangling
  · rcases List.mem_cons.mp hmem with heq | hmem
    · obtain ⟨rfl, rfl⟩ := Prod.mk.inj heq
      exact .inr ⟨rfl, hfield⟩
    · exact .inl (hsorted.2.1.1 _ hmem)

/-- A failed check stopped at the first index that leads to no constant. -/
theorem exists_danglesFirst (h : pool.checkReferences = .error fault) :
    ∃ slot field index, pool.DanglesFirst slot field index ∧ pool.get index = .error fault := by
  rw [checkReferences_eq] at h
  obtain ⟨earlier, ⟨slot, constant⟩, later, hentries, hearlier, hfault⟩ := forM_eq_error_iff.mp h
  obtain ⟨before, index, after, hreferences, hbefore, hindex⟩ := forM_eq_error_iff.mp hfault
  dsimp only at hreferences
  have hslot : pool.slots[slot]? = some (some constant) := by
    rw [← mem_entries_iff, hentries]
    exact List.mem_append_right _ List.mem_cons_self
  have hfield : constant.HoldsIndex before.length index := by
    rw [Constant.holdsIndex_iff, hreferences]
    simp
  have hdangling : ¬ pool.Lands index := by
    rw [← discard_get_eq_ok_iff, hindex]
    exact nofun
  refine ⟨slot, before.length, index, ⟨⟨constant, hslot, hfield, hdangling⟩, ?_⟩,
    discard_get_eq_error_iff.mp hindex⟩
  intro slot' field' index' hdangles
  rcases hdangles.behind hentries fun entry hmem => forM_get_eq_ok_iff.mp (hearlier entry hmem) with
    hlt | ⟨rfl, hfield'⟩
  · exact .inl hlt
  · -- an earlier field of this constant has passed the check
    refine .inr ⟨rfl, Nat.le_of_not_lt fun hlt => ?_⟩
    obtain ⟨-, -, -, hdangling'⟩ := hdangles
    rw [Constant.holdsIndex_iff, hreferences, List.getElem?_append_left hlt] at hfield'
    exact hdangling' (discard_get_eq_ok_iff.mp (hbefore _ (List.mem_of_getElem? hfield')))

theorem DanglesFirst.unique {slot slot' field field' : Nat} {index' : UInt16}
    (h : pool.DanglesFirst slot field index) (h' : pool.DanglesFirst slot' field' index') :
    index = index' := by
  obtain ⟨hdangles, hfirst⟩ := h
  obtain ⟨hdangles', hfirst'⟩ := h'
  have hle := hfirst _ _ _ hdangles'
  have hge := hfirst' _ _ _ hdangles
  obtain ⟨rfl, rfl⟩ : slot = slot' ∧ field = field' := by omega
  obtain ⟨constant, hslot, hfield, -⟩ := hdangles
  obtain ⟨constant', hslot', hfield', -⟩ := hdangles'
  rw [hslot] at hslot'
  cases hslot'
  rw [Constant.holdsIndex_iff] at hfield hfield'
  exact Option.some.inj (hfield.symm.trans hfield')

theorem closed_ofConstants_iff : (ofConstants constants).Closed ↔ ∀ constant ∈ constants,
    ∀ field index, constant.HoldsIndex field index → (ofConstants constants).Lands index := by
  rw [Closed, constants_ofConstants]
  simp only [Constant.mem_references_iff, forall_exists_index, Lands]
  exact forall₂_congr fun _ _ => forall_comm

theorem Dangles.not_closed {slot field : Nat} (h : pool.Dangles slot field index) :
    ¬ pool.Closed := by
  intro hclosed
  obtain ⟨constant, hslot, hfield, hdangling⟩ := h
  have hmem : constant ∈ pool.constants := List.mem_map_of_mem (mem_entries_iff.mpr hslot)
  exact hdangling (hclosed constant hmem index (Constant.mem_references_iff.mpr ⟨field, hfield⟩))

/-- The check stops at the first index that leads to no constant. -/
theorem checkReferences_eq_error_iff : pool.checkReferences = .error fault ↔
    ∃ slot field index, pool.DanglesFirst slot field index ∧ pool.get index = .error fault := by
  constructor
  · exact exists_danglesFirst
  · intro h
    obtain ⟨slot, field, index, hfirst, hindex⟩ := h
    cases hcheck : pool.checkReferences with
    | ok => exact absurd (checkReferences_eq_ok_iff.mp hcheck) hfirst.1.not_closed
    | error found =>
      obtain ⟨_, _, index', hfirst', hindex'⟩ := exists_danglesFirst hcheck
      rw [hfirst.unique hfirst', hindex'] at hindex
      cases hindex
      rfl

/-- The check finds fault with an index, not with how the constants were read. -/
theorem not_onStream_of_checkReferences (h : pool.checkReferences = .error fault) :
    ¬ fault.OnStream := by
  obtain ⟨index, hindex⟩ := get_of_checkReferences_eq_error h
  rcases get_eq_error_iff.mp hindex with ⟨rfl, -⟩ | ⟨rfl, -⟩
  · exact not_false
  · exact not_false

/-- The constants are all there unless reading them failed. -/
theorem exists_declares_iff : (∃ count constants next, Declares c count constants next) ↔
    ∀ fault, (decode c).result = .error fault → ¬ fault.OnStream := by
  constructor
  · intro h fault hfault
    obtain ⟨count, constants, next, hdeclares⟩ := h
    have hslots := decodeSlots_eq_ok_iff.mpr ⟨count, constants, hdeclares, rfl, rfl⟩
    rw [decode_of_decodeSlots hslots] at hfault
    cases hcheck : (ofConstants constants).checkReferences with
    | ok =>
      rw [hcheck] at hfault
      cases hfault
    | error found =>
      rw [hcheck] at hfault
      cases hfault
      exact not_onStream_of_checkReferences hcheck
  · intro h
    rcases hslots : decodeSlots c with ⟨fault | pool, next, events⟩
    · have hstream := failsOnStream_decodeSlots c fault (by rw [hslots])
      exact absurd hstream (h fault (by rw [decode_of_decodeSlots_error hslots]))
    · obtain ⟨count, constants, hdeclares, -⟩ := decodeSlots_eq_ok_iff.mp hslots
      exact ⟨count, constants, next, hdeclares⟩

/-- The constants that are announced are all there unless one of them ran out of bytes, had no known
tag, was a malformed text or was wide in the last slot. If they are, the pool that they make is given
back exactly if each pool index in them leads to a constant, of any kind and in any slot. Otherwise
the fault is that of the first index that does not, by the slot that holds it and then by the order
of fields. -/
theorem checked_of_declares (c : Cursor) :
    ((∃ count constants next, Declares c count constants next) ↔
      ∀ fault, (decode c).result = .error fault → ¬ fault.OnStream) ∧
    ∀ count constants next, Declares c count constants next →
      (∀ pool, (decode c).result = .ok pool ↔ pool = ofConstants constants ∧
        ∀ constant ∈ constants, ∀ field index, constant.HoldsIndex field index →
          (ofConstants constants).Lands index) ∧
      ∀ fault, (decode c).result = .error fault ↔
        ∃ slot field index, (ofConstants constants).DanglesFirst slot field index ∧
          (fault = .indexOutOfRange index (ofConstants constants).size ∧
              (ofConstants constants).size ≤ index.toNat ∨
            fault = .unusableIndex index ∧
              (ofConstants constants).slots[index.toNat]? = some none) := by
  refine ⟨exists_declares_iff, ?_⟩
  intro count constants next hdeclares
  have hslots := decodeSlots_eq_ok_iff.mpr ⟨count, constants, hdeclares, rfl, rfl⟩
  rw [decode_of_decodeSlots hslots, ← closed_ofConstants_iff, ← checkReferences_eq_ok_iff]
  simp only [← get_eq_error_iff, ← checkReferences_eq_error_iff]
  cases (ofConstants constants).checkReferences with
  | ok => simp [Except.map, eq_comm]
  | error found => simp [Except.map]

/-- A member whose class is itself and whose name is what a long covers, and a string from beyond
the pool. -/
theorem checked_of_declares_coveredName :
    let c : Cursor := .start [0, 5, 9, 0, 1, 0, 3, 5, 0, 0, 0, 0, 0, 0, 0, 1, 8, 0, 9]
    let constants : List Constant := [.memberRef .field 1 3, .long 1, .string 9]
    Declares c 5 constants ⟨19, []⟩ ∧ (decode c).result = .error (.unusableIndex 3) ∧
      ∃ slot field index, (ofConstants constants).DanglesFirst slot field index ∧
        (FormatError.unusableIndex 3 = .indexOutOfRange index (ofConstants constants).size ∧
            (ofConstants constants).size ≤ index.toNat ∨
          FormatError.unusableIndex 3 = .unusableIndex index ∧
            (ofConstants constants).slots[index.toNat]? = some none) := by
  intro c constants
  have hcount : u16 c = ⟨.ok 5, ⟨2, c.rest.drop 2⟩, []⟩ := u16_eq_ok_iff.mpr ⟨by decide, rfl⟩
  have hstream : Constant.Stream ⟨2, c.rest.drop 2⟩ constants ⟨19, []⟩ :=
    stream_iff.mpr ⟨[[], [], []], .cons trivial (.cons trivial (.cons trivial .nil)), by decide, rfl⟩
  have hdeclares : Declares c 5 constants ⟨19, []⟩ := ⟨⟨_, hcount, hstream⟩, rfl⟩
  have hread : (decode c).result = .error (.unusableIndex 3) := by decide +kernel
  exact ⟨hdeclares, hread, (((checked_of_declares c).2 5 constants _ hdeclares).2 _).mp hread⟩

end ConstantPool

end Jvm
