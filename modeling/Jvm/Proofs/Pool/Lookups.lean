import Jvm.Proofs.Layout.Pool

/-! # Lookups in a pool that was read

A lookup asks for a constant of certain kinds at an index and goes on to the indices that this
constant holds, each with a lookup of its own (`Lookup.Needs`). In a pool that was read these
indices all lead to constants, so only the index asked for can be a slot that does not exist or
holds nothing; further on a constant can only be of the wrong kind (`FormatError.Blames`). -/

namespace Jvm

/-- What can be looked up at an index. -/
inductive Lookup where
  | entry | text | className | string | nameAndType | memberRef
  deriving DecidableEq, Repr

/-- What a lookup finds. -/
def Lookup.Answer : Lookup → Type
  | entry => Constant
  | text | className | string => String
  | nameAndType => String × String
  | memberRef => MemberName

def Lookup.find (pool : ConstantPool) :
    (lookup : Lookup) → UInt16 → Except FormatError lookup.Answer
  | entry => pool.get
  | text => pool.utf8
  | className => pool.className
  | string => pool.string
  | nameAndType => pool.nameAndType
  | memberRef => pool.memberRef

/-- The slot at the index holds the constant. -/
def ConstantPool.Holds (pool : ConstantPool) (index : UInt16) (constant : Constant) : Prop :=
  pool.slots[index.toNat]? = some (some constant)

theorem ConstantPool.Holds.unique {pool : ConstantPool} {index : UInt16} {constant other : Constant}
    (h : pool.Holds index constant) (h' : pool.Holds index other) : other = constant :=
  Option.some.inj (Option.some.inj (h'.symm.trans h))

theorem ConstantPool.Holds.of_mem_constants {pool : ConstantPool} {index : UInt16}
    {constant : Constant} (h : pool.Holds index constant) : constant ∈ pool.constants := by
  rw [constants_eq, List.reduceOption_mem_iff, Array.mem_toList_iff]
  exact Array.mem_of_getElem? h

namespace Lookup

/-- The kinds of constant that will do at the index. -/
def Accepts : Lookup → Tag → Prop
  | entry, _ => True
  | text, tag => tag = .utf8
  | className, tag => tag = .classInfo
  | string, tag => tag = .string
  | nameAndType, tag => tag = .nameAndType
  | memberRef, tag => ∃ kind : MemberKind, tag = kind.tag

/-- The lookups that a constant leads on to, in order, with their indices. -/
def next : Lookup → Constant → List (Lookup × UInt16)
  | className, .classInfo nameIndex => [(text, nameIndex)]
  | string, .string textIndex => [(text, textIndex)]
  | nameAndType, .nameAndType nameIndex descriptorIndex =>
    [(text, nameIndex), (text, descriptorIndex)]
  | memberRef, .memberRef _ classIndex nameAndTypeIndex =>
    [(className, classIndex), (nameAndType, nameAndTypeIndex)]
  | _, _ => []

/-- A lookup at an index needs what the inner lookup accepts at the inner index. -/
inductive Needs (pool : ConstantPool) : Lookup → UInt16 → Lookup → UInt16 → Prop
  | self (lookup : Lookup) (index : UInt16) : Needs pool lookup index lookup index
  | follow {lookup sub inner : Lookup} {index subIndex innerIndex : UInt16} {constant : Constant} :
      pool.Holds index constant → (sub, subIndex) ∈ lookup.next constant →
      Needs pool sub subIndex inner innerIndex → Needs pool lookup index inner innerIndex

/-- All constants on the way are there and of the kinds needed. -/
def Met (pool : ConstantPool) (lookup : Lookup) (index : UInt16) : Prop :=
  ∀ inner innerIndex, Needs pool lookup index inner innerIndex →
    ∃ constant, pool.Holds innerIndex constant ∧ inner.Accepts constant.tag

/-- What a fault of the lookup at the index says: there is nothing at this very index, or there is a
constant of the wrong kind on the way. -/
inductive Blames (pool : ConstantPool) (lookup : Lookup) (index : UInt16) : FormatError → Prop
  | outOfRange : pool.size ≤ index.toNat →
      Blames pool lookup index (.indexOutOfRange index pool.size)
  | unusable : pool.slots[index.toNat]? = some none →
      Blames pool lookup index (.unusableIndex index)
  | wrongKind {inner : Lookup} {innerIndex : UInt16} {expected : Tag} {constant : Constant} :
      Needs pool lookup index inner innerIndex → (∀ tag, inner.Accepts tag ↔ tag = expected) →
      pool.Holds innerIndex constant → constant.tag ≠ expected →
      Blames pool lookup index (.kindMismatch innerIndex expected constant.tag)
  | noMemberRef {constant : Constant} : lookup = memberRef → pool.Holds index constant →
      ¬ lookup.Accepts constant.tag → Blames pool lookup index (.notMemberRef index constant.tag)

variable {pool : ConstantPool} {lookup sub : Lookup} {index subIndex : UInt16} {constant : Constant}
  {fault : FormatError}

theorem met_of_next (hholds : pool.Holds index constant) (haccepts : lookup.Accepts constant.tag)
    (hnext : ∀ sub ∈ lookup.next constant, sub.1.Met pool sub.2) : lookup.Met pool index := by
  intro inner innerIndex hneeds
  cases hneeds with
  | self => exact ⟨constant, hholds, haccepts⟩
  | follow hother hmem hinner =>
    rw [hholds.unique hother] at hmem
    exact hnext _ hmem _ _ hinner

theorem mem_references_of_next (h : (sub, subIndex) ∈ lookup.next constant) :
    subIndex ∈ constant.references := by
  unfold next at h
  split at h <;> simp at h <;> grind [Constant.references]

theorem ne_memberRef_of_next (h : (sub, subIndex) ∈ lookup.next constant) : sub ≠ memberRef := by
  unfold next at h
  rintro rfl
  split at h <;> simp at h

/-- A fault of an inner lookup is one of the outer lookup, if there is a constant to start from. -/
theorem Blames.follow (h : Blames pool sub subIndex fault) (hholds : pool.Holds index constant)
    (hmem : (sub, subIndex) ∈ lookup.next constant) {target : Constant}
    (htarget : pool.Holds subIndex target) : Blames pool lookup index fault := by
  cases h with
  | outOfRange hsize =>
    have hnone : pool.slots[subIndex.toNat]? = none := Array.getElem?_eq_none hsize
    rw [ConstantPool.Holds, hnone] at htarget
    cases htarget
  | unusable hslot =>
    rw [ConstantPool.Holds, hslot] at htarget
    cases htarget
  | wrongKind hneeds hexpected hinner hne =>
    exact .wrongKind (.follow hholds hmem hneeds) hexpected hinner hne
  | noMemberRef hmember _ _ => exact absurd hmember (ne_memberRef_of_next hmem)

/-- A fault shows that something needed is missing. -/
theorem Blames.not_met (h : Blames pool lookup index fault) : ¬ lookup.Met pool index := by
  intro hmet
  obtain ⟨constant, hholds, haccepts⟩ := hmet lookup index (.self lookup index)
  cases h with
  | outOfRange hsize =>
    have hnone : pool.slots[index.toNat]? = none := Array.getElem?_eq_none hsize
    rw [ConstantPool.Holds, hnone] at hholds
    cases hholds
  | unusable hslot =>
    rw [ConstantPool.Holds, hslot] at hholds
    cases hholds
  | wrongKind hneeds hexpected hinner hne =>
    obtain ⟨other, hother, hkind⟩ := hmet _ _ hneeds
    rw [hinner.unique hother] at hkind
    exact hne ((hexpected _).mp hkind)
  | noMemberRef _ hother hnot =>
    rw [hother.unique hholds] at haccepts
    exact hnot haccepts

/-! ## Several lookups in a row -/

/-- The result is that of lookups in a row: if it is a success, all that they need is there, and a
fault is a fault of one of them. -/
structure Settles {α : Type} (pool : ConstantPool) (lookups : List (Lookup × UInt16))
    (result : Except FormatError α) : Prop where
  met : ∀ answer, result = .ok answer → ∀ sub ∈ lookups, sub.1.Met pool sub.2
  blames : ∀ fault, result = .error fault → ∃ sub ∈ lookups, Blames pool sub.1 sub.2 fault

variable {α β : Type}

theorem settles_pure (answer : α) : Settles pool [] (pure answer : Except FormatError α) :=
  ⟨fun _ _ _ hmem => (nomatch hmem), fun _ h => (nomatch h)⟩

theorem Settles.bind {lookups others : List (Lookup × UInt16)} {first : Except FormatError α}
    {second : α → Except FormatError β} (hf : Settles pool lookups first)
    (hs : ∀ answer, Settles pool others (second answer)) :
    Settles pool (lookups ++ others) (first >>= second) := by
  cases first with
  | error found =>
    refine ⟨fun _ h => (nomatch h), fun fault h => ?_⟩
    obtain ⟨sub, hmem, hblames⟩ := hf.blames found rfl
    cases h
    exact ⟨sub, List.mem_append_left _ hmem, hblames⟩
  | ok reached =>
    refine ⟨fun answer h sub hmem => ?_, fun fault h => ?_⟩
    · rcases List.mem_append.mp hmem with hmem | hmem
      · exact hf.met reached rfl sub hmem
      · exact (hs reached).met answer h sub hmem
    · obtain ⟨sub, hmem, hblames⟩ := (hs reached).blames fault h
      exact ⟨sub, List.mem_append_right _ hmem, hblames⟩

/-- A lookup gets the constant, and either goes on to the lookups behind it or refuses its kind. -/
theorem settles_get (hclosed : pool.Closed) {andThen : Constant → Except FormatError α}
    (h : ∀ constant, pool.Holds index constant →
      lookup.Accepts constant.tag ∧ Settles pool (lookup.next constant) (andThen constant) ∨
      ∃ fault, andThen constant = .error fault ∧ Blames pool lookup index fault) :
    Settles pool [(lookup, index)] (pool.get index >>= andThen) := by
  cases hget : pool.get index with
  | error fault =>
    refine ⟨fun _ h => (nomatch h), fun fault' h => ⟨_, List.mem_singleton_self _, ?_⟩⟩
    cases h
    rcases ConstantPool.get_eq_error_iff.mp hget with ⟨rfl, hsize⟩ | ⟨rfl, hslot⟩
    · exact .outOfRange hsize
    · exact .unusable hslot
  | ok constant =>
    have hholds : pool.Holds index constant := ConstantPool.get_eq_ok_iff.mp hget
    change Settles pool [(lookup, index)] (andThen constant)
    rcases h constant hholds with ⟨haccepts, hmet, hblames⟩ | ⟨fault, hfault, hblames⟩
    · refine ⟨fun answer hanswer sub hmem => ?_, fun fault hfault => ?_⟩
      · obtain rfl := List.mem_singleton.mp hmem
        exact met_of_next hholds haccepts (hmet answer hanswer)
      · obtain ⟨sub, hmem, hsub⟩ := hblames fault hfault
        obtain ⟨target, htarget⟩ := hclosed constant hholds.of_mem_constants sub.2
          (mem_references_of_next hmem)
        exact ⟨_, List.mem_singleton_self _, hsub.follow hholds hmem htarget⟩
    · refine ⟨fun answer hanswer => ?_, fun fault' hfault' => ⟨_, List.mem_singleton_self _, ?_⟩⟩
      · rw [hfault] at hanswer
        cases hanswer
      · rw [hfault] at hfault'
        cases hfault'
        exact hblames

/-- A lookup that wants one kind and refuses the others by a mismatch at the index itself. -/
theorem settles_kind (hclosed : pool.Closed) {andThen : Constant → Except FormatError α}
    {expected : Tag} (hexpected : ∀ tag, lookup.Accepts tag ↔ tag = expected)
    (hright : ∀ constant, constant.tag = expected →
      Settles pool (lookup.next constant) (andThen constant))
    (hwrong : ∀ constant, constant.tag ≠ expected →
      andThen constant = .error (.kindMismatch index expected constant.tag)) :
    Settles pool [(lookup, index)] (pool.get index >>= andThen) := by
  refine settles_get hclosed fun constant hholds => ?_
  by_cases htag : constant.tag = expected
  · exact .inl ⟨(hexpected _).mpr htag, hright constant htag⟩
  · exact .inr ⟨_, hwrong constant htag, .wrongKind (.self lookup index) hexpected hholds htag⟩

/-! ## The lookups -/

theorem settles_entry (hclosed : pool.Closed) (index : UInt16) :
    Settles pool [(entry, index)] (pool.get index) := by
  have hget : Settles pool [(entry, index)] (pool.get index >>= pure) :=
    settles_get hclosed fun constant _ => .inl ⟨trivial, settles_pure constant⟩
  rwa [bind_pure] at hget

theorem settles_text (hclosed : pool.Closed) (index : UInt16) :
    Settles pool [(text, index)] (pool.utf8 index) := by
  refine settles_kind hclosed (fun _ => Iff.rfl) (fun constant htag => ?_) fun constant hne => ?_
  · obtain ⟨found, rfl⟩ : ∃ found, constant = .utf8 found := by grind
    exact settles_pure found
  · cases constant <;> first | rfl | exact absurd rfl hne

theorem settles_className (hclosed : pool.Closed) (index : UInt16) :
    Settles pool [(className, index)] (pool.className index) := by
  refine settles_kind hclosed (fun _ => Iff.rfl) (fun constant htag => ?_) fun constant hne => ?_
  · obtain ⟨nameIndex, rfl⟩ : ∃ nameIndex, constant = .classInfo nameIndex := by grind
    exact settles_text hclosed nameIndex
  · cases constant <;> first | rfl | exact absurd rfl hne

theorem settles_string (hclosed : pool.Closed) (index : UInt16) :
    Settles pool [(string, index)] (pool.string index) := by
  refine settles_kind hclosed (fun _ => Iff.rfl) (fun constant htag => ?_) fun constant hne => ?_
  · obtain ⟨textIndex, rfl⟩ : ∃ textIndex, constant = .string textIndex := by grind
    exact settles_text hclosed textIndex
  · cases constant <;> first | rfl | exact absurd rfl hne

theorem settles_nameAndType (hclosed : pool.Closed) (index : UInt16) :
    Settles pool [(nameAndType, index)] (pool.nameAndType index) := by
  refine settles_kind hclosed (fun _ => Iff.rfl) (fun constant htag => ?_) fun constant hne => ?_
  · obtain ⟨nameIndex, descriptorIndex, rfl⟩ : ∃ nameIndex descriptorIndex,
        constant = .nameAndType nameIndex descriptorIndex := by grind
    exact (settles_text hclosed nameIndex).bind fun name =>
      (settles_text hclosed descriptorIndex).bind fun descriptor => settles_pure (name, descriptor)
  · cases constant <;> first | rfl | exact absurd rfl hne

theorem settles_memberRef (hclosed : pool.Closed) (index : UInt16) :
    Settles pool [(memberRef, index)] (pool.memberRef index) := by
  refine settles_get hclosed fun constant hholds => ?_
  by_cases hkind : memberRef.Accepts constant.tag
  · obtain ⟨kind, classIndex, nameAndTypeIndex, rfl⟩ : ∃ kind classIndex nameAndTypeIndex,
        constant = .memberRef kind classIndex nameAndTypeIndex := by
      obtain ⟨kind, hkind⟩ := hkind
      cases kind <;> grind [Constant.tag, MemberKind.tag]
    refine .inl ⟨hkind, (settles_className hclosed classIndex).bind fun className =>
      (settles_nameAndType hclosed nameAndTypeIndex).bind fun found =>
        settles_pure (⟨className, found.1, found.2⟩ : MemberName)⟩
  · refine .inr ⟨_, ?_, .noMemberRef rfl hholds hkind⟩
    cases constant <;> first | rfl | exact absurd ⟨_, rfl⟩ hkind

theorem settles_find (hclosed : pool.Closed) (lookup : Lookup) (index : UInt16) :
    Settles pool [(lookup, index)] (lookup.find pool index) := by
  cases lookup with
  | entry => exact settles_entry hclosed index
  | text => exact settles_text hclosed index
  | className => exact settles_className hclosed index
  | string => exact settles_string hclosed index
  | nameAndType => exact settles_nameAndType hclosed index
  | memberRef => exact settles_memberRef hclosed index

/-- In a pool that was read, a lookup succeeds exactly if every constant on its way is of the kind
needed there, and if it fails, there is nothing at the index asked for or a constant of the wrong
kind on the way. -/
theorem find_of_decode {c : Cursor} (h : (ConstantPool.decode c).result = .ok pool)
    (lookup : Lookup) (index : UInt16) :
    ((∃ answer, lookup.find pool index = .ok answer) ↔ lookup.Met pool index) ∧
      ∀ fault, lookup.find pool index = .error fault → Blames pool lookup index fault := by
  have hclosed : pool.Closed := by
    rcases hread : ConstantPool.decode c with ⟨result, next, events⟩
    rw [hread] at h
    subst h
    obtain ⟨_, ⟨-, hclosed, -⟩, -⟩ := ConstantPool.reads_decode.of_ok hread
    exact hclosed
  have hfind := settles_find hclosed lookup index
  have hblames (fault : FormatError) (hfault : lookup.find pool index = .error fault) :
      Blames pool lookup index fault := by
    obtain ⟨sub, hmem, hsub⟩ := hfind.blames fault hfault
    obtain rfl := List.mem_singleton.mp hmem
    exact hsub
  refine ⟨⟨fun ⟨answer, hanswer⟩ => ?_, fun hmet => ?_⟩, hblames⟩
  · exact hfind.met answer hanswer _ (List.mem_singleton_self _)
  · cases hresult : lookup.find pool index with
    | ok answer => exact ⟨answer, rfl⟩
    | error fault => exact absurd hmet (hblames fault hresult).not_met

/-- A class whose name is a number. -/
def numberedClass : ConstantPool := ⟨#[none, some (.classInfo 2), some (.integer 1)]⟩

theorem find_of_decode_numberedClass :
    (ConstantPool.decode (.start [0, 3, 7, 0, 2, 3, 0, 0, 0, 1])).result = .ok numberedClass ∧
      className.find numberedClass 1 = .error (.kindMismatch 2 .utf8 .integer) ∧
      Blames numberedClass className 1 (.kindMismatch 2 .utf8 .integer) ∧
      (∃ answer, entry.find numberedClass 2 = .ok answer) ∧ entry.Met numberedClass 2 := by
  have hread : (ConstantPool.decode (.start [0, 3, 7, 0, 2, 3, 0, 0, 0, 1])).result =
      .ok numberedClass := by decide +kernel
  have hfault : className.find numberedClass 1 = .error (.kindMismatch 2 .utf8 .integer) := rfl
  have hfound : ∃ answer, entry.find numberedClass 2 = .ok answer := ⟨.integer 1, rfl⟩
  exact ⟨hread, hfault, (find_of_decode hread className 1).2 _ hfault, hfound,
    (find_of_decode hread entry 2).1.mp hfound⟩

end Lookup

end Jvm
