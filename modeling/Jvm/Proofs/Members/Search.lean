import Mathlib.Data.List.Forall2
import Jvm.Class.ClassFile

/-! # Looking up members

A search asks the members in order and ends with the first one that fits or of which it cannot be
told whether it fits. So the earliest of these decides the answer (`StopsAt`, `AnswersFirst`),
whatever stands behind it, and a descriptor under another name is never looked at
(`ClassFile.members_found_first`). -/

namespace Jvm

namespace Member

variable (pool : ConstantPool) (name descriptor : String) (member : Member)

/-- The member goes by the name. -/
def Named : Prop := member.name pool = .ok name

/-- The member goes by the name and has the descriptor. -/
structure Declared : Prop where
  named : member.Named pool name
  described : member.descriptor pool = .ok descriptor

/-- The name of the member resolves. -/
def Resolves : Prop := ∃ text, member.name pool = .ok text

/-- The name of the member resolves, and if it is the name looked for, the descriptor does too. -/
structure ResolvesFor : Prop where
  name_resolves : member.Resolves pool
  descriptor_resolves : member.Named pool name → ∃ text, member.descriptor pool = .ok text

/-- Resolving the name of the member fails so. -/
def Fails (fault : FormatError) : Prop := member.name pool = .error fault

/-- Resolving the name of the member fails so or, under the name looked for, its descriptor. -/
inductive FailsFor (fault : FormatError) : Prop where
  | name (unresolved : member.name pool = .error fault)
  | descriptor (named : member.Named pool name) (unresolved : member.descriptor pool = .error fault)

/-- Both members answer alike to a search by the name. -/
structure AnswersAs (other : Member) : Prop where
  name_eq : other.name pool = member.name pool
  descriptor_eq : member.Named pool name → other.descriptor pool = member.descriptor pool

end Member

/-- The answer is that of the first member that fits or fails. A member that is told does not
fail. -/
structure AnswersFirst (fits told : Member → Prop) (fails : Member → FormatError → Prop)
    (members : List Member) (answer : Except FormatError (Option Nat)) : Prop where
  found : ∀ k, answer = .ok (some k) ↔ (∃ member, members[k]? = some member ∧ fits member) ∧
    ∀ (j : Nat) earlier, j < k → members[j]? = some earlier → told earlier ∧ ¬ fits earlier
  failed : ∀ fault, answer = .error fault ↔ ∃ k,
    (∃ member, members[k]? = some member ∧ fails member fault) ∧
      ∀ (j : Nat) earlier, j < k → members[j]? = some earlier → told earlier ∧ ¬ fits earlier
  missing : answer = .ok none ↔ ∀ member ∈ members, told member ∧ ¬ fits member

namespace ClassFile

variable {test : Member → Except FormatError Bool} {members others : List Member}
  {member member' : Member} {k k' position : Nat} {fault : FormatError}

/-- The first member that does not pass as no match. -/
structure StopsAt (test : Member → Except FormatError Bool) (members : List Member) (k : Nat)
    (member : Member) : Prop where
  listed : members[k]? = some member
  decides : test member ≠ .ok false
  passed : ∀ (j : Nat) earlier, j < k → members[j]? = some earlier → test earlier = .ok false

theorem StopsAt.unique (h : StopsAt test members k member) (h' : StopsAt test members k' member') :
    k = k' ∧ member = member' := by
  have hk : k = k' := by
    rcases Nat.lt_trichotomy k k' with hlt | heq | hlt
    · exact absurd (h'.passed k member hlt h.listed) h.decides
    · exact heq
    · exact absurd (h.passed k' member' hlt h'.listed) h'.decides
  have hlisted := h'.listed
  rw [← hk, h.listed] at hlisted
  exact ⟨hk, Option.some.inj hlisted⟩

theorem StopsAt.cons {first : Member} (hfirst : test first = .ok false)
    (h : StopsAt test members k member) : StopsAt test (first :: members) (k + 1) member := by
  refine ⟨h.listed, h.decides, fun j earlier hj hearlier => ?_⟩
  cases j with
  | zero => exact Option.some.inj hearlier ▸ hfirst
  | succ j => exact h.passed j earlier (Nat.lt_of_succ_lt_succ hj) hearlier

theorem findMember_cons (first : Member) :
    findMember test position (first :: members) = match test first with
      | .ok true => .ok (some position)
      | .ok false => findMember test (position + 1) members
      | .error fault => .error fault := by
  rw [findMember]
  rcases test first with fault | ⟨_ | _⟩ <;> rfl

/-- A search goes past all members, or it stops at one and answers as the test does there. -/
theorem findMember_eq (test : Member → Except FormatError Bool) (members : List Member)
    (position : Nat) :
    ((∀ member ∈ members, test member = .ok false) ∧ findMember test position members = .ok none) ∨
      ∃ k member, StopsAt test members k member ∧
        findMember test position members = (test member).map fun _ => some (position + k) := by
  induction members generalizing position with
  | nil => exact .inl ⟨List.forall_mem_nil _, rfl⟩
  | cons first members ih =>
    rw [findMember_cons]
    have hstop (hfirst : test first ≠ .ok false) : StopsAt test (first :: members) 0 first :=
      ⟨rfl, hfirst, fun _ _ hj => absurd hj (Nat.not_lt_zero _)⟩
    cases hfirst : test first with
    | error fault =>
      exact .inr ⟨0, first, hstop (by simp [hfirst]), by rw [hfirst]; rfl⟩
    | ok answer =>
      cases answer with
      | true => exact .inr ⟨0, first, hstop (by simp [hfirst]), by rw [hfirst]; rfl⟩
      | false =>
        rcases ih (position + 1) with ⟨hpassed, hnone⟩ | ⟨k, member, hstops, hfound⟩
        · exact .inl ⟨List.forall_mem_cons.mpr ⟨hfirst, hpassed⟩, hnone⟩
        · refine .inr ⟨k + 1, member, hstops.cons hfirst, ?_⟩
          rw [hfound, Nat.add_right_comm, Nat.add_assoc]

theorem findMember_of_stopsAt (h : StopsAt test members k member) :
    findMember test 0 members = (test member).map fun _ => some k := by
  rcases findMember_eq test members 0 with ⟨hpassed, -⟩ | ⟨k', member', h', hfound⟩
  · exact absurd (hpassed member (List.mem_of_getElem? h.listed)) h.decides
  · obtain ⟨rfl, rfl⟩ := h'.unique h
    rwa [Nat.zero_add] at hfound

theorem findMember_eq_some_iff : findMember test 0 members = .ok (some k) ↔
    ∃ member, StopsAt test members k member ∧ test member = .ok true := by
  constructor
  · intro h
    rcases findMember_eq test members 0 with ⟨-, hfound⟩ | ⟨k', member, hstops, hfound⟩
    · rw [hfound] at h
      cases h
    · rw [hfound, Nat.zero_add] at h
      rcases hanswer : test member with fault | ⟨_ | _⟩
      · rw [hanswer] at h
        cases h
      · exact absurd hanswer hstops.decides
      · rw [hanswer] at h
        cases h
        exact ⟨member, hstops, hanswer⟩
  · rintro ⟨member, hstops, hanswer⟩
    rw [findMember_of_stopsAt hstops, hanswer]
    rfl

theorem findMember_eq_error_iff : findMember test 0 members = .error fault ↔
    ∃ k member, StopsAt test members k member ∧ test member = .error fault := by
  constructor
  · intro h
    rcases findMember_eq test members 0 with ⟨-, hfound⟩ | ⟨k, member, hstops, hfound⟩
    · rw [hfound] at h
      cases h
    · refine ⟨k, member, hstops, ?_⟩
      rw [hfound] at h
      cases hanswer : test member with
      | error _ => rw [hanswer] at h; cases h; rfl
      | ok _ => rw [hanswer] at h; cases h
  · rintro ⟨k, member, hstops, hanswer⟩
    rw [findMember_of_stopsAt hstops, hanswer]
    rfl

theorem findMember_eq_none_iff :
    findMember test 0 members = .ok none ↔ ∀ member ∈ members, test member = .ok false := by
  rcases findMember_eq test members 0 with ⟨hpassed, hfound⟩ | ⟨k, member, hstops, hfound⟩
  · exact iff_of_true hfound hpassed
  · refine iff_of_false (fun h => ?_) fun h =>
      hstops.decides (h member (List.mem_of_getElem? hstops.listed))
    rw [hfound] at h
    cases hanswer : test member <;> rw [hanswer] at h <;> cases h

theorem exists_stopsAt_iff {answer : Except FormatError Bool} (h : answer ≠ .ok false) :
    (∃ member, StopsAt test members k member ∧ test member = answer) ↔
      (∃ member, members[k]? = some member ∧ test member = answer) ∧
        ∀ (j : Nat) earlier, j < k → members[j]? = some earlier → test earlier = .ok false := by
  constructor
  · rintro ⟨member, hstops, hanswer⟩
    exact ⟨⟨member, hstops.listed, hanswer⟩, hstops.passed⟩
  · rintro ⟨⟨member, hlisted, hanswer⟩, hpassed⟩
    exact ⟨member, ⟨hlisted, hanswer ▸ h, hpassed⟩, hanswer⟩

/-- A search answers for the first of its members if its test tells which of them fit and fail. -/
theorem answersFirst_findMember {fits told : Member → Prop} {fails : Member → FormatError → Prop}
    (hfits : ∀ member, fits member ↔ test member = .ok true)
    (hfails : ∀ member fault, fails member fault ↔ test member = .error fault)
    (htold : ∀ member, told member ↔ ∃ answer, test member = .ok answer) :
    AnswersFirst fits told fails members (findMember test 0 members) := by
  have hpass (member : Member) : told member ∧ ¬ fits member ↔ test member = .ok false := by
    rw [htold, hfits]
    rcases test member with fault | ⟨_ | _⟩ <;> simp
  refine ⟨fun k => ?_, fun fault => ?_, ?_⟩
  · rw [findMember_eq_some_iff, exists_stopsAt_iff (by simp)]
    simp only [hpass]
    simp only [hfits]
  · simp only [findMember_eq_error_iff, hpass, hfails]
    exact exists_congr fun k => exists_stopsAt_iff (by simp)
  · simp only [findMember_eq_none_iff, hpass]

theorem findMember_congr {test' : Member → Except FormatError Bool}
    (h : List.Forall₂ (fun member other => test' other = test member) members others)
    (position : Nat) : findMember test' position others = findMember test position members := by
  induction h generalizing position with
  | nil => rfl
  | cons hfirst _ ih => rw [findMember_cons, findMember_cons, hfirst, ih]

end ClassFile

namespace Member

variable {pool : ConstantPool} {name descriptor : String} {member other : Member}
  {fault : FormatError}

/-- Whether the member is the method looked for. -/
def testDeclared (pool : ConstantPool) (name descriptor : String) (member : Member) :
    Except FormatError Bool := do
  if (← member.name pool) = name then return (← member.descriptor pool) = descriptor
  else return false

/-- Whether the member is the field looked for. -/
def testNamed (pool : ConstantPool) (name : String) (member : Member) : Except FormatError Bool :=
  return (← member.name pool) = name

theorem testNamed_eq :
    member.testNamed pool name = (member.name pool).map fun text => decide (text = name) := by
  rw [testNamed]
  cases member.name pool <;> rfl

theorem testNamed_congr (h : other.name pool = member.name pool) :
    other.testNamed pool name = member.testNamed pool name := by
  rw [testNamed_eq, testNamed_eq, h]

theorem named_iff : member.Named pool name ↔ member.testNamed pool name = .ok true := by
  rw [Named, testNamed_eq]
  cases member.name pool <;> simp [Except.map]

theorem fails_iff : member.Fails pool fault ↔ member.testNamed pool name = .error fault := by
  rw [Fails, testNamed_eq]
  cases member.name pool <;> simp [Except.map]

theorem resolves_iff : member.Resolves pool ↔ ∃ answer, member.testNamed pool name = .ok answer := by
  rw [Resolves, testNamed_eq]
  cases member.name pool <;> simp [Except.map]

/-- The descriptor is looked at under the name looked for only. -/
theorem testDeclared_of_named (h : member.Named pool name) :
    member.testDeclared pool name descriptor =
      (member.descriptor pool).map fun text => decide (text = descriptor) := by
  rw [Named] at h
  rw [testDeclared, h]
  exact (if_pos rfl).trans (by cases member.descriptor pool <;> rfl)

theorem testDeclared_of_not_named (h : ¬ member.Named pool name) :
    member.testDeclared pool name descriptor = (member.name pool).map fun _ => false := by
  rw [Named] at h
  rw [testDeclared]
  cases hname : member.name pool with
  | error fault => rfl
  | ok text => exact if_neg fun heq => h (by rw [hname, heq])

theorem declared_iff : member.Declared pool name descriptor ↔
    member.testDeclared pool name descriptor = .ok true := by
  by_cases h : member.Named pool name
  · rw [testDeclared_of_named h]
    refine ⟨fun hdeclared => by rw [hdeclared.described]; simp [Except.map], fun htest => ⟨h, ?_⟩⟩
    cases hdescriptor : member.descriptor pool <;> simp_all [Except.map]
  · rw [testDeclared_of_not_named h]
    refine iff_of_false (fun hdeclared => h hdeclared.named) ?_
    cases member.name pool <;> simp [Except.map]

theorem failsFor_iff : member.FailsFor pool name fault ↔
    member.testDeclared pool name descriptor = .error fault := by
  by_cases h : member.Named pool name
  · have hfails : member.FailsFor pool name fault ↔ member.descriptor pool = .error fault := by
      refine ⟨fun hfails => ?_, .descriptor h⟩
      cases hfails with
      | name hname => rw [Named, hname] at h; cases h
      | descriptor _ hdescriptor => exact hdescriptor
    rw [hfails, testDeclared_of_named h]
    cases member.descriptor pool <;> simp [Except.map]
  · have hfails : member.FailsFor pool name fault ↔ member.name pool = .error fault := by
      refine ⟨fun hfails => ?_, .name⟩
      cases hfails with
      | name hname => exact hname
      | descriptor hnamed _ => exact absurd hnamed h
    rw [hfails, testDeclared_of_not_named h]
    cases member.name pool <;> simp [Except.map]

theorem resolvesFor_iff : member.ResolvesFor pool name ↔
    ∃ answer, member.testDeclared pool name descriptor = .ok answer := by
  by_cases h : member.Named pool name
  · have hresolves : member.ResolvesFor pool name ↔ ∃ text, member.descriptor pool = .ok text :=
      ⟨fun hresolves => hresolves.descriptor_resolves h,
        fun hdescriptor => ⟨⟨name, h⟩, fun _ => hdescriptor⟩⟩
    rw [hresolves, testDeclared_of_named h]
    cases member.descriptor pool <;> simp [Except.map]
  · have hresolves : member.ResolvesFor pool name ↔ ∃ text, member.name pool = .ok text :=
      ⟨ResolvesFor.name_resolves, fun hname => ⟨hname, fun hnamed => absurd hnamed h⟩⟩
    rw [hresolves, testDeclared_of_not_named h]
    cases member.name pool <;> simp [Except.map]

theorem AnswersAs.testDeclared_eq (h : member.AnswersAs pool name other) :
    other.testDeclared pool name descriptor = member.testDeclared pool name descriptor := by
  by_cases hnamed : member.Named pool name
  · have hother : other.Named pool name := h.name_eq.trans hnamed
    rw [testDeclared_of_named hnamed, testDeclared_of_named hother, h.descriptor_eq hnamed]
  · have hother : ¬ other.Named pool name := fun hother => hnamed (h.name_eq.symm.trans hother)
    rw [testDeclared_of_not_named hnamed, testDeclared_of_not_named hother, h.name_eq]

end Member

namespace ClassFile

variable {test : Member → Except FormatError Bool} {members : List Member} {k : Nat}

/-- A search that has found its member does not come to those behind it. -/
theorem findMember_take (h : findMember test 0 members = .ok (some k)) (others : List Member) :
    findMember test 0 (members.take (k + 1) ++ others) = .ok (some k) := by
  obtain ⟨member, hstops, hanswer⟩ := findMember_eq_some_iff.mp h
  have hlt := (List.getElem?_eq_some_iff.mp hstops.listed).1
  have hsame (j : Nat) (hj : j ≤ k) : (members.take (k + 1) ++ others)[j]? = members[j]? := by
    rw [List.getElem?_append_left (by rw [List.length_take]; omega),
      List.getElem?_take_of_lt (Nat.lt_succ_of_le hj)]
  refine findMember_eq_some_iff.mpr ⟨member, ⟨?_, hstops.decides, fun j earlier hj hearlier => ?_⟩,
    hanswer⟩
  · rw [hsame k (Nat.le_refl k), hstops.listed]
  · rw [hsame j (Nat.le_of_lt hj)] at hearlier
    exact hstops.passed j earlier hj hearlier

theorem findMethod_eq (cls : ClassFile) (name descriptor : String) :
    cls.findMethod name descriptor =
      findMember (Member.testDeclared cls.pool name descriptor) 0 cls.methods := rfl

theorem findField_eq (cls : ClassFile) (name : String) :
    cls.findField name = findMember (Member.testNamed cls.pool name) 0 cls.fields := rfl

/-- A method is found exactly if it is the first with that name and descriptor and all names before
it resolve, and all descriptors under that name. The first that does not resolve is the fault unless
the method stands before it, and if there is neither, no method is found. Fields are found in this
way by their names alone. So members behind the one found do not matter, nor do descriptors under
other names. -/
theorem members_found_first (cls : ClassFile) :
    (∀ name descriptor, AnswersFirst (Member.Declared cls.pool name descriptor)
      (Member.ResolvesFor cls.pool name) (Member.FailsFor cls.pool name) cls.methods
      (cls.findMethod name descriptor)) ∧
    (∀ name, AnswersFirst (Member.Named cls.pool name) (Member.Resolves cls.pool)
      (Member.Fails cls.pool) cls.fields (cls.findField name)) ∧
    (∀ name descriptor k others, cls.findMethod name descriptor = .ok (some k) →
      { cls with methods := cls.methods.take (k + 1) ++ others }.findMethod name descriptor =
        .ok (some k)) ∧
    (∀ name k others, cls.findField name = .ok (some k) →
      { cls with fields := cls.fields.take (k + 1) ++ others }.findField name = .ok (some k)) ∧
    (∀ name descriptor others, List.Forall₂ (Member.AnswersAs cls.pool name) cls.methods others →
      { cls with methods := others }.findMethod name descriptor = cls.findMethod name descriptor) ∧
    ∀ name others, List.Forall₂ (fun field other => other.name cls.pool = field.name cls.pool)
        cls.fields others →
      { cls with fields := others }.findField name = cls.findField name := by
  refine ⟨fun name descriptor => ?_, fun name => ?_, fun name descriptor k others h => ?_,
    fun name k others h => ?_, fun name descriptor others h => ?_, fun name others h => ?_⟩
  · exact answersFirst_findMember (fun _ => Member.declared_iff) (fun _ _ => Member.failsFor_iff)
      fun _ => Member.resolvesFor_iff
  · exact answersFirst_findMember (fun _ => Member.named_iff) (fun _ _ => Member.fails_iff)
      fun _ => Member.resolves_iff
  · exact findMember_take h others
  · exact findMember_take h others
  · rw [findMethod_eq, findMethod_eq]
    exact findMember_congr (h.imp fun _ _ hsame => hsame.testDeclared_eq) 0
  · rw [findField_eq, findField_eq]
    exact findMember_congr (h.imp fun _ _ => Member.testNamed_congr) 0

/-- A method behind one of another name with a descriptor from beyond the pool, and in front of one
without a name. -/
theorem members_found_first_brokenAround :
    let pool : ConstantPool :=
      ⟨#[none, some (.utf8 "run"), some (.utf8 "()V"), some (.utf8 "stop")]⟩
    let other : Member := ⟨⟨0⟩, 3, 9, []⟩
    let method : Member := ⟨⟨0⟩, 1, 2, []⟩
    let nameless : Member := ⟨⟨0⟩, 0, 2, []⟩
    let cls : ClassFile := ⟨⟨52, 0⟩, pool, ⟨0⟩, 0, 0, [], [], [other, method], []⟩
    cls.findMethod "run" "()V" = .ok (some 1) ∧
      { cls with methods := [other, method, nameless] }.findMethod "run" "()V" = .ok (some 1) ∧
      { cls with methods := [nameless, method] }.findMethod "run" "()V" =
        .error (.unusableIndex 0) := by
  intro pool other method nameless cls
  have hfound : cls.findMethod "run" "()V" = .ok (some 1) := by decide
  refine ⟨hfound, (members_found_first cls).2.2.1 "run" "()V" 1 [nameless] hfound, ?_⟩
  have hfirst := (members_found_first { cls with methods := [nameless, method] }).1 "run" "()V"
  exact (hfirst.failed _).mpr
    ⟨0, ⟨nameless, rfl, .name rfl⟩, fun _ _ hj => absurd hj (Nat.not_lt_zero _)⟩

end ClassFile

end Jvm
