import Jvm.Class.ClassFile
import Jvm.Proofs.Equality.Numbers
import Mathlib.Data.Option.Defs

/-! # Equality of classes

Classes have the same value if they agree part by part, where float and double constants in one slot
of the pools are one number and everything else is equal (`ClassFile.Agrees`). That is symmetric and
transitive, and a class agrees with itself unless its pool holds a constant that is no number
(`ClassFile.sameValue_partialEquivalence`). -/

namespace Jvm

namespace Constant

/-- Constants of one value: one number, or else equal. -/
inductive Agrees : Constant → Constant → Prop
  | float {x y : Binary32} :
      x.number = y.number → x.number ≠ .notANumber → Agrees (.float x) (.float y)
  | double {x y : Binary64} :
      x.number = y.number → x.number ≠ .notANumber → Agrees (.double x) (.double y)
  | same {constant : Constant} : (∀ x, constant ≠ .float x) → (∀ x, constant ≠ .double x) →
      Agrees constant constant

def IsNaN : Constant → Prop
  | float x => x.number = .notANumber
  | double x => x.number = .notANumber
  | _ => False

variable {constant other third : Constant}

theorem sameValue_iff : constant.sameValue other = true ↔ constant.Agrees other := by
  unfold sameValue
  split
  · rename_i x y
    rw [Binary32.sameNumber_iff]
    constructor
    · rintro ⟨hnumber, hne⟩
      exact .float hnumber hne
    · rintro (⟨hnumber, hne⟩ | _ | ⟨hfloat, -⟩)
      · exact ⟨hnumber, hne⟩
      · exact absurd rfl (hfloat x)
  · rename_i x y
    rw [Binary64.sameNumber_iff]
    constructor
    · rintro ⟨hnumber, hne⟩
      exact .double hnumber hne
    · rintro (_ | ⟨hnumber, hne⟩ | ⟨-, hdouble⟩)
      · exact ⟨hnumber, hne⟩
      · exact absurd rfl (hdouble x)
  · rename_i hfloat hdouble
    rw [beq_iff_eq]
    constructor
    · rintro rfl
      exact .same (fun x h => hfloat x x h h) (fun x h => hdouble x x h h)
    · rintro (_ | _ | _)
      · exact absurd rfl (hfloat _ _ rfl)
      · exact absurd rfl (hdouble _ _ rfl)
      · rfl

theorem Agrees.symm (h : constant.Agrees other) : other.Agrees constant := by
  cases h with
  | float hnumber hne => exact .float hnumber.symm (hnumber ▸ hne)
  | double hnumber hne => exact .double hnumber.symm (hnumber ▸ hne)
  | same hfloat hdouble => exact .same hfloat hdouble

theorem Agrees.trans (h : constant.Agrees other) (h' : other.Agrees third) :
    constant.Agrees third := by
  cases h with
  | float hnumber hne =>
    cases h' with
    | float hnumber' _ => exact .float (hnumber.trans hnumber') hne
    | same => exact .float hnumber hne
  | double hnumber hne =>
    cases h' with
    | double hnumber' _ => exact .double (hnumber.trans hnumber') hne
    | same => exact .double hnumber hne
  | same => exact h'

theorem agrees_self_iff : constant.Agrees constant ↔ ¬ constant.IsNaN := by
  constructor
  · rintro (⟨-, hne⟩ | ⟨-, hne⟩ | ⟨hfloat, hdouble⟩)
    · exact hne
    · exact hne
    · intro hnan
      cases constant with
      | float x => exact hfloat x rfl
      | double x => exact hdouble x rfl
      | _ => exact hnan
  · intro hnan
    cases constant with
    | float x => exact .float rfl hnan
    | double x => exact .double rfl hnan
    | _ => exact .same (fun _ h => nomatch h) (fun _ h => nomatch h)

end Constant

/-! ## Slots and pools -/

section

variable {α : Type} {r : α → α → Prop} {a b c : Option α}

theorem optionRel_symm (hsymm : ∀ x y, r x y → r y x) (h : Option.Rel r a b) :
    Option.Rel r b a := by
  cases h with
  | some h => exact .some (hsymm _ _ h)
  | none => exact .none

theorem optionRel_trans (htrans : ∀ x y z, r x y → r y z → r x z) (h : Option.Rel r a b)
    (h' : Option.Rel r b c) : Option.Rel r a c := by
  cases h with
  | some h =>
    cases h' with
    | some h' => exact .some (htrans _ _ _ h h')
  | none => exact h'

theorem optionRel_self_iff : Option.Rel r a a ↔ ∀ x, a = some x → r x x := by
  cases a with
  | none => simp
  | some x => simp

theorem eq_none_iff_of_optionRel (h : Option.Rel r a b) : a = none ↔ b = none := by
  cases h <;> simp

theorem size_eq_of_optionRel {xs ys : Array α}
    (h : ∀ index : Nat, Option.Rel r xs[index]? ys[index]?) : xs.size = ys.size := by
  have hle (index : Nat) : xs.size ≤ index ↔ ys.size ≤ index := by
    rw [← Array.getElem?_eq_none_iff, ← Array.getElem?_eq_none_iff]
    exact eq_none_iff_of_optionRel (h index)
  exact Nat.le_antisymm ((hle _).mpr (Nat.le_refl _)) ((hle _).mp (Nat.le_refl _))

/-- Arrays are compared index by index. -/
theorem isEqv_iff_optionRel {test : α → α → Bool} (htest : ∀ x y, test x y = true ↔ r x y)
    {xs ys : Array α} :
    xs.isEqv ys test = true ↔ ∀ index : Nat, Option.Rel r xs[index]? ys[index]? := by
  rw [Array.isEqv_iff_rel]
  constructor
  · rintro ⟨hsize, hsame⟩ index
    by_cases hlt : index < xs.size
    · rw [Array.getElem?_eq_getElem hlt, Array.getElem?_eq_getElem (hsize ▸ hlt)]
      exact .some ((htest _ _).mp (hsame index hlt))
    · rw [Array.getElem?_eq_none (by omega), Array.getElem?_eq_none (by omega)]
      exact .none
  · intro h
    have hsize := size_eq_of_optionRel h
    refine ⟨hsize, fun index hlt => ?_⟩
    have hrel := h index
    rw [Array.getElem?_eq_getElem hlt, Array.getElem?_eq_getElem (hsize ▸ hlt),
      Option.rel_some_some] at hrel
    exact (htest _ _).mpr hrel

end

namespace ConstantPool

/-- Pools with as many slots, of which those with one index are both empty or hold constants of one
value. -/
def Agrees (pool other : ConstantPool) : Prop :=
  ∀ index : Nat, Option.Rel (Option.Rel Constant.Agrees) pool.slots[index]? other.slots[index]?

variable {pool other third : ConstantPool}

theorem sameValue_iff : pool.sameValue other = true ↔ pool.Agrees other := by
  apply isEqv_iff_optionRel
  intro slot slot'
  cases slot <;> cases slot' <;> simp [Constant.sameValue_iff]

theorem Agrees.symm (h : pool.Agrees other) : other.Agrees pool := fun index =>
  optionRel_symm (fun _ _ => optionRel_symm fun _ _ => Constant.Agrees.symm) (h index)

theorem Agrees.trans (h : pool.Agrees other) (h' : other.Agrees third) : pool.Agrees third :=
  fun index => optionRel_trans (fun _ _ _ => optionRel_trans fun _ _ _ => Constant.Agrees.trans)
    (h index) (h' index)

theorem agrees_self_iff : pool.Agrees pool ↔
    ∀ (index : Nat) constant, pool.slots[index]? = some (some constant) → ¬ constant.IsNaN := by
  simp only [Agrees, optionRel_self_iff, Constant.agrees_self_iff]
  constructor
  · intro h index constant hslot
    exact h index _ hslot constant rfl
  · rintro h index _ hslot constant rfl
    exact h index constant hslot

end ConstantPool

namespace ClassFile

/-- Classes that agree in every part, the pools in the values of their constants. -/
structure Agrees (cls other : ClassFile) : Prop where
  version : cls.version = other.version
  pool : cls.pool.Agrees other.pool
  accessFlags : cls.accessFlags = other.accessFlags
  thisClass : cls.thisClass = other.thisClass
  superClass : cls.superClass = other.superClass
  interfaces : cls.interfaces = other.interfaces
  fields : cls.fields = other.fields
  methods : cls.methods = other.methods
  classAttributes : cls.attributes = other.attributes

variable {cls other third : ClassFile}

theorem sameValue_iff : cls.sameValue other = true ↔ cls.Agrees other := by
  simp only [sameValue, Bool.and_eq_true, beq_iff_eq, ConstantPool.sameValue_iff]
  constructor
  · rintro ⟨⟨⟨⟨⟨⟨⟨⟨h1, h2⟩, h3⟩, h4⟩, h5⟩, h6⟩, h7⟩, h8⟩, h9⟩
    exact ⟨h1, h2, h3, h4, h5, h6, h7, h8, h9⟩
  · rintro ⟨h1, h2, h3, h4, h5, h6, h7, h8, h9⟩
    exact ⟨⟨⟨⟨⟨⟨⟨⟨h1, h2⟩, h3⟩, h4⟩, h5⟩, h6⟩, h7⟩, h8⟩, h9⟩

theorem Agrees.symm (h : cls.Agrees other) : other.Agrees cls :=
  ⟨h.version.symm, h.pool.symm, h.accessFlags.symm, h.thisClass.symm, h.superClass.symm,
    h.interfaces.symm, h.fields.symm, h.methods.symm, h.classAttributes.symm⟩

theorem Agrees.trans (h : cls.Agrees other) (h' : other.Agrees third) : cls.Agrees third :=
  ⟨h.version.trans h'.version, h.pool.trans h'.pool, h.accessFlags.trans h'.accessFlags,
    h.thisClass.trans h'.thisClass, h.superClass.trans h'.superClass,
    h.interfaces.trans h'.interfaces, h.fields.trans h'.fields, h.methods.trans h'.methods,
    h.classAttributes.trans h'.classAttributes⟩

theorem agrees_self_iff : cls.Agrees cls ↔
    ∀ (index : Nat) constant, cls.pool.slots[index]? = some (some constant) →
      ¬ constant.IsNaN := by
  rw [← ConstantPool.agrees_self_iff]
  exact ⟨Agrees.pool, fun h => ⟨rfl, h, rfl, rfl, rfl, rfl, rfl, rfl, rfl⟩⟩

/-- Classes, from whatever bytes they were read, have the same value exactly if they agree: the
float and double constants in one slot are one number of IEEE 754, and everything else is equal. So
having the same value is symmetric and transitive, and a class has the same value as itself exactly
if no float or double constant in its pool is a NaN. -/
theorem sameValue_partialEquivalence :
    (∀ cls other : ClassFile, cls.sameValue other = true ↔ cls.Agrees other) ∧
    (∀ cls other : ClassFile, cls.sameValue other = other.sameValue cls) ∧
    (∀ cls other third : ClassFile, cls.sameValue other = true → other.sameValue third = true →
      cls.sameValue third = true) ∧
    ∀ cls : ClassFile, cls.sameValue cls = true ↔ ∀ (index : Nat) constant,
      cls.pool.slots[index]? = some (some constant) → ¬ constant.IsNaN := by
  refine ⟨fun cls other => sameValue_iff, fun cls other => ?_, fun cls other third h h' => ?_,
    fun cls => ?_⟩
  · rw [Bool.eq_iff_iff, sameValue_iff, sameValue_iff]
    exact ⟨Agrees.symm, Agrees.symm⟩
  · rw [sameValue_iff] at h h' ⊢
    exact h.trans h'
  · rw [sameValue_iff, agrees_self_iff]

end ClassFile

end Jvm
