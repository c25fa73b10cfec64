import Jvm.Class.Attribute

/-! Equality of attributes is decidable, however deep code is nested: `same` compares part by
part and says yes exactly to equals. -/

namespace Jvm

mutual

def Attribute.same : Attribute → Attribute → Bool
  | .code x, .code y => Code.same x y
  | .constantValue x, .constantValue y => x == y
  | .deprecated, .deprecated => true
  | .exceptions x, .exceptions y => x == y
  | .lineNumbers x, .lineNumbers y => x == y
  | .localVariables x, .localVariables y => x == y
  | .sourceFile x, .sourceFile y => x == y
  | .synthetic, .synthetic => true
  | .unrecognized m x, .unrecognized n y => m == n && x == y
  | _, _ => false

def Code.same : Code → Code → Bool
  | ⟨stack, locals, instructions, handlers, attributes⟩,
    ⟨stack', locals', instructions', handlers', attributes'⟩ =>
    stack == stack' && locals == locals' && instructions == instructions' &&
      handlers == handlers' && sameAttributes attributes attributes'

def sameAttributes : List Attribute → List Attribute → Bool
  | [], [] => true
  | a :: as, b :: bs => Attribute.same a b && sameAttributes as bs
  | _, _ => false

end

mutual

theorem Attribute.same_iff : (a b : Attribute) → (Attribute.same a b = true ↔ a = b)
  | .code x, b => by cases b <;> simp [Attribute.same, Code.same_iff x]
  | .constantValue _, b => by cases b <;> simp [Attribute.same]
  | .deprecated, b => by cases b <;> simp [Attribute.same]
  | .exceptions _, b => by cases b <;> simp [Attribute.same]
  | .lineNumbers _, b => by cases b <;> simp [Attribute.same]
  | .localVariables _, b => by cases b <;> simp [Attribute.same]
  | .sourceFile _, b => by cases b <;> simp [Attribute.same]
  | .synthetic, b => by cases b <;> simp [Attribute.same]
  | .unrecognized _ _, b => by cases b <;> simp [Attribute.same]

theorem Code.same_iff : (a b : Code) → (Code.same a b = true ↔ a = b)
  | ⟨_, _, _, _, attributes⟩, ⟨_, _, _, _, _⟩ => by
    simp [Code.same, sameAttributes_iff attributes, and_assoc]

theorem sameAttributes_iff : (as bs : List Attribute) → (sameAttributes as bs = true ↔ as = bs)
  | [], bs => by cases bs <;> simp [sameAttributes]
  | a :: as, bs => by
    cases bs <;> simp [sameAttributes, Attribute.same_iff a, sameAttributes_iff as]

end

instance : DecidableEq Attribute := fun a b => decidable_of_iff _ (Attribute.same_iff a b)

instance : DecidableEq Code := fun a b => decidable_of_iff _ (Code.same_iff a b)

end Jvm
