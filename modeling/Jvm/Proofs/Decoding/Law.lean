import Jvm.Class.Member
import Jvm.Proofs.Decoding.Steady

/-! # What holds of every decoder

Decoders are built from a few steps. A property of these steps that sequencing keeps is a property
of the decoders built from them: `Steps` is for those that read numbers and lists, `Law` for those
that look up texts in the pool and report as well, one level of code nesting included.
`Law.attributeWith` takes a law from the decoder of the attributes inside to the decoder of the
attribute. The length of a known kind is one step with the report that names it, because no step
behind that report is told the length. -/

namespace Jvm

open Decoder

/-- The event reports on a part that was read, not on a class as a whole and not on a thread. -/
def Event.OnPart : Event → Prop
  | .constantRead .. | .attributeRead .. | .attributeKept .. => True
  | .bytesIgnored _ | .classParsed .. | .framePushed _ | .framePopped _ => False

/-- The event reports on the header of an attribute of a known kind. -/
def Event.OnKnownKind (event : Event) : Prop :=
  ∃ (kind : AttributeKind) (length : Nat), event = .attributeRead kind.name length

namespace Attribute

/-- The length behind a name, used for nothing but the report. -/
def decodeLength (name : String) : Decoder Unit := do
  let length ← u32
  report (.attributeRead name length.toNat)

/-- What stands behind the name of an attribute. -/
def decodeNamed (nested : Decoder Attribute) (name : String) : Decoder Attribute :=
  match AttributeKind.ofName? name with
  | some kind => do
    decodeLength name
    decodePayload nested kind
  | none => do
    let length ← u32
    report (.attributeRead name length.toNat)
    report (.attributeKept name length.toNat)
    unrecognized name <$> bytes length.toNat

theorem decodeWith_eq (pool : ConstantPool) (nested : Decoder Attribute) :
    decodeWith pool nested =
      u16 >>= fun nameIndex => ofExcept (pool.utf8 nameIndex) >>= decodeNamed nested := by
  unfold decodeWith
  refine congrArg _ (funext fun nameIndex => congrArg _ (funext fun name => ?_))
  unfold decodeNamed
  cases AttributeKind.ofName? name with
  | some kind => simp only [decodeLength, bind_assoc]
  | none => rfl

end Attribute

/-- A property of decoders that sequencing keeps and that reading bytes has. -/
structure Steps (P : {α : Type} → Decoder α → Prop) : Prop where
  pure : ∀ {α : Type} (value : α), P (pure value : Decoder α)
  bind : ∀ {α β : Type} {first : Decoder α} {second : α → Decoder β},
    P first → (∀ value, P (second value)) → P (first >>= second)
  bytes : ∀ count, P (bytes count)

/-- A property that the steps of attribute reading have too, and that a decoder has as soon as it
agrees with one that has it on all short inputs. -/
structure Law (pool : ConstantPool) (P : {α : Type} → Decoder α → Prop) : Prop extends Steps P where
  report : ∀ event : Event, event.OnPart → ¬ event.OnKnownKind → P (report event)
  knownLength : ∀ kind : AttributeKind, P (Attribute.decodeLength kind.name)
  lookup : ∀ index, P (ofExcept (pool.utf8 index))
  limit : ∀ {α : Type} {step : Decoder α},
    (∀ bound, ∃ other : Decoder α, P other ∧ ∀ c, c.remaining < bound → step c = other c) → P step

namespace Steps

variable {P : {α : Type} → Decoder α → Prop} {α β σ : Type}

theorem map (steps : Steps P) (f : α → β) {step : Decoder α} (h : P step) : P (f <$> step) := by
  rw [← bind_pure_comp]
  exact steps.bind h fun value => steps.pure (f value)

theorem word (steps : Steps P) (width : Nat) : P (word width) := steps.map _ (steps.bytes width)

theorem u8 (steps : Steps P) : P u8 := steps.map _ (steps.word 1)

theorem u16 (steps : Steps P) : P u16 := steps.map _ (steps.word 2)

theorem u32 (steps : Steps P) : P u32 := steps.map _ (steps.word 4)

theorem u64 (steps : Steps P) : P u64 := steps.map _ (steps.word 8)

theorem rounds (steps : Steps P) {step : σ → Decoder σ} (h : ∀ state, P (step state)) (count : Nat)
    (state : σ) : P (rounds step count state) := by
  induction count generalizing state with
  | zero => rw [rounds_zero]; exact steps.pure state
  | succ count ih => rw [rounds_succ]; exact steps.bind (h state) ih

theorem times (steps : Steps P) {item : Decoder α} (h : P item) (count : Nat) :
    P (times item count) :=
  steps.map _ (steps.rounds (fun _ => steps.map _ h) count _)

theorem counted (steps : Steps P) {item : Decoder α} (h : P item) : P (counted item) :=
  steps.bind steps.u16 fun count => steps.times h count.toNat

theorem memberRef (steps : Steps P) (kind : MemberKind) : P (Constant.decodeMemberRef kind) :=
  steps.bind steps.u16 fun _ => steps.bind steps.u16 fun _ => steps.pure _

/-- All constants but the texts are numbers one after another. -/
theorem constantPayload (steps : Steps P) {kind : Tag} (htext : kind = .utf8 → P Constant.decodeText) :
    P (Constant.decodePayload kind) := by
  cases kind with
  | utf8 => exact steps.map _ (htext rfl)
  | integer => exact steps.map _ steps.u32
  | float => exact steps.map _ (steps.map _ steps.u32)
  | long => exact steps.map _ steps.u64
  | double => exact steps.map _ (steps.map _ steps.u64)
  | classInfo => exact steps.map _ steps.u16
  | string => exact steps.map _ steps.u16
  | fieldRef => exact steps.memberRef .field
  | methodRef => exact steps.memberRef .method
  | interfaceMethodRef => exact steps.memberRef .interfaceMethod
  | nameAndType => exact steps.bind steps.u16 fun _ => steps.bind steps.u16 fun _ => steps.pure _
  | methodHandle => exact steps.bind steps.u8 fun _ => steps.bind steps.u16 fun _ => steps.pure _
  | methodType => exact steps.map _ steps.u16
  | invokeDynamic => exact steps.bind steps.u16 fun _ => steps.bind steps.u16 fun _ => steps.pure _

theorem handler (steps : Steps P) : P ExceptionHandler.decode :=
  steps.bind steps.u16 fun _ => steps.bind steps.u16 fun _ => steps.bind steps.u16 fun _ =>
    steps.bind steps.u16 fun _ => steps.pure _

theorem lineEntry (steps : Steps P) : P LineEntry.decode :=
  steps.bind steps.u16 fun _ => steps.bind steps.u16 fun _ => steps.pure _

theorem variableEntry (steps : Steps P) : P VariableEntry.decode :=
  steps.bind steps.u16 fun _ => steps.bind steps.u16 fun _ => steps.bind steps.u16 fun _ =>
    steps.bind steps.u16 fun _ => steps.bind steps.u16 fun _ => steps.pure _

theorem codeWith (steps : Steps P) {nested : Decoder Attribute} (h : P nested) :
    P (Code.decodeWith nested) :=
  steps.bind steps.u16 fun _ => steps.bind steps.u16 fun _ => steps.bind steps.u32 fun length =>
    steps.bind (steps.bytes length.toNat) fun _ => steps.bind (steps.counted steps.handler) fun _ =>
    steps.bind (steps.counted h) fun _ => steps.pure _

theorem attributePayload (steps : Steps P) {nested : Decoder Attribute} (h : P nested)
    (kind : AttributeKind) : P (Attribute.decodePayload nested kind) := by
  cases kind with
  | code => exact steps.map _ (steps.codeWith h)
  | constantValue => exact steps.map _ steps.u16
  | deprecated => exact steps.pure _
  | exceptions => exact steps.map _ (steps.counted steps.u16)
  | lineNumbers => exact steps.map _ (steps.counted steps.lineEntry)
  | localVariables => exact steps.map _ (steps.counted steps.variableEntry)
  | sourceFile => exact steps.map _ steps.u16
  | synthetic => exact steps.pure _

end Steps

/-- A law passes from the attributes inside code to the attribute around it. -/
theorem Law.attributeWith {pool : ConstantPool} {P : {α : Type} → Decoder α → Prop}
    (law : Law pool P) {nested : Decoder Attribute} (h : P nested) :
    P (Attribute.decodeWith pool nested) := by
  rw [Attribute.decodeWith_eq]
  refine law.bind law.u16 fun index => law.bind (law.lookup index) fun name => ?_
  unfold Attribute.decodeNamed
  cases hname : AttributeKind.ofName? name with
  | some kind =>
    obtain rfl := AttributeKind.ofName?_eq_some_iff.mp hname
    exact law.bind (law.knownLength kind) fun _ => law.attributePayload h kind
  | none =>
    have hread (length : Nat) : ¬ (Event.attributeRead name length).OnKnownKind := by
      rintro ⟨kind, _, hevent⟩
      cases hevent
      rw [AttributeKind.ofName?_name] at hname
      cases hname
    have hkept (length : Nat) : ¬ (Event.attributeKept name length).OnKnownKind := by
      rintro ⟨_, _, hevent⟩
      cases hevent
    exact law.bind law.u32 fun length => law.bind (law.report _ trivial (hread _)) fun _ =>
      law.bind (law.report _ trivial (hkept _)) fun _ => law.map _ (law.bytes _)

end Jvm
