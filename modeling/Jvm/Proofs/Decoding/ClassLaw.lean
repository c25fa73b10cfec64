import Jvm.Proofs.Layout.ClassFile

/-! # What holds of the decoder of a whole class

`ClassLaw` adds to the steps of a `Law` those in front of the attributes: asking for the place,
reporting constants, and stopping for a fault that is no truncation. `ClassLaw.content` takes such a
property from the steps to the decoder of a class. -/

namespace Jvm

open Decoder

/-- The fault does not say that the input ended. -/
def FormatError.NoTruncation (fault : FormatError) : Prop :=
  ∀ offset needed, fault ≠ .truncated offset needed

/-- A property of decoders that sequencing keeps and that all steps of class reading have. -/
structure ClassLaw (P : {α : Type} → Decoder α → Prop) : Prop extends Steps P where
  position : P position
  report : ∀ event : Event, event.OnPart → ¬ event.OnKnownKind → P (report event)
  knownLength : ∀ kind : AttributeKind, P (Attribute.decodeLength kind.name)
  /-- What was looked up or checked. -/
  found : ∀ {α : Type} {result : Except FormatError α},
    (∀ fault, result = .error fault → fault.NoTruncation) → P (ofExcept result)
  limit : ∀ {α : Type} {step : Decoder α},
    (∀ bound, ∃ other : Decoder α, P other ∧ ∀ c, c.remaining < bound → step c = other c) → P step

theorem ConstantPool.checkReferences_noTruncation {pool : ConstantPool} {fault : FormatError}
    (h : pool.checkReferences = .error fault) : fault.NoTruncation := by
  rintro offset needed rfl
  obtain ⟨index, hindex⟩ := get_of_checkReferences_eq_error h
  exact pool.get_ne_truncated index offset needed hindex

namespace ClassLaw

variable {P : {α : Type} → Decoder α → Prop}

/-- With any pool, it is a law of attributes and members. -/
theorem law (laws : ClassLaw P) (pool : ConstantPool) : Law pool P where
  toSteps := laws.toSteps
  report := laws.report
  knownLength := laws.knownLength
  lookup index := laws.found fun _ hfault offset needed htruncated =>
    pool.utf8_ne_truncated index offset needed (htruncated ▸ hfault)
  limit := laws.limit

theorem fail (laws : ClassLaw P) {α : Type} {fault : FormatError} (h : fault.NoTruncation) :
    P (fail fault : Decoder α) := by
  have hfound : P (ofExcept (.error fault) : Decoder α) := laws.found fun other hother => by
    cases hother
    exact h
  exact hfound

theorem text (laws : ClassLaw P) : P Constant.decodeText := by
  refine laws.bind laws.u16 fun length => laws.bind laws.position fun start =>
    laws.bind (laws.bytes length.toNat) fun encoded => ?_
  split
  · exact laws.pure _
  · exact laws.fail (by simp [FormatError.NoTruncation])

theorem constant (laws : ClassLaw P) : P Constant.decode := by
  refine laws.bind laws.position fun offset => laws.bind laws.u8 fun byte => ?_
  split
  · exact laws.constantPayload fun _ => laws.text
  · exact laws.fail (by simp [FormatError.NoTruncation])

theorem slot (laws : ClassLaw P) (slots : Array (Option Constant)) :
    P (ConstantPool.decodeSlot slots) := by
  unfold ConstantPool.decodeSlot
  split
  · exact laws.pure _
  · exact laws.bind laws.constant fun _ =>
      laws.bind (laws.report _ trivial (by simp [Event.OnKnownKind])) fun _ => laws.pure _

theorem pool (laws : ClassLaw P) : P ConstantPool.decode := by
  refine laws.bind laws.u16 fun count =>
    laws.bind (laws.rounds laws.slot (count.toNat - 1) #[none]) fun slots => ?_
  split
  · exact laws.fail (by simp [FormatError.NoTruncation])
  · exact laws.bind (laws.found fun _ => ConstantPool.checkReferences_noTruncation) fun _ =>
      laws.pure _

theorem magic (laws : ClassLaw P) : P ClassFile.decodeMagic := by
  refine laws.bind laws.u32 fun found => ?_
  split
  · exact laws.fail (by simp [FormatError.NoTruncation])
  · exact laws.pure ()

theorem version (laws : ClassLaw P) : P ClassFile.decodeVersion := by
  refine laws.bind laws.u16 fun minor => laws.bind laws.u16 fun major => ?_
  dsimp only
  split
  · exact laws.pure _
  · exact laws.fail (by simp [FormatError.NoTruncation])

/-- The property holds of reading a class. -/
theorem content (laws : ClassLaw P) : P ClassFile.decodeContent := by
  rw [ClassFile.decodeContent_eq]
  exact laws.bind laws.magic fun _ => laws.bind laws.version fun version =>
    laws.bind laws.pool fun pool => ClassFile.law_decodeBody (laws.law pool) version

end ClassLaw

end Jvm
