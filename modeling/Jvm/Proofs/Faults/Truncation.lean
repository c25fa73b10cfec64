import Jvm.Proofs.Decoding.ClassLaw
import Jvm.Proofs.Layout.RoundTrip

/-! # Inputs that are cut short or go on

Reading a class is steady, so an accepted input cut anywhere before the place reached ends in a
truncation that names bytes the whole input has, and cut just there it is accepted with anything
behind it. A fault that is no truncation does not hang on what follows either. -/

namespace Jvm

open Decoder

namespace Decoder

variable {α : Type}

theorem steady_position : Steady position where
  forward c := ⟨[], .refl c⟩
  stalled _ _ _ h := (nomatch h)
  extend _ _ _ := rfl
  resumed _ _ _ _ _ h := (nomatch h)
  events_kept _ _ := List.prefix_rfl

/-! ## The whole input -/

/-- From the start of the bytes, position and bytes left make up their length. -/
theorem Steady.position_add_remaining {step : Decoder α} (h : Steady step) (bytes : List UInt8) :
    (step (.start bytes)).cursor.position + (step (.start bytes)).cursor.remaining =
      bytes.length := by
  obtain ⟨taken, hpass⟩ := h.forward (.start bytes)
  have hposition : (step (.start bytes)).cursor.position = 0 + taken.length := hpass.position_eq
  have hremaining : bytes.length = taken.length + _ := hpass.remaining_eq
  omega

/-- Where an input is too short and a longer one is accepted, the bytes asked for end behind the
short one, and not behind the place reached on the long one. -/
theorem Steady.bounds_of_ranOut {step : Decoder α} (h : Steady step) (bytes more : List UInt8)
    {value : α} {offset needed : Nat}
    (hran : (step (.start bytes)).result = .error (.truncated offset needed))
    (hok : (step (.start (bytes ++ more))).result = .ok value) :
    offset ≤ bytes.length ∧ bytes.length < offset + needed ∧
      offset + needed ≤ (step (.start (bytes ++ more))).cursor.position := by
  obtain ⟨hposition, hremaining⟩ := h.stalled _ _ _ hran
  have hlength := h.position_add_remaining bytes
  refine ⟨?_, ?_, h.resumed (.start bytes) more offset needed value hran hok⟩
  · omega
  · omega

/-- Cut before the place reached, the input is too short. -/
theorem Steady.ranOut_of_lt {step : Decoder α} (h : Steady step) (bytes more : List UInt8)
    (hlt : bytes.length < (step (.start (bytes ++ more))).cursor.position) :
    (step (.start bytes)).RanOut := by
  refine Classical.byContradiction fun hran => ?_
  have hextend : step (.start (bytes ++ more)) = (step (.start bytes)).extend more :=
    h.extend (.start bytes) more hran
  have hlength := h.position_add_remaining bytes
  rw [hextend] at hlt
  change bytes.length < (step (.start bytes)).cursor.position at hlt
  omega

/-- Cut at the place reached or behind it, the input is long enough. -/
theorem Steady.result_append {step : Decoder α} (h : Steady step) (bytes more : List UInt8)
    {value : α} (hok : (step (.start (bytes ++ more))).result = .ok value)
    (hle : (step (.start (bytes ++ more))).cursor.position ≤ bytes.length) (other : List UInt8) :
    (step (.start (bytes ++ other))).result = .ok value := by
  have hran : ¬ (step (.start bytes)).RanOut := by
    intro hran
    obtain ⟨offset, needed, hran⟩ := hran
    have hbounds := h.bounds_of_ranOut bytes more hran hok
    omega
  have hextend (other : List UInt8) :
      (step (.start (bytes ++ other))).result = (step (.start bytes)).result := by
    change (step ((Cursor.start bytes).extend other)).result = _
    rw [h.extend (.start bytes) other hran]
    rfl
  rw [hextend other, ← hextend more, hok]

end Decoder

/-! ## The class -/

theorem steady_classLaw : ClassLaw Steady where
  toSteps := steady_steps
  position := steady_position
  report event _ _ := steady_report event
  knownLength _ := steady_steps.u32.bind fun _ => steady_report _
  found h := steady_ofExcept fun offset needed hresult => h _ hresult offset needed rfl
  limit := steady_limit

namespace ClassFile

theorem steady_decodeContent : Steady decodeContent := steady_classLaw.content

/-- How many bytes were used. -/
def consumed (bytes : List UInt8) : Nat := bytes.length - (ofBytes bytes).cursor.remaining

theorem consumed_eq (bytes : List UInt8) :
    consumed bytes = (decodeContent (.start bytes)).cursor.position ∧
      consumed bytes ≤ bytes.length := by
  have hlength := steady_decodeContent.position_add_remaining bytes
  unfold consumed ofBytes
  rw [(decode_result_cursor _).2]
  omega

/-- Cut anywhere before the place reached, an accepted input is truncated, with a fault that is
true of the part and false of the whole; cut just there, it is accepted whatever follows. And a
fault other than a truncation stays, whatever follows. -/
theorem ofBytes_prefix_law (bytes : List UInt8) :
    (∀ cls, (ofBytes bytes).result = .ok cls →
      (∀ k, k < consumed bytes → ∃ offset needed,
        (ofBytes (bytes.take k)).result = .error (.truncated offset needed) ∧
          offset ≤ k ∧ k < offset + needed ∧ offset + needed ≤ consumed bytes) ∧
      ∀ more, (ofBytes (bytes.take (consumed bytes) ++ more)).result = .ok cls) ∧
    ∀ fault, (ofBytes bytes).result = .error fault →
      (∀ offset needed, fault ≠ .truncated offset needed) →
      ∀ more, (ofBytes (bytes ++ more)).result = .error fault := by
  have hresult (bytes : List UInt8) : (ofBytes bytes).result = (decodeContent (.start bytes)).result :=
    (decode_result_cursor (.start bytes)).1
  obtain ⟨hconsumed, hle⟩ := consumed_eq bytes
  refine ⟨fun cls hok => ⟨fun k hk => ?_, fun more => ?_⟩, fun fault herror hne more => ?_⟩
  · have hlength : (bytes.take k).length = k := List.length_take_of_le (by omega)
    have hwhole : bytes.take k ++ bytes.drop k = bytes := List.take_append_drop k bytes
    have hok' : (decodeContent (.start (bytes.take k ++ bytes.drop k))).result = .ok cls := by
      rw [hwhole, ← hresult, hok]
    obtain ⟨offset, needed, hran⟩ := steady_decodeContent.ranOut_of_lt (bytes.take k) (bytes.drop k)
      (by rw [hwhole]; omega)
    have hbounds := steady_decodeContent.bounds_of_ranOut _ _ hran hok'
    rw [hlength, hwhole, ← hconsumed] at hbounds
    exact ⟨offset, needed, (hresult _).trans hran, hbounds⟩
  · have hlength : (bytes.take (consumed bytes)).length = consumed bytes :=
      List.length_take_of_le hle
    have hwhole : bytes.take (consumed bytes) ++ bytes.drop (consumed bytes) = bytes :=
      List.take_append_drop _ bytes
    rw [hresult]
    exact steady_decodeContent.result_append _ (bytes.drop (consumed bytes))
      (by rw [hwhole, ← hresult, hok]) (by rw [hwhole]; omega) more
  · have hran : ¬ (decodeContent (.start bytes)).RanOut := by
      intro hran
      obtain ⟨offset, needed, hran⟩ := hran
      rw [hresult, hran] at herror
      cases herror
      exact hne offset needed rfl
    rw [hresult] at herror ⊢
    exact (congrArg Outcome.result (steady_decodeContent.extend _ more hran)).trans herror

theorem ofBytes_prefix_law_nestedCode :
    (∀ k, k < consumed nestedCodeBytes → ∃ offset needed,
      (ofBytes (nestedCodeBytes.take k)).result = .error (.truncated offset needed) ∧
        offset ≤ k ∧ k < offset + needed ∧ offset + needed ≤ consumed nestedCodeBytes) ∧
    ∀ more, (ofBytes ([0xca, 0xfe, 0xba, 0xbf] ++ more)).result = .error (.badMagic 0xcafebabf) := by
  have hread : (ofBytes nestedCodeBytes).result = .ok nestedCode := by decide +kernel
  have hbad : (ofBytes [0xca, 0xfe, 0xba, 0xbf]).result = .error (.badMagic 0xcafebabf) := by
    decide +kernel
  exact ⟨((ofBytes_prefix_law nestedCodeBytes).1 nestedCode hread).1,
    (ofBytes_prefix_law [0xca, 0xfe, 0xba, 0xbf]).2 _ hbad fun _ _ => by simp⟩

end ClassFile

end Jvm
