import Mathlib.Data.List.TakeWhile
import Jvm.Descriptor.FieldType

/-! # Descriptors of types

A type is read off the front of a text exactly if its descriptor stands there and it is plain: a
class name is not empty and has no semicolon in it (`FieldType.take?_eq_some_iff`). So these are the
types that are read back from what they are written as (`FieldType.parse_descriptor_iff`). -/

namespace Jvm

variable {text rest : List Char}

/-- A text goes on from the first of some character. -/
theorem eq_of_dropWhile {stop c : Char} (h : text.dropWhile (· ≠ stop) = c :: rest) : c = stop := by
  have hhead := List.head?_dropWhile_not (· ≠ stop) text
  rw [h] at hhead
  simpa using hhead

/-- A text in front of the first of some character, and behind it. -/
theorem cut_eq_iff {stop : Char} {front back : List Char} :
    text.takeWhile (· ≠ stop) = front ∧ text.dropWhile (· ≠ stop) = stop :: back ↔
      stop ∉ front ∧ text = front ++ stop :: back := by
  refine ⟨fun h => ?_, fun h => ?_⟩
  · obtain ⟨rfl, hback⟩ := h
    refine ⟨fun hmem => ?_, ?_⟩
    · simpa using List.mem_takeWhile_imp hmem
    · rw [← hback, List.takeWhile_append_dropWhile]
  · obtain ⟨hfront, rfl⟩ := h
    have hpos : ∀ c ∈ front, decide (c ≠ stop) = true := fun c hc =>
      decide_eq_true fun heq => hfront (heq ▸ hc)
    rw [List.takeWhile_append_of_pos hpos, List.dropWhile_append_of_pos hpos]
    simp

/-- The same where something is left behind it. -/
theorem cut_drop_eq_iff {stop : Char} {front back : List Char} (h : back ≠ []) :
    text.takeWhile (· ≠ stop) = front ∧ (text.dropWhile (· ≠ stop)).drop 1 = back ↔
      stop ∉ front ∧ text = front ++ stop :: back := by
  rw [← cut_eq_iff]
  refine and_congr_right fun _ => ⟨fun hback => ?_, fun hback => by rw [hback]; rfl⟩
  cases hdrop : text.dropWhile (· ≠ stop) with
  | nil =>
    rw [hdrop] at hback
    exact absurd hback.symm h
  | cons c others =>
    rw [hdrop] at hback
    rw [eq_of_dropWhile hdrop]
    exact congrArg _ hback

namespace ElementType

/-- A class name can be told from what follows it. -/
def Plain : ElementType → Prop
  | object className => className ≠ "" ∧ ';' ∉ className.toList
  | byte | char | double | float | int | long | short | boolean => True

theorem takeObject?_eq_some_iff {element : ElementType} :
    takeObject? text = some (element, rest) ↔ ∃ name, name ≠ [] ∧ ';' ∉ name ∧
      text = name ++ ';' :: rest ∧ element = object (.ofList name) := by
  refine ⟨fun h => ?_, fun h => ?_⟩
  · unfold takeObject? at h
    split at h
    · rename_i first name stop rest' hfront hback
      obtain ⟨rfl, rfl⟩ := Prod.mk.inj (Option.some.inj h)
      obtain rfl : stop = ';' := eq_of_dropWhile hback
      obtain ⟨hmem, htext⟩ := cut_eq_iff.mp ⟨hfront, hback⟩
      exact ⟨first :: name, by simp, hmem, htext, rfl⟩
    · cases h
  · obtain ⟨name, hne, hmem, htext, rfl⟩ := h
    obtain ⟨hfront, hback⟩ := cut_eq_iff.mpr ⟨hmem, htext⟩
    obtain ⟨first, name, rfl⟩ := List.exists_cons_of_ne_nil hne
    rw [takeObject?, hfront, hback]

theorem take?_eq_some_iff {element : ElementType} :
    take? text = some (element, rest) ↔ element.Plain ∧ text = element.chars ++ rest := by
  refine ⟨fun h => ?_, fun h => ?_⟩
  · unfold take? at h
    split at h
    case h_9 =>
      obtain ⟨name, hne, hmem, rfl, rfl⟩ := takeObject?_eq_some_iff.mp h
      refine ⟨⟨fun hempty => hne ?_, ?_⟩, ?_⟩
      · simpa using congrArg String.toList hempty
      · rwa [String.toList_ofList]
      · simp [chars]
    case h_10 => cases h
    all_goals
      obtain ⟨rfl, rfl⟩ := Prod.mk.inj (Option.some.inj h)
      exact ⟨trivial, rfl⟩
  · obtain ⟨hplain, rfl⟩ := h
    cases element with
    | object className =>
      obtain ⟨hne, hmem⟩ := hplain
      have hname : className.toList ≠ [] := fun hnil => hne (String.toList_eq_nil_iff.mp hnil)
      have htake : takeObject? (className.toList ++ ';' :: rest) = some (object className, rest) :=
        takeObject?_eq_some_iff.mpr ⟨_, hname, hmem, rfl, by rw [String.ofList_toList]⟩
      rw [chars, List.append_assoc]
      exact htake
    | _ => rfl

theorem chars_head? (element : ElementType) : ∃ c others, element.chars = c :: others ∧ c ≠ '[' := by
  cases element with
  | object className => exact ⟨'L', _, rfl, by decide⟩
  | _ => exact ⟨_, _, rfl, by decide⟩

end ElementType

namespace FieldType

/-- An array is as plain as its elements. -/
def Plain (type : FieldType) : Prop := type.element.Plain

theorem chars_ne_nil (type : FieldType) : type.chars ≠ [] := by
  obtain ⟨c, others, hchars, -⟩ := type.element.chars_head?
  simp [chars, hchars]

theorem take?_eq_some_iff {type : FieldType} :
    take? text = some (type, rest) ↔ type.Plain ∧ text = type.chars ++ rest := by
  refine ⟨fun h => ?_, fun h => ?_⟩
  · obtain ⟨⟨element, rest'⟩, helement, htype⟩ := Option.map_eq_some_iff.mp h
    obtain ⟨rfl, rfl⟩ := Prod.mk.inj htype
    obtain ⟨hplain, hback⟩ := ElementType.take?_eq_some_iff.mp helement
    refine ⟨hplain, ?_⟩
    have hbrackets : text.takeWhile (· = '[') =
        List.replicate (text.takeWhile (· = '[')).length '[' :=
      List.eq_replicate_iff.mpr ⟨rfl, fun c hc => by simpa using List.mem_takeWhile_imp hc⟩
    rw [chars, ← hbrackets, List.append_assoc, ← hback, List.takeWhile_append_dropWhile]
  · obtain ⟨hplain, rfl⟩ := h
    obtain ⟨c, others, hchars, hc⟩ := type.element.chars_head?
    have hpos : ∀ c ∈ List.replicate type.dimensions '[', decide (c = '[') = true := fun c hc =>
      decide_eq_true (List.eq_of_mem_replicate hc)
    have htake : ElementType.take? (type.element.chars ++ rest) = some (type.element, rest) :=
      ElementType.take?_eq_some_iff.mpr ⟨hplain, rfl⟩
    rw [hchars, List.cons_append] at htake
    rw [take?, chars, hchars, List.append_assoc, List.dropWhile_append_of_pos hpos,
      List.takeWhile_append_of_pos hpos, List.cons_append,
      List.dropWhile_cons_of_neg (by simpa using hc), List.takeWhile_cons_of_neg (by simpa using hc),
      htake]
    simp

theorem take?_chars {type : FieldType} (h : type.Plain) (rest : List Char) :
    take? (type.chars ++ rest) = some (type, rest) := take?_eq_some_iff.mpr ⟨h, rfl⟩

theorem ofChars?_eq_some_iff {type : FieldType} :
    ofChars? text = some type ↔ type.Plain ∧ text = type.chars := by
  rw [← List.append_nil type.chars, ← take?_eq_some_iff, ofChars?]
  refine ⟨fun h => ?_, fun h => by rw [h]⟩
  split at h
  · rename_i htake
    rw [htake, Option.some.inj h]
  · cases h

theorem parse_eq_ok_iff {descriptor : String} {type : FieldType} :
    parse descriptor = .ok type ↔ type.Plain ∧ descriptor = type.descriptor := by
  have hchars : descriptor = type.descriptor ↔ descriptor.toList = type.chars := by
    rw [FieldType.descriptor, ← String.toList_inj, String.toList_ofList]
  rw [hchars, ← ofChars?_eq_some_iff, parse]
  cases ofChars? descriptor.toList <;> simp

/-- The types that survive being written and read. -/
theorem parse_descriptor_iff {type : FieldType} :
    parse type.descriptor = .ok type ↔ type.Plain := by
  simp [parse_eq_ok_iff]

end FieldType

end Jvm
