import Jvm.Descriptor.MethodDescriptor
import Jvm.Proofs.Descriptor.FieldType

/-! # Descriptors of methods

A method descriptor is cut at its first closing parenthesis and may have no line feed behind it, but
a class name may hold both. So the descriptors read are those of plain types whose parameters have
no closing parenthesis and whose result has no line feed (`MethodDescriptor.ofChars?_eq_some_iff`),
and a method with such a class name in such a place is not read back from what it is written as
(`MethodDescriptor.parse_written`). -/

namespace Jvm.MethodDescriptor

variable {text : List Char}

/-- All types of the method. -/
def types (method : MethodDescriptor) : List FieldType :=
  method.parameters ++ method.result.toList

theorem forall_types_iff {method : MethodDescriptor} {P : FieldType → Prop} :
    (∀ type ∈ method.types, P type) ↔
      (∀ type ∈ method.parameters, P type) ∧ ∀ type ∈ method.result, P type := by
  simp [types, or_imp, forall_and]

/-- The result as text. -/
def resultChars : Option FieldType → List Char
  | some type => type.chars
  | none => ['V']

theorem chars_eq (method : MethodDescriptor) : method.chars =
    '(' :: (method.parameters.flatMap FieldType.chars ++ ')' :: resultChars method.result) := by
  obtain ⟨parameters, _ | type⟩ := method <;> rfl

theorem resultChars_ne_nil (result : Option FieldType) : resultChars result ≠ [] := by
  cases result with
  | none => simp [resultChars]
  | some type => exact type.chars_ne_nil

/-- The types taken off a text stand in it one behind the other. -/
theorem of_takeTypes {fuel : Nat} {done types : List FieldType}
    (h : takeTypes fuel done text = some types) : ∃ more, types = done.reverse ++ more ∧
      (∀ type ∈ more, type.Plain) ∧ text = more.flatMap FieldType.chars := by
  fun_induction takeTypes fuel done text with
  | case1 _ done =>
    cases h
    exact ⟨[], (List.append_nil _).symm, by simp, rfl⟩
  | case2 => cases h
  | case3 done fuel text _ type rest htake ih =>
    obtain ⟨more, rfl, hplain, rfl⟩ := ih h
    obtain ⟨htype, htext⟩ := FieldType.take?_eq_some_iff.mp htake
    exact ⟨type :: more, by simp, List.forall_mem_cons.mpr ⟨htype, hplain⟩, by simpa using htext⟩
  | case4 => cases h

/-- Each type takes a character at least, so the fuel lasts. -/
theorem takeTypes_flatMap {fuel : Nat} {types : List FieldType}
    (hplain : ∀ type ∈ types, type.Plain)
    (hfuel : (types.flatMap FieldType.chars).length ≤ fuel) :
    takeTypes fuel [] (types.flatMap FieldType.chars) = some types := by
  induction types generalizing fuel with
  | nil => cases fuel <;> rfl
  | cons type types ih =>
    obtain ⟨htype, htypes⟩ := List.forall_mem_cons.mp hplain
    obtain ⟨c, others, hchars⟩ := List.exists_cons_of_ne_nil type.chars_ne_nil
    have htake := FieldType.take?_chars htype (types.flatMap FieldType.chars)
    rw [List.flatMap_cons] at hfuel ⊢
    rw [hchars] at hfuel htake ⊢
    cases fuel with
    | zero => simp at hfuel
    | succ fuel =>
      have hrest : (types.flatMap FieldType.chars).length ≤ fuel := by
        simp only [List.cons_append, List.length_cons, List.length_append] at hfuel
        omega
      rw [List.cons_append] at htake ⊢
      rw [takeTypes, htake]
      · simp only
        rw [takeTypes_eq, ih htypes hrest]
        rfl
      · simp

theorem typesOfChars?_eq_some_iff {types : List FieldType} : typesOfChars? text = some types ↔
    (∀ type ∈ types, type.Plain) ∧ text = types.flatMap FieldType.chars := by
  refine ⟨fun h => ?_, fun h => ?_⟩
  · obtain ⟨more, rfl, hmore⟩ := of_takeTypes h
    exact hmore
  · obtain ⟨hplain, rfl⟩ := h
    exact takeTypes_flatMap hplain (Nat.le_refl _)

/-- No type is written as `V`. -/
theorem chars_ne_void {type : FieldType} (h : type.Plain) : type.chars ≠ ['V'] := fun hvoid => by
  have htake := FieldType.ofChars?_eq_some_iff.mpr ⟨h, hvoid.symm⟩
  cases htake

theorem resultOfChars?_eq_some_iff {result : Option FieldType} :
    resultOfChars? text = some result ↔
      '\n' ∉ text ∧ (∀ type ∈ result, type.Plain) ∧ text = resultChars result := by
  unfold resultOfChars?
  by_cases hfeed : '\n' ∈ text
  · simp [hfeed]
  rw [if_neg hfeed]
  cases result with
  | none =>
    by_cases hvoid : text = ['V'] <;> simp [hvoid, resultChars]
  | some type =>
    have hsome : (∀ other ∈ some type, other.Plain) ↔ type.Plain := by simp
    rw [hsome, resultChars, ← FieldType.ofChars?_eq_some_iff]
    by_cases hvoid : text = ['V']
    · have hnone : FieldType.ofChars? ['V'] = none := rfl
      simp [hvoid, hnone]
    · simp [hvoid, hfeed]

theorem ofChars?_cons_eq_some_iff {method : MethodDescriptor} :
    ofChars? ('(' :: text) = some method ↔
      typesOfChars? (text.takeWhile (· ≠ ')')) = some method.parameters ∧
        resultOfChars? ((text.dropWhile (· ≠ ')')).drop 1) = some method.result := by
  obtain ⟨parameters, result⟩ := method
  simp [ofChars?, Option.bind_eq_some_iff]

/-- The texts that are read, and as what. -/
theorem ofChars?_eq_some_iff {method : MethodDescriptor} : ofChars? text = some method ↔
    (∀ type ∈ method.types, type.Plain) ∧ ')' ∉ method.parameters.flatMap FieldType.chars ∧
      '\n' ∉ resultChars method.result ∧ text = method.chars := by
  rw [forall_types_iff, chars_eq]
  refine ⟨fun h => ?_, fun h => ?_⟩
  · obtain ⟨text, rfl⟩ : ∃ others, text = '(' :: others := by
      unfold ofChars? at h
      split at h
      · exact ⟨_, rfl⟩
      · cases h
    obtain ⟨hparameters, hresult⟩ := ofChars?_cons_eq_some_iff.mp h
    obtain ⟨hplain, hfront⟩ := typesOfChars?_eq_some_iff.mp hparameters
    obtain ⟨hfeed, hplain', hback⟩ := resultOfChars?_eq_some_iff.mp hresult
    obtain ⟨hclosing, htext⟩ :=
      (cut_drop_eq_iff (resultChars_ne_nil method.result)).mp ⟨hfront, hback⟩
    exact ⟨⟨hplain, hplain'⟩, hclosing, hback ▸ hfeed, congrArg _ htext⟩
  · obtain ⟨⟨hplain, hplain'⟩, hclosing, hfeed, rfl⟩ := h
    obtain ⟨hfront, hback⟩ :=
      (cut_drop_eq_iff (resultChars_ne_nil method.result)).mpr ⟨hclosing, rfl⟩
    refine ofChars?_cons_eq_some_iff.mpr ⟨?_, ?_⟩
    · exact typesOfChars?_eq_some_iff.mpr ⟨hplain, hfront⟩
    · rw [hback]
      exact resultOfChars?_eq_some_iff.mpr ⟨hfeed, hplain', rfl⟩

theorem parse_eq_ok_iff {descriptor : String} {method : MethodDescriptor} :
    parse descriptor = .ok method ↔ ofChars? descriptor.toList = some method := by
  rw [parse]
  cases ofChars? descriptor.toList <;> simp

/-- Types in front of a closing parenthesis can be told from what is written there. -/
theorem eq_of_flatMap_chars_eq {types types' : List FieldType} {back back' : List Char}
    (hplain : ∀ type ∈ types, type.Plain) (hplain' : ∀ type ∈ types', type.Plain)
    (h : types.flatMap FieldType.chars ++ ')' :: back =
      types'.flatMap FieldType.chars ++ ')' :: back') : types = types' ∧ back = back' := by
  have hclosing (text : List Char) : FieldType.take? (')' :: text) = none := rfl
  induction types generalizing types' with
  | nil =>
    cases types' with
    | nil => exact ⟨rfl, (List.cons_eq_cons.mp h).2⟩
    | cons type' types' =>
      have htake := FieldType.take?_chars (hplain' type' List.mem_cons_self)
      rw [List.flatMap_cons, List.append_assoc] at h
      rw [List.flatMap_nil, List.nil_append] at h
      have hnone := hclosing back
      rw [h, htake] at hnone
      cases hnone
  | cons type types ih =>
    obtain ⟨htype, htypes⟩ := List.forall_mem_cons.mp hplain
    rw [List.flatMap_cons, List.append_assoc] at h
    have htake := FieldType.take?_chars htype (types.flatMap FieldType.chars ++ ')' :: back)
    rw [h] at htake
    cases types' with
    | nil => cases htake
    | cons type' types' =>
      obtain ⟨htype', htypes'⟩ := List.forall_mem_cons.mp hplain'
      rw [List.flatMap_cons, List.append_assoc, FieldType.take?_chars htype'] at htake
      obtain ⟨rfl, hrest⟩ := Prod.mk.inj (Option.some.inj htake)
      obtain ⟨rfl, rfl⟩ := ih htypes htypes' hrest.symm
      exact ⟨rfl, rfl⟩

theorem eq_of_resultChars_eq {result result' : Option FieldType}
    (hplain : ∀ type ∈ result, type.Plain) (hplain' : ∀ type ∈ result', type.Plain)
    (h : resultChars result = resultChars result') : result = result' := by
  cases result with
  | none =>
    cases result' with
    | none => rfl
    | some type' => exact absurd h.symm (chars_ne_void (hplain' type' rfl))
  | some type =>
    cases result' with
    | none => exact absurd h (chars_ne_void (hplain type rfl))
    | some type' =>
      have hread := FieldType.ofChars?_eq_some_iff.mpr ⟨hplain type rfl, rfl⟩
      have hread' := FieldType.ofChars?_eq_some_iff.mpr ⟨hplain' type' rfl, h⟩
      exact hread.symm.trans hread'

/-- Methods of plain types are told apart by what they are written as. -/
theorem eq_of_chars_eq {method method' : MethodDescriptor}
    (hplain : ∀ type ∈ method.types, type.Plain) (hplain' : ∀ type ∈ method'.types, type.Plain)
    (h : method.chars = method'.chars) : method = method' := by
  rw [forall_types_iff] at hplain hplain'
  rw [chars_eq, chars_eq] at h
  obtain ⟨hparameters, hback⟩ :=
    eq_of_flatMap_chars_eq hplain.1 hplain'.1 (List.cons_eq_cons.mp h).2
  have hresult := eq_of_resultChars_eq hplain.2 hplain'.2 hback
  obtain ⟨parameters, result⟩ := method
  subst hparameters hresult
  rfl

/-- Of the methods whose types are all read back from what they are written as, those are read back
too that have no closing parenthesis in a parameter and no line feed in the result. The others are
rejected. -/
theorem parse_written {method : MethodDescriptor}
    (h : ∀ type ∈ method.types, FieldType.parse type.descriptor = .ok type) :
    (parse method.descriptor = .ok method ↔
      (∀ type ∈ method.parameters, ')' ∉ type.descriptor.toList) ∧
        ∀ type ∈ method.result, '\n' ∉ type.descriptor.toList) ∧
    (parse method.descriptor = .ok method ∨
      parse method.descriptor = .error (.invalidDescriptor method.descriptor)) := by
  have hplain : ∀ type ∈ method.types, type.Plain := fun type htype =>
    FieldType.parse_descriptor_iff.mp (h type htype)
  have hchars : method.descriptor.toList = method.chars := String.toList_ofList
  refine ⟨?_, ?_⟩
  · have hclosing : ')' ∉ method.parameters.flatMap FieldType.chars ↔
        ∀ type ∈ method.parameters, ')' ∉ type.chars := by
      simp
    have hfeed : '\n' ∉ resultChars method.result ↔
        ∀ type ∈ method.result, '\n' ∉ type.chars := by
      cases method.result <;> simp [resultChars]
    rw [parse_eq_ok_iff, ofChars?_eq_some_iff, hclosing, hfeed, and_iff_right hplain]
    simp [hchars, FieldType.descriptor]
  · rw [parse, hchars]
    cases hread : ofChars? method.chars with
    | none => exact .inr rfl
    | some method' =>
      obtain ⟨hplain', -, -, hsame⟩ := ofChars?_eq_some_iff.mp hread
      rw [eq_of_chars_eq hplain hplain' hsame]
      exact .inl rfl

theorem parse_written_lineFeed :
    let named : FieldType := ⟨.object "a\nb", 1⟩
    (∀ type ∈ types ⟨[named, named], some ⟨.int, 0⟩⟩,
      FieldType.parse type.descriptor = .ok type) ∧
    parse (descriptor ⟨[named, named], some ⟨.int, 0⟩⟩) =
      .ok ⟨[named, named], some ⟨.int, 0⟩⟩ := by
  intro named
  have htypes : ∀ type ∈ types ⟨[named, named], some ⟨.int, 0⟩⟩,
      FieldType.parse type.descriptor = .ok type := by decide +kernel
  exact ⟨htypes, (parse_written htypes).1.mpr (by decide +kernel)⟩

/-- A class name with a closing parenthesis in it is read as a type, and as the result of a method,
but not as a parameter. -/
theorem not_parse_written_closingParenthesis :
    FieldType.parse (FieldType.descriptor ⟨.object "a)b", 0⟩) = .ok ⟨.object "a)b", 0⟩ ∧
    parse (descriptor ⟨[], some ⟨.object "a)b", 0⟩⟩) = .ok ⟨[], some ⟨.object "a)b", 0⟩⟩ ∧
    parse (descriptor ⟨[⟨.object "a)b", 0⟩], none⟩) = .error (.invalidDescriptor "(La)b;)V") := by
  decide +kernel

end Jvm.MethodDescriptor
