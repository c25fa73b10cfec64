import Jvm.Proofs.Descriptor.MethodDescriptor

/-! # The languages of descriptors

The grammar of types, told apart from reading and writing: brackets, then a letter or a class name
between `L` and a semicolon (`FieldType.Spells`). Exactly its texts are read as types, each as the
one type that it spells, and no text of a type is the front part of another one
(`FieldType.exact_of_spelled`). A text that describes a method (`MethodDescriptor.Describes`) is cut
in only one way, and every other text is rejected as a whole (`MethodDescriptor.exact_of_described`). -/

namespace Jvm

namespace ElementType

/-- The types that are one letter. -/
def letters : List (Char × ElementType) :=
  [('B', byte), ('C', char), ('D', double), ('F', float), ('I', int), ('J', long), ('S', short),
    ('Z', boolean)]

/-- The text is a letter, or a class name between its two marks. -/
inductive Spells : List Char → ElementType → Prop
  | letter {c : Char} {element : ElementType} : (c, element) ∈ letters → Spells [c] element
  | object {name : List Char} : name ≠ [] → ';' ∉ name →
      Spells ('L' :: (name ++ [';'])) (object (.ofList name))

theorem spells_iff {text : List Char} {element : ElementType} :
    Spells text element ↔ element.Plain ∧ text = element.chars := by
  constructor
  · intro h
    cases h with
    | letter hletter =>
      simp only [letters, List.mem_cons, List.not_mem_nil, or_false, Prod.mk.injEq] at hletter
      rcases hletter with ⟨rfl, rfl⟩ | ⟨rfl, rfl⟩ | ⟨rfl, rfl⟩ | ⟨rfl, rfl⟩ | ⟨rfl, rfl⟩ |
        ⟨rfl, rfl⟩ | ⟨rfl, rfl⟩ | ⟨rfl, rfl⟩ <;> exact ⟨trivial, rfl⟩
    | object hne hmem =>
      refine ⟨⟨?_, ?_⟩, ?_⟩
      · intro hempty
        exact hne (by simpa using congrArg String.toList hempty)
      · rwa [String.toList_ofList]
      · simp [chars]
  · intro h
    obtain ⟨hplain, rfl⟩ := h
    cases element with
    | object className =>
      obtain ⟨hne, hmem⟩ := hplain
      have hname : className.toList ≠ [] := fun hnil => hne (String.toList_eq_nil_iff.mp hnil)
      have hspells := Spells.object hname hmem
      rwa [String.ofList_toList] at hspells
    | _ => exact .letter (by decide)

end ElementType

namespace FieldType

/-- The type of arrays of a type. -/
def arrayOf (component : FieldType) : FieldType :=
  { component with dimensions := component.dimensions + 1 }

/-- The text is an opening bracket for each array and then a type that is no array. -/
inductive Spells : List Char → FieldType → Prop
  | element {text : List Char} {element : ElementType} :
      element.Spells text → Spells text ⟨element, 0⟩
  | array {text : List Char} {component : FieldType} :
      Spells text component → Spells ('[' :: text) component.arrayOf

theorem spells_iff {text : List Char} {type : FieldType} :
    Spells text type ↔ type.Plain ∧ text = type.chars := by
  constructor
  · intro h
    induction h with
    | element h => exact ElementType.spells_iff.mp h
    | array _ ih =>
      obtain ⟨hplain, rfl⟩ := ih
      exact ⟨hplain, rfl⟩
  · intro h
    obtain ⟨element, dimensions⟩ := type
    obtain ⟨hplain, rfl⟩ := h
    induction dimensions with
    | zero => exact .element (ElementType.spells_iff.mpr ⟨hplain, rfl⟩)
    | succ dimensions ih => exact .array (ih hplain)

theorem toList_descriptor (type : FieldType) : type.descriptor.toList = type.chars :=
  String.toList_ofList

/-- What is written for one plain type goes on as no other one. -/
theorem eq_of_chars_isPrefix {type type' : FieldType} (hplain : type.Plain)
    (hplain' : type'.Plain) (h : type.chars <+: type'.chars) : type = type' := by
  obtain ⟨rest, hrest⟩ := h
  -- The longer text is taken as either type, by what stands in front and as a whole.
  have htake := take?_chars hplain rest
  rw [hrest, ← List.append_nil type'.chars, take?_chars hplain'] at htake
  exact (Prod.mk.inj (Option.some.inj htake)).1.symm

theorem parse_eq_ok_or_error (text : String) :
    (∃ type, parse text = .ok type) ∨ parse text = .error (.invalidDescriptor text) := by
  rw [parse]
  cases ofChars? text.toList with
  | some type => exact .inl ⟨type, rfl⟩
  | none => exact .inr rfl

theorem slotWidth_eq (type : FieldType) :
    type.slotWidth = if type = ⟨.long, 0⟩ ∨ type = ⟨.double, 0⟩ then 2 else 1 := by
  obtain ⟨element, dimensions⟩ := type
  cases dimensions <;> cases element <;> simp [slotWidth]

/-- Only a type of its own is read from its text. -/
theorem parse_eq_ok_iff_eq {text : String} {type type' : FieldType} (h : parse text = .ok type)
    (h' : parse type'.descriptor = .ok type') : type = type' ↔ text = type'.descriptor := by
  constructor
  · intro heq
    exact heq ▸ (parse_eq_ok_iff.mp h).2
  · intro heq
    rw [heq, h'] at h
    exact (Except.ok.inj h).symm

/-- Types are read off the front of a text just as they are written, whatever follows them; what is
written for one is never the front part of what is written for another. A whole text is read as the
type that it spells and is rejected if it spells none, and only the texts `J` and `D` take two
slots. -/
theorem exact_of_spelled :
    (∀ (text rest : List Char) (type : FieldType), take? text = some (type, rest) ↔
      type.Plain ∧ text = type.descriptor.toList ++ rest) ∧
    (∀ type type' : FieldType, type.Plain → type'.Plain →
      type.descriptor.toList <+: type'.descriptor.toList → type = type') ∧
    ∀ text : String,
      (∀ type, parse text = .ok type ↔ Spells text.toList type) ∧
      (parse text = .error (.invalidDescriptor text) ↔ ∀ type, ¬ Spells text.toList type) ∧
      ∀ type, parse text = .ok type →
        type.slotWidth = if text = "J" ∨ text = "D" then 2 else 1 := by
  refine ⟨?_, ?_, ?_⟩
  · intro text rest type
    rw [toList_descriptor]
    exact take?_eq_some_iff
  · intro type type' hplain hplain' hfront
    rw [toList_descriptor, toList_descriptor] at hfront
    exact eq_of_chars_isPrefix hplain hplain' hfront
  · intro text
    have hread (type : FieldType) : parse text = .ok type ↔ Spells text.toList type := by
      rw [spells_iff, parse_eq_ok_iff, ← toList_descriptor, String.toList_inj]
    refine ⟨hread, ?_, ?_⟩
    · simp only [← hread]
      obtain ⟨type, htype⟩ | hfault := parse_eq_ok_or_error text
      · simp [htype]
      · simp [hfault]
    · intro type htype
      have hlong : type = ⟨.long, 0⟩ ↔ text = "J" := parse_eq_ok_iff_eq htype rfl
      have hdouble : type = ⟨.double, 0⟩ ↔ text = "D" := parse_eq_ok_iff_eq htype rfl
      simp only [slotWidth_eq, hlong, hdouble]

theorem exact_of_spelled_nestedArray :
    let named : FieldType := ⟨.object "a(\nb", 2⟩
    named.Plain ∧ named.arrayOf.Plain ∧
    take? (named.descriptor.toList ++ ['[', 'I']) = some (named, ['[', 'I']) ∧
    ¬ named.descriptor.toList <+: named.arrayOf.descriptor.toList ∧
    parse "[[J" = .ok ⟨.long, 2⟩ ∧ Spells "[[J".toList ⟨.long, 2⟩ ∧ slotWidth ⟨.long, 2⟩ = 1 ∧
    ∀ type, ¬ Spells "[L;".toList type := by
  intro named
  obtain ⟨htake, hfront, hparse⟩ := exact_of_spelled
  have hplain : named.Plain := ⟨by decide, by decide⟩
  refine ⟨hplain, hplain, (htake _ _ _).mpr ⟨hplain, rfl⟩, ?_, rfl,
    ((hparse "[[J").1 _).mp rfl, (hparse "[[J").2.2 _ rfl, (hparse "[L;").2.1.mp rfl⟩
  intro h
  exact absurd (hfront named named.arrayOf hplain hplain h) (by decide)

end FieldType

namespace MethodDescriptor

/-- The text is the types of the method as they are written, the parameters in parentheses and `V`
where there is no result. Class names can be told from what follows them, the first closing
parenthesis is the one behind the parameters, and no line feed follows it. -/
structure Describes (text : String) (method : MethodDescriptor) : Prop where
  text_eq : text = "(" ++ String.join (method.parameters.map FieldType.descriptor) ++ ")" ++
    method.result.elim "V" FieldType.descriptor
  plain : ∀ type ∈ method.types, type.Plain
  parameters : ∀ type ∈ method.parameters, ')' ∉ type.descriptor.toList
  result : ∀ type ∈ method.result, '\n' ∉ type.descriptor.toList

theorem descriptor_eq (method : MethodDescriptor) : method.descriptor =
    "(" ++ String.join (method.parameters.map FieldType.descriptor) ++ ")" ++
      method.result.elim "V" FieldType.descriptor := by
  have hresult : (method.result.elim "V" FieldType.descriptor).toList =
      resultChars method.result := by
    cases method.result with
    | none => rfl
    | some type => exact type.toList_descriptor
  rw [← String.toList_inj, descriptor, String.toList_ofList, chars_eq]
  simp [hresult, String.toList_join, List.flatMap_map, FieldType.toList_descriptor]

theorem parse_eq_ok_iff_describes {text : String} {method : MethodDescriptor} :
    parse text = .ok method ↔ Describes text method := by
  have hclosing : ')' ∉ method.parameters.flatMap FieldType.chars ↔
      ∀ type ∈ method.parameters, ')' ∉ type.descriptor.toList := by
    simp [FieldType.toList_descriptor]
  have hfeed : '\n' ∉ resultChars method.result ↔
      ∀ type ∈ method.result, '\n' ∉ type.descriptor.toList := by
    cases method.result <;> simp [resultChars, FieldType.toList_descriptor]
  have htext : text.toList = method.chars ↔ text = method.descriptor := by
    rw [descriptor, ← String.toList_inj, String.toList_ofList]
  rw [parse_eq_ok_iff, ofChars?_eq_some_iff, hclosing, hfeed, htext, descriptor_eq]
  constructor
  · intro h
    obtain ⟨hplain, hparameters, hresult, heq⟩ := h
    exact ⟨heq, hplain, hparameters, hresult⟩
  · intro h
    exact ⟨h.plain, h.parameters, h.result, h.text_eq⟩

/-- A text is read as the method that it describes, which is the only one and is written as that
same text. A text that describes no method is rejected, and the fault names the whole of it. -/
theorem exact_of_described (text : String) :
    (∀ method, parse text = .ok method ↔ Describes text method) ∧
    (∀ method method', Describes text method → Describes text method' → method = method') ∧
    (∀ method, parse text = .ok method → method.descriptor = text) ∧
    (parse text = .error (.invalidDescriptor text) ↔ ∀ method, ¬ Describes text method) := by
  refine ⟨fun method => parse_eq_ok_iff_describes, ?_, ?_, ?_⟩
  · intro method method' h h'
    rw [← parse_eq_ok_iff_describes] at h h'
    exact Except.ok.inj (h.symm.trans h')
  · intro method h
    rw [descriptor_eq]
    exact (parse_eq_ok_iff_describes.mp h).text_eq.symm
  · simp only [← parse_eq_ok_iff_describes]
    rw [parse]
    cases ofChars? text.toList <;> simp

theorem exact_of_described_closingParenthesis :
    let method : MethodDescriptor := ⟨[⟨.object "a\nb", 1⟩, ⟨.long, 2⟩], some ⟨.object "a)b", 0⟩⟩
    parse "([La\nb;[[J)La)b;" = .ok method ∧ Describes "([La\nb;[[J)La)b;" method ∧
    (∀ other, Describes "([La\nb;[[J)La)b;" other → other = method) ∧
    method.descriptor = "([La\nb;[[J)La)b;" ∧ ∀ other, ¬ Describes "(ILa)b;J)V" other := by
  intro method
  have hread : parse "([La\nb;[[J)La)b;" = .ok method := by decide +kernel
  obtain ⟨hdescribes, hunique, hwritten, -⟩ := exact_of_described "([La\nb;[[J)La)b;"
  obtain ⟨-, -, -, hrejected⟩ := exact_of_described "(ILa)b;J)V"
  have hmethod := (hdescribes method).mp hread
  exact ⟨hread, hmethod, fun other h => hunique other method h hmethod, hwritten method hread,
    hrejected.mp (by decide +kernel)⟩

end MethodDescriptor

end Jvm
