import Jvm.Proofs.Attributes.Calls
import Jvm.Proofs.Layout.Attribute

/-! # The size of attributes

How many bytes an attribute takes is settled by what was read of it (`Attribute.size`): the length
that introduces a known kind does not count, since content is read to its own end. Each level of
code is 18 bytes or more (`Attribute.depth_le_size`). -/

namespace Jvm

open BigEndian Decoder

/-! ## Size and depth -/

mutual

/-- How many bytes an attribute takes, name and length included. -/
def Attribute.size : Attribute → Nat
  | .code body => body.size
  | .constantValue _ | .sourceFile _ => 8
  | .deprecated | .synthetic => 6
  | .exceptions classIndices => 8 + 2 * classIndices.length
  | .lineNumbers entries => 8 + 4 * entries.length
  | .localVariables entries => 8 + 10 * entries.length
  | .unrecognized _ info => 6 + info.length

/-- How many bytes the attribute takes that is this code. -/
def Code.size : Code → Nat
  | ⟨_, _, instructions, handlers, attributes⟩ =>
    18 + instructions.length + 8 * handlers.length + attributesSize attributes

def attributesSize : List Attribute → Nat
  | [] => 0
  | a :: attributes => a.size + attributesSize attributes

end

theorem attributesSize_eq_sum (attributes : List Attribute) :
    attributesSize attributes = (attributes.map Attribute.size).sum := by
  induction attributes with
  | nil => rfl
  | cons a attributes ih => rw [attributesSize, ih, List.map_cons, List.sum_cons]

theorem Code.size_eq (body : Code) : body.size = 18 + body.instructions.length +
    8 * body.handlers.length + (body.attributes.map Attribute.size).sum := by
  obtain ⟨maxStack, maxLocals, instructions, handlers, attributes⟩ := body
  rw [Code.size, attributesSize_eq_sum]

mutual

/-- How many levels of code there are, one in the other. -/
def Attribute.depth : Attribute → Nat
  | .code body => body.depth + 1
  | .constantValue _ | .deprecated | .exceptions _ | .lineNumbers _ | .localVariables _
  | .sourceFile _ | .synthetic | .unrecognized _ _ => 0

/-- How many levels of code there are in this one. -/
def Code.depth : Code → Nat
  | ⟨_, _, _, _, attributes⟩ => attributesDepth attributes

def attributesDepth : List Attribute → Nat
  | [] => 0
  | a :: attributes => max a.depth (attributesDepth attributes)

end

mutual

theorem Attribute.depth_le_size : (a : Attribute) → 18 * a.depth ≤ a.size
  | .code body => by
    have hbody := body.depth_le_size
    rw [Attribute.depth, Attribute.size]
    omega
  | .constantValue _ | .deprecated | .exceptions _ | .lineNumbers _ | .localVariables _
  | .sourceFile _ | .synthetic | .unrecognized _ _ => Nat.zero_le _

theorem Code.depth_le_size : (body : Code) → 18 * (body.depth + 1) ≤ body.size
  | ⟨_, _, instructions, handlers, attributes⟩ => by
    have hattributes := attributesDepth_le_size attributes
    rw [Code.depth, Code.size]
    omega

theorem attributesDepth_le_size :
    (attributes : List Attribute) → 18 * attributesDepth attributes ≤ attributesSize attributes
  | [] => Nat.le_refl 0
  | a :: attributes => by
    have hfirst := a.depth_le_size
    have hothers := attributesDepth_le_size attributes
    rw [attributesDepth, attributesSize]
    omega

end

/-! ## Layouts have that size -/

theorem BigEndian.length_counted {α : Type} {spell : α → List UInt8} {width : Nat}
    (h : ∀ item, (spell item).length = width) (items : List α) :
    (counted spell items).length = 2 + width * items.length := by
  simp [counted, h, Nat.mul_comm]

theorem ExceptionHandler.length_layout (handler : ExceptionHandler) :
    handler.layout.length = 8 := by
  simp [layout]

theorem LineEntry.length_layout (entry : LineEntry) : entry.layout.length = 4 := by
  simp [layout]

theorem VariableEntry.length_layout (entry : VariableEntry) : entry.layout.length = 10 := by
  simp [layout]

@[simp] theorem AttributeHeader.length_bytes (header : AttributeHeader) :
    header.bytes.length = 6 := by
  simp [bytes]

mutual

theorem Attribute.length_payload {pool : ConstantPool} : (a : Attribute) →
    (nested : List AttributeHeader) → a.Fits pool nested → 6 + (a.payload nested).length = a.size
  | .code body, nested, hfits => body.length_payload nested hfits
  | .constantValue index, _, _ => by rw [Attribute.payload, Attribute.size, length_word16]
  | .sourceFile index, _, _ => by rw [Attribute.payload, Attribute.size, length_word16]
  | .deprecated, _, _ => rfl
  | .synthetic, _, _ => rfl
  | .unrecognized _ _, _, _ => rfl
  | .exceptions classIndices, _, _ => by
    rw [Attribute.payload, Attribute.size, length_counted length_word16]
    omega
  | .lineNumbers entries, _, _ => by
    rw [Attribute.payload, Attribute.size, length_counted LineEntry.length_layout]
    omega
  | .localVariables entries, _, _ => by
    rw [Attribute.payload, Attribute.size, length_counted VariableEntry.length_layout]
    omega

theorem Code.length_payload {pool : ConstantPool} : (body : Code) →
    (nested : List AttributeHeader) → body.Fits pool nested →
      6 + (body.payload nested).length = body.size
  | ⟨_, _, instructions, handlers, attributes⟩, nested, hfits => by
    obtain ⟨-, -, -, hnested⟩ := hfits
    have hattributes := length_attributesLayout nested attributes hnested
    have hhandlers := length_counted ExceptionHandler.length_layout handlers
    rw [Code.payload, Code.size]
    simp only [List.length_append, length_word16, length_digits, hhandlers, hattributes]
    omega

theorem length_attributesLayout {pool : ConstantPool} : (headers : List AttributeHeader) →
    (attributes : List Attribute) → AttributesFit pool headers attributes →
      (attributesLayout headers attributes).length = attributesSize attributes
  | [], [], _ => rfl
  | header :: headers, a :: attributes, hfit => by
    obtain ⟨-, hfits, hothers⟩ := hfit
    have hfirst := a.length_payload header.nested hfits
    have hrest := length_attributesLayout headers attributes hothers
    rw [attributesLayout, attributesSize]
    simp only [List.length_append, AttributeHeader.length_bytes]
    omega

end

namespace Attribute

/-- A list of attributes takes its count and the attributes. -/
theorem passes_decodeAll {pool : ConstantPool} {c next : Cursor} {attributes : List Attribute}
    {events : List Event} (h : decodeAll pool c = ⟨.ok attributes, next, events⟩) :
    next.position = c.position + (2 + attributesSize attributes) ∧
      c.remaining = next.remaining + (2 + attributesSize attributes) := by
  obtain ⟨taken, ⟨-, headers, hfit, rfl, -⟩, hpass⟩ := (reads_counted (reads_decode pool)).of_ok h
  have hsize := length_attributesLayout headers attributes hfit
  have hposition := hpass.position_eq
  have hremaining := hpass.remaining_eq
  simp only [List.length_append, length_digits, hsize] at hposition hremaining
  omega

/-- Reading attributes ends. Each call starts further on in the bytes than the one that makes it, so
no chain of calls is endless; an attribute `levels` deep starts 18 bytes further on for each level.
What is read hangs on nothing but these calls, and there is one decoder only that makes them on
itself. The attributes read take a count and the bytes of each, those inside code included, and so
at least 18 for each level of code. -/
theorem nested_calls_end (pool : ConstantPool) :
    (∀ call call', ReadCall.Makes pool call call' → call.place.position < call'.place.position ∧
      call'.place.remaining < call.place.remaining) ∧
    (WellFounded fun later earlier => ReadCall.Makes pool earlier later) ∧
    (∀ levels c next, NestsDeep pool levels c next →
      c.position + 18 * levels ≤ next.position ∧ next.remaining + 18 * levels ≤ c.remaining) ∧
    (∀ (read : Decoder Attribute) c, (∀ next, Nests pool c next → read next = decode pool next) →
      decodeWith pool read c = decode pool c) ∧
    (∀ read : Decoder Attribute, read = decodeWith pool read ↔ read = decode pool) ∧
    (∀ body : Code, (code body).size = 18 + body.instructions.length + 8 * body.handlers.length +
      (body.attributes.map size).sum) ∧
    ∀ c attributes next events, decodeAll pool c = ⟨.ok attributes, next, events⟩ →
      next.position = c.position + (2 + (attributes.map size).sum) ∧
      c.remaining = next.remaining + (2 + (attributes.map size).sum) ∧
      2 + 18 * attributesDepth attributes ≤ c.remaining := by
  refine ⟨fun _ _ h => h.strictly_further, ReadCall.wellFounded_makes pool, fun _ _ _ h => h.further,
    fun _ _ h => decodeWith_of_nests h, fun _ => eq_decodeWith_iff, fun body => body.size_eq,
    fun c attributes next events h => ?_⟩
  obtain ⟨hposition, hremaining⟩ := passes_decodeAll h
  have hdepth := attributesDepth_le_size attributes
  rw [← attributesSize_eq_sum]
  exact ⟨hposition, hremaining, by omega⟩

/-- Code in code, with lengths that are both too small, in front of one more byte. -/
theorem nested_calls_end_codeInCode :
    let pool : ConstantPool := ⟨#[none, some (.utf8 "Code")]⟩
    let inner : Code := ⟨0, 0, [], [], []⟩
    let outer : Code := ⟨2, 1, [0xb1], [], [.code inner]⟩
    let c : Cursor := .start
      [0, 1, 0, 1, 0, 0, 0, 0, 0, 2, 0, 1, 0, 0, 0, 1, 0xb1, 0, 0, 0, 1,
        0, 1, 0, 0, 0, 3, 0, 0, 0, 0, 0, 0, 0, 0, 0, 0, 0, 0, 9]
    (decodeAll pool c).result = .ok [.code outer] ∧ (decodeAll pool c).cursor = ⟨39, [9]⟩ ∧
      39 = c.position + (2 + ([.code outer].map size).sum) ∧ 2 + 18 * 2 ≤ c.remaining := by
  intro pool inner outer c
  have hresult : (decodeAll pool c).result = .ok [.code outer] := by decide +kernel
  have hcursor : (decodeAll pool c).cursor = ⟨39, [9]⟩ := by decide +kernel
  have hread : decodeAll pool c = ⟨.ok [.code outer], ⟨39, [9]⟩, (decodeAll pool c).events⟩ := by
    rw [← hresult, ← hcursor]
  obtain ⟨hposition, -, hdepth⟩ := (nested_calls_end pool).2.2.2.2.2.2 c _ _ _ hread
  exact ⟨hresult, hcursor, hposition, hdepth⟩

end Attribute

end Jvm
