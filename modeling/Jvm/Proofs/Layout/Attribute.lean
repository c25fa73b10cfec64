import Mathlib.Data.List.Forall2
import Jvm.Proofs.Attributes.Nesting

/-! # The layout of attributes

An attribute is introduced by the index of its name and a length; what follows is laid out by its
kind, and for code includes attributes again. The name has to resolve to the attribute's, and only
for an unrecognized attribute does the length have to be right. `reads_decode` says that the
decoder accepts just these layouts, at every depth. -/

namespace Jvm

open BigEndian Decoder

/-- What introduces an attribute, and each of the attributes inside it. -/
structure AttributeHeader where
  nameIndex : UInt16
  length : UInt32
  nested : List AttributeHeader

namespace AttributeHeader

def bytes (header : AttributeHeader) : List UInt8 :=
  word16 header.nameIndex ++ word32 header.length

/-- The header fits the attribute. An attribute is unrecognized exactly if its name is not the name
of a known kind. -/
structure Introduces (pool : ConstantPool) (header : AttributeHeader) (a : Attribute) :
    Prop where
  name_eq : pool.utf8 header.nameIndex = .ok a.name
  kind_eq : AttributeKind.ofName? a.name = a.kind?
  length_eq : ∀ name info, a = .unrecognized name info → header.length.toNat = info.length

end AttributeHeader

def ExceptionHandler.layout (handler : ExceptionHandler) : List UInt8 :=
  word16 handler.startPc ++ word16 handler.endPc ++ word16 handler.handlerPc ++
    word16 handler.catchType

def LineEntry.layout (entry : LineEntry) : List UInt8 := word16 entry.startPc ++ word16 entry.line

def VariableEntry.layout (entry : VariableEntry) : List UInt8 :=
  word16 entry.startPc ++ word16 entry.length ++ word16 entry.nameIndex ++
    word16 entry.descriptorIndex ++ word16 entry.slot

mutual

/-- What follows name and length, with `nested` to introduce the attributes inside. -/
def Attribute.payload (nested : List AttributeHeader) : Attribute → List UInt8
  | .code body => body.payload nested
  | .constantValue index => word16 index
  | .deprecated => []
  | .exceptions classIndices => counted word16 classIndices
  | .lineNumbers entries => counted LineEntry.layout entries
  | .localVariables entries => counted VariableEntry.layout entries
  | .sourceFile nameIndex => word16 nameIndex
  | .synthetic => []
  | .unrecognized _ info => info

def Code.payload (nested : List AttributeHeader) : Code → List UInt8
  | ⟨maxStack, maxLocals, instructions, handlers, attributes⟩ =>
    word16 maxStack ++ word16 maxLocals ++ digits 4 instructions.length ++ instructions ++
      counted ExceptionHandler.layout handlers ++ digits 2 attributes.length ++
      attributesLayout nested attributes

/-- Attributes side by side, each behind its header. -/
def attributesLayout : List AttributeHeader → List Attribute → List UInt8
  | header :: headers, a :: attributes =>
    header.bytes ++ a.payload header.nested ++ attributesLayout headers attributes
  | _, _ => []

end

mutual

/-- Counts and lengths fit their width, and each attribute inside is introduced by its header. -/
def Attribute.Fits (pool : ConstantPool) (nested : List AttributeHeader) : Attribute → Prop
  | .code body => body.Fits pool nested
  | .exceptions classIndices => classIndices.length < 2 ^ 16
  | .lineNumbers entries => entries.length < 2 ^ 16
  | .localVariables entries => entries.length < 2 ^ 16
  | .constantValue _ | .deprecated | .sourceFile _ | .synthetic | .unrecognized _ _ => True

def Code.Fits (pool : ConstantPool) (nested : List AttributeHeader) : Code → Prop
  | ⟨_, _, instructions, handlers, attributes⟩ =>
    instructions.length < 2 ^ 32 ∧ handlers.length < 2 ^ 16 ∧ attributes.length < 2 ^ 16 ∧
      AttributesFit pool nested attributes

def AttributesFit (pool : ConstantPool) : List AttributeHeader → List Attribute → Prop
  | [], [] => True
  | header :: headers, a :: attributes =>
    header.Introduces pool a ∧ a.Fits pool header.nested ∧
      AttributesFit pool headers attributes
  | _, _ => False

end

mutual

/-- The reports behind the one on the header. -/
def Attribute.reports (nested : List AttributeHeader) : Attribute → List Event
  | .code body => body.reports nested
  | .unrecognized name info => [.attributeKept name info.length]
  | .constantValue _ | .deprecated | .exceptions _ | .lineNumbers _ | .localVariables _
  | .sourceFile _ | .synthetic => []

def Code.reports (nested : List AttributeHeader) : Code → List Event
  | ⟨_, _, _, _, attributes⟩ => attributesReports nested attributes

def attributesReports : List AttributeHeader → List Attribute → List Event
  | header :: headers, a :: attributes =>
    .attributeRead a.name header.length.toNat ::
      (a.reports header.nested ++ attributesReports headers attributes)
  | _, _ => []

end

/-! ## One attribute -/

namespace Attribute

/-- An attribute behind its header. -/
def grammar (pool : ConstantPool) : Grammar Attribute := fun a taken events =>
  ∃ header : AttributeHeader, header.Introduces pool a ∧
    a.Fits pool header.nested ∧ taken = header.bytes ++ a.payload header.nested ∧
    events = .attributeRead a.name header.length.toNat :: a.reports header.nested

/-- Attributes side by side take one header each. -/
theorem each_grammar {pool : ConstantPool} {attributes : List Attribute} {taken : List UInt8}
    {events : List Event} : (grammar pool).each attributes taken events ↔
      ∃ headers, AttributesFit pool headers attributes ∧
        taken = attributesLayout headers attributes ∧
        events = attributesReports headers attributes := by
  induction attributes generalizing taken events with
  | nil =>
    refine ⟨fun h => ?_, fun h => ?_⟩
    · obtain ⟨rfl, rfl⟩ := h
      exact ⟨[], trivial, rfl, rfl⟩
    · obtain ⟨headers, hfit, rfl, rfl⟩ := h
      cases headers with
      | nil => exact ⟨rfl, rfl⟩
      | cons header headers => exact hfit.elim
  | cons a attributes ih =>
    refine ⟨fun h => ?_, fun h => ?_⟩
    · obtain ⟨_, _, _, _, ⟨header, hname, hfits, rfl, rfl⟩, hothers, rfl, rfl⟩ := h
      obtain ⟨headers, hfit, rfl, rfl⟩ := ih.mp hothers
      exact ⟨header :: headers, ⟨hname, hfits, hfit⟩, rfl, rfl⟩
    · obtain ⟨headers, hfit, rfl, rfl⟩ := h
      cases headers with
      | nil => exact hfit.elim
      | cons header headers =>
        exact ⟨_, _, _, _, ⟨header, hfit.1, hfit.2.1, rfl, rfl⟩,
          ih.mpr ⟨headers, hfit.2.2, rfl, rfl⟩, rfl, rfl⟩

end Attribute

variable {bound : Nat}

theorem ExceptionHandler.reads_decode : Reads bound decode (.spelled layout) := by
  refine (reads_u16.bind_spelled fun _ => reads_u16.bind_spelled fun _ =>
    reads_u16.bind_spelled fun _ => reads_u16.bind_spelled fun _ => reads_pure _).congr
    fun handler taken events => ⟨fun h => ?_, fun h => ?_⟩
  · obtain ⟨_, _, ⟨_, _, ⟨_, _, ⟨_, _, ⟨rfl, rfl, rfl⟩, rfl⟩, rfl⟩, rfl⟩, rfl⟩ := h
    exact ⟨by simp [layout], rfl⟩
  · obtain ⟨rfl, rfl⟩ := h
    exact ⟨_, _, ⟨_, _, ⟨_, _, ⟨_, _, ⟨rfl, rfl, rfl⟩, rfl⟩, rfl⟩, rfl⟩, by simp [layout]⟩

theorem LineEntry.reads_decode : Reads bound decode (.spelled layout) := by
  refine (reads_u16.bind_spelled fun _ => reads_u16.bind_spelled fun _ => reads_pure _).congr
    fun entry taken events => ⟨fun h => ?_, fun h => ?_⟩
  · obtain ⟨_, _, ⟨_, _, ⟨rfl, rfl, rfl⟩, rfl⟩, rfl⟩ := h
    exact ⟨by simp [layout], rfl⟩
  · obtain ⟨rfl, rfl⟩ := h
    exact ⟨_, _, ⟨_, _, ⟨rfl, rfl, rfl⟩, rfl⟩, by simp [layout]⟩

theorem VariableEntry.reads_decode : Reads bound decode (.spelled layout) := by
  refine (reads_u16.bind_spelled fun _ => reads_u16.bind_spelled fun _ =>
    reads_u16.bind_spelled fun _ => reads_u16.bind_spelled fun _ => reads_u16.bind_spelled fun _ =>
    reads_pure _).congr fun entry taken events => ⟨fun h => ?_, fun h => ?_⟩
  · obtain ⟨_, _, ⟨_, _, ⟨_, _, ⟨_, _, ⟨_, _, ⟨rfl, rfl, rfl⟩, rfl⟩, rfl⟩, rfl⟩, rfl⟩, rfl⟩ := h
    exact ⟨by simp [layout], rfl⟩
  · obtain ⟨rfl, rfl⟩ := h
    exact ⟨_, _, ⟨_, _, ⟨_, _, ⟨_, _, ⟨_, _, ⟨rfl, rfl, rfl⟩, rfl⟩, rfl⟩, rfl⟩, rfl⟩,
      by simp [layout]⟩

/-- Attributes behind their count. -/
theorem Attribute.reads_counted {pool : ConstantPool} {nested : Decoder Attribute}
    (h : Reads bound nested (grammar pool)) : Reads bound (Decoder.counted nested)
      fun attributes taken events => attributes.length < 2 ^ 16 ∧ ∃ headers,
        AttributesFit pool headers attributes ∧
          taken = digits 2 attributes.length ++ attributesLayout headers attributes ∧
          events = attributesReports headers attributes := by
  refine h.counted.congr fun attributes taken events => ⟨fun h => ?_, fun h => ?_⟩
  · obtain ⟨hlength, _, rfl, heach⟩ := h
    obtain ⟨headers, hfit, rfl, rfl⟩ := each_grammar.mp heach
    exact ⟨hlength, headers, hfit, rfl, rfl⟩
  · obtain ⟨hlength, headers, hfit, rfl, rfl⟩ := h
    exact ⟨hlength, _, rfl, each_grammar.mpr ⟨headers, hfit, rfl, rfl⟩⟩

theorem Code.reads_decodeWith {pool : ConstantPool} {nested : Decoder Attribute}
    (h : Reads bound nested (Attribute.grammar pool)) :
    Reads bound (decodeWith nested) fun body taken events => ∃ headers,
      body.Fits pool headers ∧ taken = body.payload headers ∧ events = body.reports headers := by
  refine (reads_u16.bind_spelled fun maxStack => reads_u16.bind_spelled fun maxLocals =>
    reads_u32.bind_spelled fun length => (reads_bytes length.toNat).bind fun instructions =>
    ExceptionHandler.reads_decode.counted_spelled.bind fun handlers =>
    (Attribute.reads_counted h).bind fun attributes => reads_pure _).congr
    fun body taken events => ⟨fun h => ?_, fun h => ?_⟩
  · obtain ⟨maxStack, _, ⟨maxLocals, _, ⟨length, _, ⟨instructions, _, _, _, _, ⟨rfl, hlength, rfl⟩,
      ⟨handlers, _, _, _, _, ⟨hhandlers, rfl, rfl⟩, ⟨attributes, _, _, _, _,
        ⟨hattributes, headers, hfit, rfl, rfl⟩, ⟨rfl, rfl, rfl⟩, rfl, rfl⟩, rfl, rfl⟩, rfl, rfl⟩,
      rfl⟩, rfl⟩, rfl⟩ := h
    refine ⟨headers, ⟨hlength ▸ length.toNat_lt, hhandlers, hattributes, hfit⟩, ?_, ?_⟩
    · simp [payload, word32, hlength]
    · simp [reports]
  · obtain ⟨headers, hfit, rfl, rfl⟩ := h
    obtain ⟨maxStack, maxLocals, instructions, handlers, attributes⟩ := body
    obtain ⟨hlength, hhandlers, hattributes, hfit⟩ := hfit
    have hword : (UInt32.ofNat instructions.length).toNat = instructions.length := by
      rw [UInt32.toNat_ofNat', Nat.mod_eq_of_lt hlength]
    refine ⟨maxStack, _, ⟨maxLocals, _, ⟨.ofNat instructions.length, _, ⟨instructions, _, _, _, _,
      ⟨rfl, hword.symm, rfl⟩, ⟨handlers, _, _, _, _, ⟨hhandlers, rfl, rfl⟩, ⟨attributes, _, _, _, _,
        ⟨hattributes, headers, hfit, rfl, rfl⟩, ⟨rfl, rfl, rfl⟩, rfl, rfl⟩, rfl, rfl⟩, rfl, ?_⟩,
      rfl⟩, rfl⟩, ?_⟩
    · simp [reports]
    · simp [payload, word32, hword]

namespace Attribute

/-- The attributes of one known kind, without their headers. -/
def payloadGrammar (pool : ConstantPool) (kind : AttributeKind) : Grammar Attribute :=
  fun a taken events => a.kind? = some kind ∧ ∃ headers, a.Fits pool headers ∧
    taken = a.payload headers ∧ events = a.reports headers

/-- A kind with no attributes inside, whose content is one decoder's value. -/
theorem reads_flat {α : Type} {step : Decoder α} {fits : α → Prop} {spell : α → List UInt8}
    {build : α → Attribute} {pool : ConstantPool} {kind : AttributeKind}
    (h : Reads bound step fun content taken events =>
      fits content ∧ taken = spell content ∧ events = [])
    (hbuild : ∀ content headers, (build content).kind? = some kind ∧
      ((build content).Fits pool headers ↔ fits content) ∧
      (build content).payload headers = spell content ∧ (build content).reports headers = [])
    (hall : ∀ a : Attribute, a.kind? = some kind → ∃ content, a = build content) :
    Reads bound (build <$> step) (payloadGrammar pool kind) := by
  refine (h.map build).congr fun a taken events => ⟨fun h => ?_, fun h => ?_⟩
  · obtain ⟨content, ⟨hfits, rfl, rfl⟩, rfl⟩ := h
    obtain ⟨hkind, hiff, hpayload, hreports⟩ := hbuild content []
    exact ⟨hkind, [], hiff.mpr hfits, hpayload.symm, hreports.symm⟩
  · obtain ⟨hkind, headers, hfits, rfl, rfl⟩ := h
    obtain ⟨content, rfl⟩ := hall a hkind
    obtain ⟨-, hiff, hpayload, hreports⟩ := hbuild content headers
    exact ⟨content, ⟨hiff.mp hfits, hpayload, hreports⟩, rfl⟩

/-- A kind that is no more than its name. -/
theorem reads_bare {pool : ConstantPool} {kind : AttributeKind} {a : Attribute}
    (hbare : ∀ headers, a.kind? = some kind ∧ a.Fits pool headers ∧ a.payload headers = [] ∧
      a.reports headers = [])
    (hall : ∀ other : Attribute, other.kind? = some kind → other = a) :
    Reads bound (pure a) (payloadGrammar pool kind) := by
  refine (reads_pure a).congr fun other taken events => ⟨fun h => ?_, fun h => ?_⟩
  · obtain ⟨rfl, rfl, rfl⟩ := h
    obtain ⟨hkind, hfits, hpayload, hreports⟩ := hbare []
    exact ⟨hkind, [], hfits, hpayload.symm, hreports.symm⟩
  · obtain ⟨hkind, headers, -, rfl, rfl⟩ := h
    obtain rfl := hall other hkind
    exact ⟨rfl, (hbare headers).2.2⟩

theorem reads_index : Reads bound u16 fun index taken events =>
    True ∧ taken = word16 index ∧ events = [] :=
  reads_u16.congr fun _ _ _ => ⟨fun h => ⟨trivial, h⟩, And.right⟩

theorem reads_decodePayload {pool : ConstantPool} {nested : Decoder Attribute}
    (h : Reads bound nested (grammar pool)) (kind : AttributeKind) :
    Reads bound (decodePayload nested kind) (payloadGrammar pool kind) := by
  cases kind with
  | code =>
    refine ((Code.reads_decodeWith h).map code).congr fun a taken events => ⟨fun h => ?_, fun h => ?_⟩
    · obtain ⟨body, hbody, rfl⟩ := h
      exact ⟨rfl, hbody⟩
    · obtain ⟨hkind, hbody⟩ := h
      cases a <;> cases hkind
      exact ⟨_, hbody, rfl⟩
  | constantValue =>
    exact reads_flat reads_index (fun _ _ => ⟨rfl, .rfl, rfl, rfl⟩) fun a h => by
      cases a <;> cases h; exact ⟨_, rfl⟩
  | deprecated =>
    exact reads_bare (fun _ => ⟨rfl, trivial, rfl, rfl⟩) fun a h => by cases a <;> cases h; rfl
  | exceptions =>
    exact reads_flat reads_u16.counted_spelled (fun _ _ => ⟨rfl, .rfl, rfl, rfl⟩) fun a h => by
      cases a <;> cases h; exact ⟨_, rfl⟩
  | lineNumbers =>
    exact reads_flat LineEntry.reads_decode.counted_spelled (fun _ _ => ⟨rfl, .rfl, rfl, rfl⟩)
      fun a h => by cases a <;> cases h; exact ⟨_, rfl⟩
  | localVariables =>
    exact reads_flat VariableEntry.reads_decode.counted_spelled (fun _ _ => ⟨rfl, .rfl, rfl, rfl⟩)
      fun a h => by cases a <;> cases h; exact ⟨_, rfl⟩
  | sourceFile =>
    exact reads_flat reads_index (fun _ _ => ⟨rfl, .rfl, rfl, rfl⟩) fun a h => by
      cases a <;> cases h; exact ⟨_, rfl⟩
  | synthetic =>
    exact reads_bare (fun _ => ⟨rfl, trivial, rfl, rfl⟩) fun a h => by cases a <;> cases h; rfl

theorem name_eq_of_kind? {a : Attribute} {kind : AttributeKind} (h : a.kind? = some kind) :
    a.name = kind.name := by
  cases a <;> cases h <;> rfl

/-- What follows a header whose name and length are known. -/
theorem reads_content {pool : ConstantPool} {nested : Decoder Attribute}
    (h : Reads bound nested (grammar pool)) (name : String) (length : UInt32) :
    Reads bound (match AttributeKind.ofName? name with
      | some kind => decodePayload nested kind
      | none => do
        report (.attributeKept name length.toNat)
        unrecognized name <$> bytes length.toNat) fun a taken events =>
      (a.name = name ∧ AttributeKind.ofName? name = a.kind? ∧
        ∀ name info, a = .unrecognized name info → length.toNat = info.length) ∧
      ∃ headers, a.Fits pool headers ∧ taken = a.payload headers ∧ events = a.reports headers := by
  cases hname : AttributeKind.ofName? name with
  | some kind =>
    refine (reads_decodePayload h kind).congr fun a taken events => ⟨fun h => ?_, fun h => ?_⟩
    · obtain ⟨hkind, hrest⟩ := h
      refine ⟨⟨?_, hkind.symm, fun _ _ ha => ?_⟩, hrest⟩
      · rw [name_eq_of_kind? hkind, AttributeKind.ofName?_eq_some_iff.mp hname]
      · rw [ha] at hkind; cases hkind
    · obtain ⟨⟨-, hkind, -⟩, hrest⟩ := h
      exact ⟨hkind.symm, hrest⟩
  | none =>
    refine ((reads_report _).bind fun _ =>
      (reads_bytes length.toNat).map (unrecognized name)).congr
      fun a taken events => ⟨fun h => ?_, fun h => ?_⟩
    · obtain ⟨_, _, _, _, _, ⟨rfl, rfl⟩, ⟨info, ⟨rfl, hlength, rfl⟩, rfl⟩, rfl, rfl⟩ := h
      refine ⟨⟨rfl, rfl, fun _ _ ha => ?_⟩, [], trivial, rfl, ?_⟩
      · cases ha; exact hlength.symm
      · rw [reports, hlength]; rfl
    · obtain ⟨⟨rfl, hkind, hlength⟩, headers, -, rfl, rfl⟩ := h
      cases a <;> cases hkind
      rename_i name info
      have hinfo := hlength name info rfl
      exact ⟨(), [], info, [.attributeKept name length.toNat], [], ⟨rfl, rfl⟩,
        ⟨info, ⟨rfl, hinfo.symm, rfl⟩, rfl⟩, rfl, by rw [hinfo]; rfl⟩

/-- One level, with the name in front: the attributes inside start on a shorter input. -/
theorem reads_decodeWith {pool : ConstantPool} {nested : Decoder Attribute}
    (h : Reads bound nested (grammar pool)) :
    Reads (bound + 1) (decodeWith pool nested) (grammar pool) := by
  refine (reads_u16_bind fun nameIndex => (reads_ofExcept (pool.utf8 nameIndex)).bind fun name =>
    reads_u32.bind_spelled fun length => (reads_report (.attributeRead name length.toNat)).bind
    fun _ => reads_content h name length).congr fun a taken events => ⟨fun h => ?_, fun h => ?_⟩
  · obtain ⟨nameIndex, _, ⟨name, _, _, _, _, ⟨hlookup, rfl, rfl⟩, ⟨length, _, ⟨_, _, _, _, _,
      ⟨rfl, rfl⟩, ⟨⟨rfl, hkind, hlength⟩, headers, hfits, rfl, rfl⟩, rfl, rfl⟩, rfl⟩, rfl, rfl⟩,
      rfl⟩ := h
    exact ⟨⟨nameIndex, length, headers⟩, ⟨hlookup, hkind, hlength⟩, hfits,
      by simp [AttributeHeader.bytes], rfl⟩
  · obtain ⟨⟨nameIndex, length, headers⟩, ⟨hlookup, hkind, hlength⟩, hfits, rfl, rfl⟩ := h
    exact ⟨nameIndex, _, ⟨a.name, [], _, [], _, ⟨hlookup, rfl, rfl⟩, ⟨length, _, ⟨(), [], _, _, _,
      ⟨rfl, rfl⟩, ⟨⟨rfl, hkind, hlength⟩, headers, hfits, rfl, rfl⟩, rfl, rfl⟩, rfl⟩, rfl, rfl⟩,
      by simp [AttributeHeader.bytes]⟩

/-- At every depth. -/
theorem reads_decode (pool : ConstantPool) : Reads bound (decode pool) (grammar pool) := by
  induction bound with
  | zero => intro c hc; exact absurd hc (Nat.not_lt_zero _)
  | succ bound ih =>
    rw [decode_eq_decodeWith]
    exact reads_decodeWith ih

end Attribute

end Jvm
