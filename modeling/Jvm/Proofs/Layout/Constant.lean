import Jvm.Pool.Constant
import Jvm.Proofs.Decoding.Words

/-! # The layout of a constant

A constant is its tag byte and its fields, most significant byte first. Only a text can be written
in more than one way: any bytes that decode to it will do. `reads_decode` says that the decoder of
constants accepts just these layouts. -/

namespace Jvm.Constant

open BigEndian Decoder

/-- What follows the tag. A text stands there as the bytes `text`, which no other constant has. -/
def payload (text : List UInt8) : Constant → List UInt8
  | utf8 _ => digits 2 text.length ++ text
  | integer value => word32 value.toUInt32
  | float value => word32 value.bits
  | long value => word64 value.toUInt64
  | double value => word64 value.bits
  | classInfo nameIndex => word16 nameIndex
  | string textIndex => word16 textIndex
  | memberRef _ classIndex nameAndTypeIndex => word16 classIndex ++ word16 nameAndTypeIndex
  | nameAndType nameIndex descriptorIndex => word16 nameIndex ++ word16 descriptorIndex
  | methodHandle kind referenceIndex => kind :: word16 referenceIndex
  | methodType descriptorIndex => word16 descriptorIndex
  | invokeDynamic bootstrapIndex nameAndTypeIndex =>
    word16 bootstrapIndex ++ word16 nameAndTypeIndex

def layout (text : List UInt8) (constant : Constant) : List UInt8 :=
  constant.tag.byte :: constant.payload text

/-- The bytes can stand for the text of the constant, if it is a text. -/
def WrittenAs (text : List UInt8) : Constant → Prop
  | utf8 content => text.length < 2 ^ 16 ∧ ModifiedUtf8.decode? text = some content
  | _ => True

/-- The constants of one kind. -/
def payloadGrammar (kind : Tag) : Grammar Constant := fun constant taken events =>
  constant.tag = kind ∧ ∃ text, constant.WrittenAs text ∧ taken = constant.payload text ∧ events = []

-- a kind leaves one form of constant, which the rules below leave to `grind` to find
attribute [grind cases] Constant MemberKind
attribute [grind =] tag MemberKind.tag

variable {α β : Type} {bound : Nat}

/-- A kind whose fields are one decoder's value, spelled in one way. -/
theorem reads_payload {step : Decoder α} {spell : α → List UInt8} {build : α → Constant}
    {kind : Tag} (h : Reads bound step (.spelled spell))
    (hbuild : ∀ fields text, (build fields).tag = kind ∧ (build fields).WrittenAs text ∧
      (build fields).payload text = spell fields)
    (hall : ∀ constant : Constant, constant.tag = kind → ∃ fields, constant = build fields := by
      grind) :
    Reads bound (build <$> step) (payloadGrammar kind) := by
  refine (h.map build).congr fun constant taken events => ⟨?_, ?_⟩
  · intro hread
    obtain ⟨fields, ⟨rfl, rfl⟩, rfl⟩ := hread
    obtain ⟨htag, hwritten, hpayload⟩ := hbuild fields []
    exact ⟨htag, [], hwritten, hpayload.symm, rfl⟩
  · intro hlaid
    obtain ⟨htag, text, -, rfl, rfl⟩ := hlaid
    obtain ⟨fields, rfl⟩ := hall constant htag
    exact ⟨fields, ⟨(hbuild fields text).2.2, rfl⟩, rfl⟩

/-- The same for a kind of two fields. -/
theorem reads_payload_pair {first : Decoder α} {second : Decoder β} {spell : α → List UInt8}
    {spell' : β → List UInt8} {build : α → β → Constant} {kind : Tag}
    (hf : Reads bound first (.spelled spell)) (hs : Reads bound second (.spelled spell'))
    (hbuild : ∀ x y text, (build x y).tag = kind ∧ (build x y).WrittenAs text ∧
      (build x y).payload text = spell x ++ spell' y)
    (hall : ∀ constant : Constant, constant.tag = kind → ∃ x y, constant = build x y := by
      grind) :
    Reads bound (first >>= fun x => second >>= fun y => pure (build x y)) (payloadGrammar kind) := by
  refine (hf.bind_spelled fun x => hs.bind_spelled fun y => reads_pure (build x y)).congr
    fun constant taken events => ⟨?_, ?_⟩
  · intro hread
    obtain ⟨x, _, ⟨y, _, ⟨rfl, rfl, rfl⟩, rfl⟩, rfl⟩ := hread
    obtain ⟨htag, hwritten, hpayload⟩ := hbuild x y []
    exact ⟨htag, [], hwritten, by rw [hpayload, List.append_nil], rfl⟩
  · intro hlaid
    obtain ⟨htag, text, -, rfl, rfl⟩ := hlaid
    obtain ⟨x, y, rfl⟩ := hall constant htag
    exact ⟨x, spell' y, ⟨y, [], ⟨rfl, rfl, rfl⟩, by rw [List.append_nil]⟩, (hbuild x y text).2.2⟩

/-- The bytes of a text, once they are there. -/
theorem reads_content (start : Nat) (encoded : List UInt8) :
    Reads bound (match ModifiedUtf8.decode? encoded with
      | some content => pure content
      | none => fail (.malformedText start)) fun content taken events =>
    ModifiedUtf8.decode? encoded = some content ∧ taken = [] ∧ events = [] := by
  cases ModifiedUtf8.decode? encoded with
  | none => exact (reads_fail _).congr (by simp)
  | some text => exact (reads_pure text).congr (by simp [eq_comm])

theorem reads_decodeText : Reads bound decodeText fun content taken events =>
    ∃ text : List UInt8, text.length < 2 ^ 16 ∧ ModifiedUtf8.decode? text = some content ∧
      taken = digits 2 text.length ++ text ∧ events = [] := by
  refine (reads_u16.bind_spelled fun length => reads_position_bind fun start =>
    (reads_bytes length.toNat).bind (reads_content start)).congr fun content taken events => ⟨?_, ?_⟩
  · intro hread
    obtain ⟨length, _, ⟨encoded, _, _, _, _, ⟨rfl, hlength, rfl⟩, ⟨hdecode, rfl, rfl⟩, rfl, rfl⟩,
      rfl⟩ := hread
    exact ⟨encoded, hlength ▸ length.toNat_lt, hdecode, by rw [word16, hlength, List.append_nil],
      rfl⟩
  · intro hlaid
    obtain ⟨text, hlt, hdecode, rfl, rfl⟩ := hlaid
    have hlength : (UInt16.ofNat text.length).toNat = text.length := by
      rw [UInt16.toNat_ofNat', Nat.mod_eq_of_lt hlt]
    exact ⟨.ofNat text.length, text, ⟨text, text, [], [], [], ⟨rfl, hlength.symm, rfl⟩,
      ⟨hdecode, rfl, rfl⟩, by simp, rfl⟩, by rw [word16, hlength]⟩

theorem reads_decodeMemberRef (kind : MemberKind) :
    Reads bound (decodeMemberRef kind) (payloadGrammar kind.tag) :=
  reads_payload_pair reads_u16 reads_u16 fun _ _ _ => ⟨rfl, trivial, rfl⟩

theorem reads_decodePayload (kind : Tag) :
    Reads bound (decodePayload kind) (payloadGrammar kind) := by
  cases kind with
  | utf8 =>
    refine (reads_decodeText.map utf8).congr fun constant taken events => ⟨?_, ?_⟩
    · intro hread
      obtain ⟨content, ⟨text, hlt, hdecode, rfl, rfl⟩, rfl⟩ := hread
      exact ⟨rfl, text, ⟨hlt, hdecode⟩, rfl, rfl⟩
    · intro hlaid
      obtain ⟨htag, text, hwritten, rfl, rfl⟩ := hlaid
      have hall : ∃ content, constant = utf8 content := by grind
      obtain ⟨content, rfl⟩ := hall
      exact ⟨content, ⟨text, hwritten.1, hwritten.2, rfl, rfl⟩, rfl⟩
  | integer =>
    refine reads_payload reads_u32 (fun _ _ => ⟨rfl, trivial, rfl⟩) fun constant htag => ?_
    have hall : ∃ value, constant = integer value := by grind
    obtain ⟨value, rfl⟩ := hall
    exact ⟨value.toUInt32, rfl⟩
  | long =>
    refine reads_payload reads_u64 (fun _ _ => ⟨rfl, trivial, rfl⟩) fun constant htag => ?_
    have hall : ∃ value, constant = long value := by grind
    obtain ⟨value, rfl⟩ := hall
    exact ⟨value.toUInt64, rfl⟩
  | float => exact reads_payload reads_binary32 fun _ _ => ⟨rfl, trivial, rfl⟩
  | double => exact reads_payload reads_binary64 fun _ _ => ⟨rfl, trivial, rfl⟩
  | classInfo => exact reads_payload reads_u16 fun _ _ => ⟨rfl, trivial, rfl⟩
  | string => exact reads_payload reads_u16 fun _ _ => ⟨rfl, trivial, rfl⟩
  | fieldRef => exact reads_decodeMemberRef .field
  | methodRef => exact reads_decodeMemberRef .method
  | interfaceMethodRef => exact reads_decodeMemberRef .interfaceMethod
  | nameAndType => exact reads_payload_pair reads_u16 reads_u16 fun _ _ _ => ⟨rfl, trivial, rfl⟩
  | methodHandle => exact reads_payload_pair reads_u8 reads_u16 fun _ _ _ => ⟨rfl, trivial, rfl⟩
  | methodType => exact reads_payload reads_u16 fun _ _ => ⟨rfl, trivial, rfl⟩
  | invokeDynamic => exact reads_payload_pair reads_u16 reads_u16 fun _ _ _ => ⟨rfl, trivial, rfl⟩

/-- What stands behind a byte that is a tag. -/
theorem reads_tagged (offset : Nat) (byte : UInt8) :
    Reads bound (match Tag.ofByte? byte with
      | some kind => decodePayload kind
      | none => fail (.unknownTag byte offset)) fun constant taken events =>
    ∃ kind, Tag.ofByte? byte = some kind ∧ payloadGrammar kind constant taken events := by
  cases Tag.ofByte? byte with
  | none => exact (reads_fail _).congr (by simp)
  | some kind => exact (reads_decodePayload kind).congr (by simp)

/-- The constants that the decoder reads are those laid out as tag and fields. -/
theorem reads_decode : Reads bound decode fun constant taken events =>
    ∃ text, constant.WrittenAs text ∧ taken = constant.layout text ∧ events = [] := by
  refine (reads_position_bind fun offset => reads_u8.bind_spelled (reads_tagged offset)).congr
    fun constant taken events => ⟨?_, ?_⟩
  · intro hread
    obtain ⟨byte, _, ⟨kind, hbyte, rfl, text, hwritten, rfl, rfl⟩, rfl⟩ := hread
    obtain rfl := Tag.ofByte?_eq_some_iff.mp hbyte
    exact ⟨text, hwritten, rfl, rfl⟩
  · intro hlaid
    obtain ⟨text, hwritten, rfl, rfl⟩ := hlaid
    exact ⟨constant.tag.byte, constant.payload text,
      ⟨constant.tag, Tag.ofByte?_byte _, rfl, text, hwritten, rfl, rfl⟩, rfl⟩

end Jvm.Constant
