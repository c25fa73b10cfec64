import Jvm.Class.ClassDecoder
import Jvm.Proofs.Layout.Attribute
import Jvm.Proofs.Layout.Pool

/-! # The layout of a class file

The parts of a class in the order in which they stand, and what a class has to satisfy for its
parts to stand there. `reads_decodeContent` says that the decoder accepts just these layouts. -/

namespace Jvm

open BigEndian Decoder

/-- Attributes behind their count. -/
def countedAttributes (headers : List AttributeHeader) (attributes : List Attribute) :
    List UInt8 :=
  digits 2 attributes.length ++ attributesLayout headers attributes

namespace Member

def layout (headers : List AttributeHeader) (member : Member) : List UInt8 :=
  word16 member.accessFlags.bits ++ word16 member.nameIndex ++ word16 member.descriptorIndex ++
    countedAttributes headers member.attributes

structure Fits (pool : ConstantPool) (headers : List AttributeHeader) (member : Member) : Prop where
  length_lt : member.attributes.length < 2 ^ 16
  attributes_fit : AttributesFit pool headers member.attributes

def reports (headers : List AttributeHeader) (member : Member) : List Event :=
  attributesReports headers member.attributes

/-- Members behind their count. -/
def listLayout (headers : List (List AttributeHeader)) (members : List Member) : List UInt8 :=
  digits 2 members.length ++ (List.zipWith layout headers members).flatten

structure ListFits (pool : ConstantPool) (headers : List (List AttributeHeader))
    (members : List Member) : Prop where
  length_lt : members.length < 2 ^ 16
  members_fit : List.Forall₂ (Fits pool) headers members

def listReports (headers : List (List AttributeHeader)) (members : List Member) : List Event :=
  (List.zipWith reports headers members).flatten

def grammar (pool : ConstantPool) : Grammar Member := fun member taken events =>
  ∃ headers, member.Fits pool headers ∧ taken = member.layout headers ∧
    events = member.reports headers

theorem each_grammar {pool : ConstantPool} {members : List Member} {taken : List UInt8}
    {events : List Event} : (grammar pool).each members taken events ↔
      ∃ headers, List.Forall₂ (Fits pool) headers members ∧
        taken = (List.zipWith layout headers members).flatten ∧
        events = listReports headers members := by
  induction members generalizing taken events with
  | nil =>
    refine ⟨fun h => ?_, fun h => ?_⟩
    · obtain ⟨rfl, rfl⟩ := h
      exact ⟨[], .nil, rfl, rfl⟩
    · obtain ⟨headers, hfit, rfl, rfl⟩ := h
      cases hfit
      exact ⟨rfl, rfl⟩
  | cons member members ih =>
    refine ⟨fun h => ?_, fun h => ?_⟩
    · obtain ⟨_, _, _, _, ⟨first, hfirst, rfl, rfl⟩, hothers, rfl, rfl⟩ := h
      obtain ⟨headers, hfit, rfl, rfl⟩ := ih.mp hothers
      exact ⟨first :: headers, .cons hfirst hfit, rfl, rfl⟩
    · obtain ⟨_, hfit, rfl, rfl⟩ := h
      obtain ⟨first, headers, hfirst, hothers, rfl⟩ := List.forall₂_cons_right_iff.mp hfit
      exact ⟨_, _, _, _, ⟨first, hfirst, rfl, rfl⟩, ih.mpr ⟨headers, hothers, rfl, rfl⟩, rfl, rfl⟩

variable {bound : Nat}

theorem reads_decode (pool : ConstantPool) : Reads bound (decode pool) (grammar pool) := by
  refine (reads_u16.bind_spelled fun bits => reads_u16.bind_spelled fun nameIndex =>
    reads_u16.bind_spelled fun descriptorIndex =>
    (Attribute.reads_counted (Attribute.reads_decode pool)).bind fun attributes =>
    reads_pure _).congr fun member taken events => ⟨fun h => ?_, fun h => ?_⟩
  · obtain ⟨bits, _, ⟨nameIndex, _, ⟨descriptorIndex, _, ⟨attributes, _, _, _, _, ⟨hlength, headers,
      hfit, rfl, rfl⟩, ⟨rfl, rfl, rfl⟩, rfl, rfl⟩, rfl⟩, rfl⟩, rfl⟩ := h
    exact ⟨headers, ⟨hlength, hfit⟩, by simp [layout, countedAttributes], by simp [reports]⟩
  · obtain ⟨headers, ⟨hlength, hfit⟩, rfl, rfl⟩ := h
    exact ⟨member.accessFlags.bits, _, ⟨member.nameIndex, _, ⟨member.descriptorIndex, _,
      ⟨member.attributes, _, _, _, _, ⟨hlength, headers, hfit, rfl, rfl⟩, ⟨rfl, rfl, rfl⟩, rfl,
      (List.append_nil _).symm⟩, rfl⟩, rfl⟩, by simp [layout, countedAttributes]⟩

theorem reads_decodeAll (pool : ConstantPool) : Reads bound (decodeAll pool)
    fun members taken events => ∃ headers, ListFits pool headers members ∧
      taken = listLayout headers members ∧ events = listReports headers members := by
  refine (reads_decode pool).counted.congr fun members taken events => ⟨fun h => ?_, fun h => ?_⟩
  · obtain ⟨hlength, _, rfl, heach⟩ := h
    obtain ⟨headers, hfit, rfl, rfl⟩ := each_grammar.mp heach
    exact ⟨headers, ⟨hlength, hfit⟩, rfl, rfl⟩
  · obtain ⟨headers, ⟨hlength, hfit⟩, rfl, rfl⟩ := h
    exact ⟨hlength, _, rfl, each_grammar.mpr ⟨headers, hfit, rfl, rfl⟩⟩

end Member

/-- The first major version with any minor version, and the later ones with none. -/
def Version.Accepted (version : Version) : Prop :=
  version.major.toNat = 45 ∨
    46 ≤ version.major.toNat ∧ version.major.toNat ≤ 52 ∧ version.minor.toNat = 0

theorem Version.isSupported_iff (version : Version) :
    version.isSupported = true ↔ version.Accepted := by
  obtain ⟨major, minor⟩ := version
  simp only [isSupported, Accepted, newestMajor, Bool.or_eq_true, Bool.and_eq_true,
    decide_eq_true_eq, beq_iff_eq, UInt16.le_iff_toNat_le, ← UInt16.toNat_inj, UInt16.reduceToNat,
    and_assoc]

namespace ClassFile

/-- What introduces the attributes of a class and of its members. -/
structure Headers where
  fields : List (List AttributeHeader)
  methods : List (List AttributeHeader)
  attributes : List AttributeHeader

/-- Lists fit their counts, and every attribute is introduced by its header. -/
structure Headers.Fit (headers : Headers) (cls : ClassFile) : Prop where
  interfaces_lt : cls.interfaces.length < 2 ^ 16
  fields_fit : Member.ListFits cls.pool headers.fields cls.fields
  methods_fit : Member.ListFits cls.pool headers.methods cls.methods
  attributes_lt : cls.attributes.length < 2 ^ 16
  attributes_fit : AttributesFit cls.pool headers.attributes cls.attributes

/-- What stands behind the pool. -/
def bodyLayout (headers : Headers) (cls : ClassFile) : List UInt8 :=
  word16 cls.accessFlags.bits ++ word16 cls.thisClass ++ word16 cls.superClass ++
    BigEndian.counted word16 cls.interfaces ++ Member.listLayout headers.fields cls.fields ++
    Member.listLayout headers.methods cls.methods ++
    countedAttributes headers.attributes cls.attributes

/-- The class as bytes. `count` and `texts` are those of its pool. -/
def layout (count : UInt16) (texts : List (List UInt8)) (headers : Headers) (cls : ClassFile) :
    List UInt8 :=
  word32 magic ++ word16 cls.version.minor ++ word16 cls.version.major ++
    cls.pool.layout count texts ++ cls.bodyLayout headers

def bodyReports (headers : Headers) (cls : ClassFile) : List Event :=
  Member.listReports headers.fields cls.fields ++ Member.listReports headers.methods cls.methods ++
    attributesReports headers.attributes cls.attributes

/-- The reports of reading the class, those on the whole of it excepted. -/
def contentReports (headers : Headers) (cls : ClassFile) : List Event :=
  cls.pool.reports ++ cls.bodyReports headers

/-- Reads what stands behind the pool. -/
def decodeBody (version : Version) (pool : ConstantPool) : Decoder ClassFile := do
  let bits ← u16
  let thisClass ← u16
  let superClass ← u16
  let interfaces ← u16s
  let fields ← Member.decodeAll pool
  let methods ← Member.decodeAll pool
  let attributes ← Attribute.decodeAll pool
  return { version, pool, accessFlags := ⟨bits⟩, thisClass, superClass, interfaces, fields,
           methods, attributes }

theorem decodeContent_eq : decodeContent = decodeMagic >>= fun _ => decodeVersion >>= fun version =>
    ConstantPool.decode >>= fun pool => decodeBody version pool := rfl

/-- A law of the decoders below the pool holds of all that stands behind it. -/
theorem law_decodeBody {pool : ConstantPool} {P : {α : Type} → Decoder α → Prop} (law : Law pool P)
    (version : Version) : P (decodeBody version pool) :=
  law.bind law.u16 fun _ => law.bind law.u16 fun _ => law.bind law.u16 fun _ =>
    law.bind (law.counted law.u16) fun _ => law.bind law.members fun _ =>
    law.bind law.members fun _ => law.bind law.attributes fun _ => law.pure _

variable {bound : Nat}

theorem reads_decodeMagic : Reads bound decodeMagic fun _ taken events =>
    taken = word32 magic ∧ events = [] := by
  have hcheck (found : UInt32) : Reads bound
      (if found ≠ magic then fail (.badMagic found) else pure ()) fun _ taken events =>
      found = magic ∧ taken = [] ∧ events = [] := by
    by_cases h : found = magic
    · rw [if_neg (not_not.mpr h)]
      exact (reads_pure ()).congr (by simp [h])
    · rw [if_pos h]
      exact (reads_fail _).congr (by simp [h])
  refine (reads_u32.bind_spelled hcheck).congr fun value taken events => ⟨fun h => ?_, fun h => ?_⟩
  · obtain ⟨found, _, ⟨rfl, rfl, rfl⟩, rfl⟩ := h
    exact ⟨List.append_nil _, rfl⟩
  · obtain ⟨rfl, rfl⟩ := h
    exact ⟨magic, [], ⟨rfl, rfl, rfl⟩, (List.append_nil _).symm⟩

theorem reads_decodeVersion : Reads bound decodeVersion fun version taken events =>
    version.Accepted ∧ taken = word16 version.minor ++ word16 version.major ∧ events = [] := by
  have hcheck (version : Version) : Reads bound
      (if version.isSupported then return version
        else fail (.unsupportedVersion version.major version.minor)) fun other taken events =>
      version.Accepted ∧ other = version ∧ taken = [] ∧ events = [] := by
    by_cases h : version.isSupported = true
    · rw [if_pos h]
      exact (reads_pure version).congr (by simp [version.isSupported_iff.mp h])
    · rw [if_neg h]
      rw [version.isSupported_iff] at h
      exact (reads_fail _).congr (by simp [h])
  refine (reads_u16.bind_spelled fun minor => reads_u16.bind_spelled fun major =>
    hcheck ⟨major, minor⟩).congr fun version taken events => ⟨fun h => ?_, fun h => ?_⟩
  · obtain ⟨minor, _, ⟨major, _, ⟨haccepted, rfl, rfl, rfl⟩, rfl⟩, rfl⟩ := h
    exact ⟨haccepted, by rw [List.append_nil], rfl⟩
  · obtain ⟨haccepted, rfl, rfl⟩ := h
    exact ⟨version.minor, _, ⟨version.major, [], ⟨haccepted, rfl, rfl, rfl⟩, rfl⟩,
      by rw [List.append_nil]⟩

theorem reads_decodeBody (version : Version) (pool : ConstantPool) :
    Reads bound (decodeBody version pool) fun cls taken events =>
      cls.version = version ∧ cls.pool = pool ∧ ∃ headers : Headers, headers.Fit cls ∧
        taken = cls.bodyLayout headers ∧ events = cls.bodyReports headers := by
  refine (reads_u16.bind_spelled fun bits => reads_u16.bind_spelled fun thisClass =>
    reads_u16.bind_spelled fun superClass => reads_u16.counted_spelled.bind fun interfaces =>
    (Member.reads_decodeAll pool).bind fun fields => (Member.reads_decodeAll pool).bind fun methods =>
    (Attribute.reads_counted (Attribute.reads_decode pool)).bind fun attributes =>
    reads_pure _).congr fun cls taken events => ⟨fun h => ?_, fun h => ?_⟩
  · obtain ⟨bits, _, ⟨thisClass, _, ⟨superClass, _, ⟨interfaces, _, _, _, _,
      ⟨hinterfaces, rfl, rfl⟩, ⟨fields, _, _, _, _, ⟨fieldHeaders, hfields, rfl, rfl⟩,
      ⟨methods, _, _, _, _, ⟨methodHeaders, hmethods, rfl, rfl⟩,
      ⟨attributes, _, _, _, _, ⟨hattributes, headers, hfit, rfl, rfl⟩, ⟨rfl, rfl, rfl⟩, rfl, rfl⟩,
      rfl, rfl⟩, rfl, rfl⟩, rfl, rfl⟩, rfl⟩, rfl⟩, rfl⟩ := h
    exact ⟨rfl, rfl, ⟨fieldHeaders, methodHeaders, headers⟩,
      ⟨hinterfaces, hfields, hmethods, hattributes, hfit⟩,
      by simp [bodyLayout, countedAttributes], by simp [bodyReports]⟩
  · obtain ⟨rfl, rfl, headers, hfit, rfl, rfl⟩ := h
    exact ⟨cls.accessFlags.bits, _, ⟨cls.thisClass, _, ⟨cls.superClass, _,
      ⟨cls.interfaces, _, _, _, _, ⟨hfit.interfaces_lt, rfl, rfl⟩,
      ⟨cls.fields, _, _, _, _, ⟨headers.fields, hfit.fields_fit, rfl, rfl⟩,
      ⟨cls.methods, _, _, _, _, ⟨headers.methods, hfit.methods_fit, rfl, rfl⟩,
      ⟨cls.attributes, _, _, _, _, ⟨hfit.attributes_lt, headers.attributes, hfit.attributes_fit, rfl,
        rfl⟩, ⟨rfl, rfl, rfl⟩, rfl, rfl⟩, rfl, rfl⟩, rfl, rfl⟩, rfl, by simp [bodyReports]⟩,
      rfl⟩, rfl⟩, by simp [bodyLayout, countedAttributes]⟩

/-- The classes that are read, as any of their layouts. -/
theorem reads_decodeContent : Reads bound decodeContent fun cls taken events =>
    cls.version.Accepted ∧ cls.pool.Arranged ∧ cls.pool.Closed ∧
      ∃ count texts headers, cls.pool.WrittenAs count texts ∧ headers.Fit cls ∧
        taken = cls.layout count texts headers ∧ events = cls.contentReports headers := by
  rw [decodeContent_eq]
  refine (reads_decodeMagic.bind fun _ => reads_decodeVersion.bind fun version =>
    ConstantPool.reads_decode.bind fun pool => reads_decodeBody version pool).congr
    fun cls taken events => ⟨fun h => ?_, fun h => ?_⟩
  · obtain ⟨_, _, _, _, _, ⟨rfl, rfl⟩, ⟨_, _, _, _, _, ⟨haccepted, rfl, rfl⟩, ⟨_, _, _, _, _,
      ⟨harranged, hclosed, count, texts, hwritten, rfl, rfl⟩, ⟨rfl, rfl, headers, hfit, rfl, rfl⟩,
      rfl, rfl⟩, rfl, rfl⟩, rfl, rfl⟩ := h
    exact ⟨haccepted, harranged, hclosed, count, texts, headers, hwritten, hfit,
      by simp [layout], rfl⟩
  · obtain ⟨haccepted, harranged, hclosed, count, texts, headers, hwritten, hfit, rfl, rfl⟩ := h
    exact ⟨(), _, _, [], _, ⟨rfl, rfl⟩, ⟨cls.version, _, _, [], _, ⟨haccepted, rfl, rfl⟩,
      ⟨cls.pool, _, _, _, _, ⟨harranged, hclosed, count, texts, hwritten, rfl, rfl⟩,
      ⟨rfl, rfl, headers, hfit, rfl, rfl⟩, rfl, rfl⟩, rfl, rfl⟩, by simp [layout], rfl⟩

end ClassFile

end Jvm
