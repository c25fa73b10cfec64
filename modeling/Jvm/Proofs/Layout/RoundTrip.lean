import Jvm.Proofs.Layout.ClassFile
import Jvm.Proofs.Text.Encoding

/-! # Reading and writing whole classes

Reading succeeds on the layouts of classes and on nothing else (`ofBytes_ok_iff`). In the layout
that a class is written as, the count is the number of slots and every text is encoded unit by
unit, and reading it back gives the class. -/

namespace Jvm

/-- The bytes that a text is written as, and none for other constants. -/
def Constant.encodedText : Constant → List UInt8
  | utf8 text => ModifiedUtf8.encode text
  | _ => []

/-- Texts are short enough for their length to be written. -/
def ConstantPool.TextsFit (pool : ConstantPool) : Prop :=
  ∀ constant ∈ pool.constants, constant.encodedText.length < 2 ^ 16

theorem Constant.writtenAs_encodedText {constant : Constant}
    (h : constant.encodedText.length < 2 ^ 16) : constant.WrittenAs constant.encodedText := by
  cases constant with
  | utf8 text => exact ⟨h, ModifiedUtf8.decode?_encode text⟩
  | _ => trivial

theorem ConstantPool.writtenAs_encodedText {pool : ConstantPool} (harranged : pool.Arranged)
    (htexts : pool.TextsFit) :
    pool.WrittenAs (.ofNat pool.size) (pool.constants.map Constant.encodedText) := by
  have hcount : (UInt16.ofNat pool.size).toNat = pool.size := by
    rw [UInt16.toNat_ofNat', Nat.mod_eq_of_lt harranged.size_lt]
  refine ⟨.inl hcount, ?_⟩
  rw [List.forall₂_map_left_iff]
  exact List.forall₂_same.mpr fun constant hmem =>
    Constant.writtenAs_encodedText (htexts constant hmem)

namespace ClassFile

open Decoder

/-- The reports on a class as a whole, with `trailing` bytes behind it. -/
def closingReports (trailing : Nat) (cls : ClassFile) : List Event :=
  (if 0 < trailing then [.bytesIgnored trailing] else []) ++ [cls.parsedEvent]

/-- What is done with a class once it is read. -/
def closing (cls : ClassFile) : Decoder ClassFile := do
  let trailing ← remaining
  if 0 < trailing then report (.bytesIgnored trailing)
  report cls.parsedEvent
  return cls

theorem decode_eq : decode = decodeContent >>= closing := rfl

theorem closing_apply (cls : ClassFile) (c : Cursor) :
    closing cls c = ⟨.ok cls, c, cls.closingReports c.remaining⟩ := by
  unfold closing
  rw [bind_of_ok (show remaining c = ⟨.ok c.remaining, c, []⟩ from rfl)]
  unfold closingReports
  by_cases htrailing : 0 < c.remaining
  · rw [if_pos htrailing, if_pos htrailing]; rfl
  · rw [if_neg htrailing, if_neg htrailing]; rfl

theorem decode_of_ok {c next : Cursor} {cls : ClassFile} {events : List Event}
    (h : decodeContent c = ⟨.ok cls, next, events⟩) :
    decode c = ⟨.ok cls, next, events ++ cls.closingReports next.remaining⟩ := by
  rw [decode_eq, bind_of_ok h, closing_apply]
  rfl

/-- The closing reports change neither what is read nor how far. -/
theorem decode_result_cursor (c : Cursor) :
    (decode c).result = (decodeContent c).result ∧ (decode c).cursor = (decodeContent c).cursor := by
  rcases h : decodeContent c with ⟨fault | cls, next, events⟩
  · have herror : decode c = ⟨.error fault, next, events⟩ := bind_of_error h
    rw [herror]
    exact ⟨rfl, rfl⟩
  · rw [decode_of_ok h]
    exact ⟨rfl, rfl⟩

/-- What is read from the start of the bytes, and the place reached. -/
theorem ofBytes_ok_iff {bytes : List UInt8} {cls : ClassFile} {next : Cursor} :
    (ofBytes bytes).result = .ok cls ∧ (ofBytes bytes).cursor = next ↔
      cls.version.Accepted ∧ cls.pool.Arranged ∧ cls.pool.Closed ∧
        ∃ count texts headers, cls.pool.WrittenAs count texts ∧ headers.Fit cls ∧
          (Cursor.start bytes).Passes (cls.layout count texts headers) next := by
  obtain ⟨hresult, hcursor⟩ := decode_result_cursor (.start bytes)
  have hreads := reads_decodeContent (.start bytes) (Nat.lt_succ_self _) cls next
  rw [ofBytes, hresult, hcursor]
  refine ⟨fun h => ?_, fun h => ?_⟩
  · obtain ⟨hok, hnext⟩ := h
    rcases hcontent : decodeContent (.start bytes) with ⟨result, reached, events⟩
    rw [hcontent] at hok hnext
    subst hok hnext
    obtain ⟨taken, ⟨haccepted, harranged, hclosed, count, texts, headers, hwritten, hfit, rfl, -⟩,
      hpass⟩ := (hreads events).mp hcontent
    exact ⟨haccepted, harranged, hclosed, count, texts, headers, hwritten, hfit, hpass⟩
  · obtain ⟨haccepted, harranged, hclosed, count, texts, headers, hwritten, hfit, hpass⟩ := h
    have hcontent := (hreads (cls.contentReports headers)).mpr
      ⟨_, ⟨haccepted, harranged, hclosed, count, texts, headers, hwritten, hfit, rfl, rfl⟩, hpass⟩
    rw [hcontent]
    exact ⟨rfl, rfl⟩

/-- What a class has to satisfy to be written at all. -/
structure Writable (cls : ClassFile) : Prop where
  version_accepted : cls.version.Accepted
  pool_arranged : cls.pool.Arranged
  pool_closed : cls.pool.Closed
  texts_fit : cls.pool.TextsFit

/-- The class as bytes, attributes behind the given headers. -/
def serialize (headers : Headers) (cls : ClassFile) : List UInt8 :=
  cls.layout (.ofNat cls.pool.size) (cls.pool.constants.map Constant.encodedText) headers

/-- A class that was written is read back, whatever stands behind it, and that is left. -/
theorem ofBytes_serialize {cls : ClassFile} {headers : Headers} (hcls : cls.Writable)
    (hfit : headers.Fit cls) (trailing : List UInt8) :
    (ofBytes (cls.serialize headers ++ trailing)).result = .ok cls ∧
      (ofBytes (cls.serialize headers ++ trailing)).cursor =
        ⟨(cls.serialize headers).length, trailing⟩ := by
  have hwritten := ConstantPool.writtenAs_encodedText hcls.pool_arranged hcls.texts_fit
  exact ofBytes_ok_iff.mpr ⟨hcls.version_accepted, hcls.pool_arranged, hcls.pool_closed, _, _,
    headers, hwritten, hfit, rfl, (Nat.zero_add _).symm⟩

/-- A class with a long in its pool and an attribute of its own inside the code of a method. -/
def nestedCode : ClassFile where
  version := ⟨52, 0⟩
  pool := ⟨#[none, some (.utf8 "Code"), some (.long 7), none, some (.utf8 "Mine"),
    some (.classInfo 4)]⟩
  accessFlags := ⟨0x21⟩
  thisClass := 5
  superClass := 0
  interfaces := [5]
  fields := []
  methods := [⟨⟨1⟩, 4, 4, [.code ⟨1, 1, [0xb1], [], [.unrecognized "Mine" [8, 9]]⟩]⟩]
  attributes := []

/-- The length of the code is written as zero. -/
def nestedCodeHeaders : Headers := ⟨[], [[⟨1, 0, [⟨4, 2, []⟩]⟩]], []⟩

theorem ofBytes_serialize_nestedCode :
    nestedCode.Writable ∧ nestedCodeHeaders.Fit nestedCode ∧
      (ofBytes (nestedCode.serialize nestedCodeHeaders ++ [0xff])).result = .ok nestedCode ∧
      (ofBytes (nestedCode.serialize nestedCodeHeaders ++ [0xff])).cursor =
        ⟨(nestedCode.serialize nestedCodeHeaders).length, [0xff]⟩ := by
  have harranged : nestedCode.pool.Arranged := (ConstantPool.arranged_iff _).mpr
    ⟨_, rfl, by decide, ⟨rfl, rfl, rfl, rfl, rfl, trivial⟩, by decide⟩
  have hclosed : nestedCode.pool.Closed :=
    ConstantPool.checkReferences_eq_ok_iff.mp (by decide +kernel)
  have htexts : nestedCode.pool.TextsFit := by unfold ConstantPool.TextsFit; decide +kernel
  have hinner : AttributesFit nestedCode.pool [⟨4, 2, []⟩] [.unrecognized "Mine" [8, 9]] :=
    ⟨⟨by decide +kernel, by decide, fun _ _ h => by cases h; rfl⟩, trivial, trivial⟩
  have houter : AttributesFit nestedCode.pool [⟨1, 0, [⟨4, 2, []⟩]⟩]
      [.code ⟨1, 1, [0xb1], [], [.unrecognized "Mine" [8, 9]]⟩] :=
    ⟨⟨by decide +kernel, by decide, fun _ _ h => (nomatch h)⟩,
      ⟨by decide, by decide, by decide, hinner⟩, trivial⟩
  have hcls : nestedCode.Writable := ⟨.inr (by decide), harranged, hclosed, htexts⟩
  have hfit : nestedCodeHeaders.Fit nestedCode :=
    ⟨by decide, ⟨by decide, .nil⟩, ⟨by decide, .cons ⟨by decide, houter⟩ .nil⟩, by decide, trivial⟩
  exact ⟨hcls, hfit, ofBytes_serialize hcls hfit [0xff]⟩

/-- What was read stands in the bytes from the first one on, each part once and behind the part
before it, and nothing else stands there. -/
theorem exists_layout_of_ofBytes {bytes : List UInt8} {cls : ClassFile}
    (h : (ofBytes bytes).result = .ok cls) :
    cls.version.Accepted ∧ cls.pool.Arranged ∧ cls.pool.Closed ∧
      ∃ count texts headers, cls.pool.WrittenAs count texts ∧ headers.Fit cls ∧
        bytes = cls.layout count texts headers ++ (ofBytes bytes).cursor.rest ∧
        (ofBytes bytes).cursor.position = (cls.layout count texts headers).length := by
  obtain ⟨haccepted, harranged, hclosed, count, texts, headers, hwritten, hfit, hpass⟩ :=
    ofBytes_ok_iff.mp ⟨h, rfl⟩
  exact ⟨haccepted, harranged, hclosed, count, texts, headers, hwritten, hfit, hpass.rest_eq,
    hpass.position_eq.trans (Nat.zero_add _)⟩

/-- The same class with a byte behind its end. -/
def nestedCodeBytes : List UInt8 :=
  [0xca, 0xfe, 0xba, 0xbe, 0, 0, 0, 52, 0, 6, 1, 0, 4, 0x43, 0x6f, 0x64, 0x65, 5, 0, 0, 0, 0, 0, 0,
    0, 7, 1, 0, 4, 0x4d, 0x69, 0x6e, 0x65, 7, 0, 4, 0, 0x21, 0, 5, 0, 0, 0, 1, 0, 5, 0, 0, 0, 1,
    0, 1, 0, 4, 0, 4, 0, 1, 0, 1, 0, 0, 0, 0, 0, 1, 0, 1, 0, 0, 0, 1, 0xb1, 0, 0, 0, 1, 0, 4, 0, 0,
    0, 2, 8, 9, 0, 0, 0xff]

theorem exists_layout_of_ofBytes_nestedCode :
    (ofBytes nestedCodeBytes).result = .ok nestedCode ∧
      ∃ count texts headers, nestedCode.pool.WrittenAs count texts ∧ headers.Fit nestedCode ∧
        nestedCodeBytes = nestedCode.layout count texts headers ++
          (ofBytes nestedCodeBytes).cursor.rest := by
  have hread : (ofBytes nestedCodeBytes).result = .ok nestedCode := by decide +kernel
  obtain ⟨-, -, -, count, texts, headers, hwritten, hfit, hbytes, -⟩ := exists_layout_of_ofBytes hread
  exact ⟨hread, count, texts, headers, hwritten, hfit, hbytes⟩

end ClassFile

end Jvm
