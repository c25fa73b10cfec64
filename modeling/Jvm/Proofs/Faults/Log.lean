import Mathlib.Data.List.Basic
import Jvm.Proofs.Faults.Truncation

/-! # The log of reading a class

What is reported while a class is read is told from the class: its constants by ascending index,
its attributes in the order in which they stand, each in front of those inside it, and at last the
class. The lines of the log are spelled out on that walk, with level, text and values
(`attributesLines`, `ClassFile.lines`). A class that is not read leaves reports on its parts alone,
and an input that is cut short leaves the front part of the whole log. -/

namespace Jvm

open Decoder

/-! ## The constants of a pool -/

namespace ConstantPool

/-- The entries of slots that start at `index`. -/
def entriesFrom (index : Nat) (slots : List (Option Constant)) : List (Nat × Constant) :=
  (slots.zipIdx index).filterMap fun (slot, index) => slot.map (index, ·)

theorem entries_eq (pool : ConstantPool) : pool.entries = entriesFrom 0 pool.slots.toList := rfl

theorem entriesFrom_cons (index : Nat) (slot : Option Constant) (slots : List (Option Constant)) :
    entriesFrom index (slot :: slots) =
      (slot.map (index, ·)).toList ++ entriesFrom (index + 1) slots := by
  cases slot <;> rfl

theorem mem_entriesFrom_iff {start index : Nat} {constant : Constant}
    {slots : List (Option Constant)} : (index, constant) ∈ entriesFrom start slots ↔
      start ≤ index ∧ slots[index - start]? = some (some constant) := by
  simp only [entriesFrom, List.mem_filterMap, Option.map_eq_some_iff, Prod.exists, Prod.mk.injEq,
    List.mk_mem_zipIdx_iff_le_and_getElem?_sub]
  refine ⟨fun h => ?_, fun h => ⟨some constant, index, h, constant, rfl, rfl, rfl⟩⟩
  obtain ⟨_, _, h, _, rfl, rfl, rfl⟩ := h
  exact h

theorem mem_entries_iff {pool : ConstantPool} {index : Nat} {constant : Constant} :
    (index, constant) ∈ pool.entries ↔ pool.slots[index]? = some (some constant) := by
  rw [entries_eq, mem_entriesFrom_iff]
  simp

/-- By ascending index. -/
theorem pairwise_entries (pool : ConstantPool) :
    pool.entries.Pairwise fun one other => one.1 < other.1 := by
  suffices h : ∀ (slots : List (Option Constant)) (start : Nat),
      (entriesFrom start slots).Pairwise fun one other => one.1 < other.1 from h _ 0
  intro slots
  induction slots with
  | nil => intro start; exact .nil
  | cons slot slots ih =>
    intro start
    rw [entriesFrom_cons]
    cases slot with
    | none => exact ih (start + 1)
    | some constant =>
      refine .cons (fun other hother => ?_) (ih (start + 1))
      exact (mem_entriesFrom_iff.mp hother).1

end ConstantPool

/-! ## Reports on parts -/

/-- All reports of the step are on parts. -/
def ReportsParts {α : Type} (step : Decoder α) : Prop :=
  ∀ c, ∀ event ∈ (step c).events, event.OnPart

section

variable {α β : Type}

theorem reportsParts_of_silent {step : Decoder α} (h : ∀ c, (step c).events = []) :
    ReportsParts step := by
  intro c event hevent
  rw [h c] at hevent
  cases hevent

theorem ReportsParts.bind {first : Decoder α} {second : α → Decoder β} (hfirst : ReportsParts first)
    (hsecond : ∀ value, ReportsParts (second value)) : ReportsParts (first >>= second) := by
  intro c event hevent
  have hc := hfirst c
  rcases h : first c with ⟨fault | value, next, events⟩
  · rw [bind_of_error h] at hevent
    rw [h] at hc
    exact hc event hevent
  · rw [bind_of_ok h] at hevent
    rw [h] at hc
    rcases List.mem_append.mp hevent with hevent | hevent
    · exact hc event hevent
    · exact hsecond value next event hevent

theorem reportsParts_report {event : Event} (h : event.OnPart) : ReportsParts (report event) := by
  intro c other hother
  rw [List.mem_singleton.mp hother]
  exact h

end

theorem reportsParts_steps : Steps ReportsParts where
  pure _ := reportsParts_of_silent fun _ => rfl
  bind := .bind
  bytes _ := reportsParts_of_silent fun c => by unfold bytes; split <;> rfl

theorem reportsParts_classLaw : ClassLaw ReportsParts where
  toSteps := reportsParts_steps
  position := reportsParts_of_silent fun _ => rfl
  report _ hpart _ := reportsParts_report hpart
  knownLength _ := .bind reportsParts_steps.u32 fun _ => reportsParts_report trivial
  found _ := reportsParts_of_silent fun _ => rfl
  limit h c := by
    obtain ⟨other, hother, heq⟩ := h (c.remaining + 1)
    rw [heq c (Nat.lt_succ_self _)]
    exact hother c

/-! ## Lines on attributes -/

mutual

/-- The lines behind the one on the header. -/
def Attribute.lines (nested : List AttributeHeader) : Attribute → List LogLine
  | .code body => body.lines nested
  | .unrecognized name info =>
    [⟨.debug, "keeping unrecognized attribute", [("name", name), ("length", toString info.length)]⟩]
  | .constantValue _ | .deprecated | .exceptions _ | .lineNumbers _ | .localVariables _
  | .sourceFile _ | .synthetic => []

def Code.lines (nested : List AttributeHeader) : Code → List LogLine
  | ⟨_, _, _, _, attributes⟩ => attributesLines nested attributes

/-- Each attribute stands in front of those inside it, with the length that its header declares. -/
def attributesLines : List AttributeHeader → List Attribute → List LogLine
  | header :: headers, a :: attributes =>
    ⟨.trace, "read attribute", [("name", a.name), ("length", toString header.length.toNat)]⟩ ::
      (a.lines header.nested ++ attributesLines headers attributes)
  | _, _ => []

end

mutual

theorem Attribute.map_line_reports (nested : List AttributeHeader) :
    (a : Attribute) → (a.reports nested).map Event.line = a.lines nested
  | .code body => body.map_line_reports nested
  | .unrecognized _ _ => rfl
  | .constantValue _ | .deprecated | .exceptions _ | .lineNumbers _ | .localVariables _
  | .sourceFile _ | .synthetic => rfl

theorem Code.map_line_reports (nested : List AttributeHeader) :
    (body : Code) → (body.reports nested).map Event.line = body.lines nested
  | ⟨_, _, _, _, attributes⟩ => map_line_attributesReports nested attributes

theorem map_line_attributesReports : (headers : List AttributeHeader) →
    (attributes : List Attribute) →
      (attributesReports headers attributes).map Event.line = attributesLines headers attributes
  | header :: headers, a :: attributes => by
    rw [attributesReports, attributesLines, List.map_cons, List.map_append,
      a.map_line_reports header.nested, map_line_attributesReports headers attributes]
    rfl
  | [], [] | [], _ :: _ | _ :: _, [] => rfl

end

/-- The lines on the attributes of members, one member after the other. -/
def Member.listLines (headers : List (List AttributeHeader)) (members : List Member) :
    List LogLine :=
  (List.zipWith (fun headers member => attributesLines headers member.attributes) headers
    members).flatten

theorem Member.map_line_listReports (headers : List (List AttributeHeader))
    (members : List Member) :
    (Member.listReports headers members).map Event.line = Member.listLines headers members := by
  simp only [Member.listReports, Member.listLines, List.map_flatten, List.map_zipWith,
    Member.reports, map_line_attributesReports]

/-! ## The log of a class -/

namespace ClassFile

/-- Where no class is read, the reports are those on its parts. -/
theorem ofBytes_of_error {bytes : List UInt8} {fault : FormatError}
    (h : (ofBytes bytes).result = .error fault) :
    ofBytes bytes = ⟨.error fault, (decodeContent (.start bytes)).cursor,
      (decodeContent (.start bytes)).events⟩ := by
  rw [ofBytes, (decode_result_cursor _).1] at h
  exact bind_of_error (by rw [← h])

theorem ofBytes_of_ok {bytes : List UInt8} {cls : ClassFile}
    (h : (ofBytes bytes).result = .ok cls) :
    ofBytes bytes = ⟨.ok cls, (decodeContent (.start bytes)).cursor,
      (decodeContent (.start bytes)).events ++
        cls.closingReports (decodeContent (.start bytes)).cursor.remaining⟩ := by
  rw [ofBytes, (decode_result_cursor _).1] at h
  exact decode_of_ok (by rw [← h])

/-- The reports on the parts stand in front in any case. -/
theorem isPrefix_events_ofBytes (bytes : List UInt8) :
    (decodeContent (.start bytes)).events <+: (ofBytes bytes).events := by
  cases h : (ofBytes bytes).result with
  | error fault => exact ⟨[], by rw [List.append_nil, ofBytes_of_error h]⟩
  | ok cls =>
    rw [ofBytes_of_ok h]
    exact List.prefix_append _ _

/-- The reports on an accepted input are a walk over the class that it holds. `headers` has the
lengths that stand in the bytes, as the layout says. -/
theorem exists_events_of_ofBytes {bytes : List UInt8} {cls : ClassFile}
    (h : (ofBytes bytes).result = .ok cls) : ∃ count texts headers,
      cls.pool.WrittenAs count texts ∧ Headers.Fit headers cls ∧
      bytes = cls.layout count texts headers ++ (ofBytes bytes).cursor.rest ∧
      (ofBytes bytes).events =
        cls.contentReports headers ++ cls.closingReports (ofBytes bytes).cursor.remaining := by
  have hofBytes := ofBytes_of_ok h
  obtain ⟨hresult, -⟩ := decode_result_cursor (.start bytes)
  rw [ofBytes, hresult] at h
  rcases hcontent : decodeContent (.start bytes) with ⟨result, next, events⟩
  rw [hcontent] at h hofBytes
  subst h
  obtain ⟨taken, ⟨-, -, -, count, texts, headers, hwritten, hfit, rfl, rfl⟩, hpass⟩ :=
    (reads_decodeContent (.start bytes) (Nat.lt_succ_self _) cls next events).mp hcontent
  rw [hofBytes]
  exact ⟨count, texts, headers, hwritten, hfit, hpass.rest_eq, rfl⟩

/-- An input that is cut short is not accepted, so all that it leaves are reports on parts, and the
whole input leaves these first. -/
theorem isPrefix_events_take {bytes : List UInt8} {cls : ClassFile} {k : Nat}
    (h : (ofBytes bytes).result = .ok cls) (hk : k < consumed bytes) :
    (ofBytes (bytes.take k)).events <+: (ofBytes bytes).events := by
  obtain ⟨offset, needed, hran, -⟩ := ((ofBytes_prefix_law bytes).1 cls h).1 k hk
  have hkept := steady_decodeContent.events_kept (.start (bytes.take k)) (bytes.drop k)
  have hwhole : (Cursor.start (bytes.take k)).extend (bytes.drop k) = .start bytes :=
    congrArg Cursor.start (List.take_append_drop k bytes)
  rw [hwhole] at hkept
  rw [ofBytes_of_error hran]
  exact hkept.trans (isPrefix_events_ofBytes bytes)

/-! ## Lines on a class -/

/-- What is logged while the bytes are read. -/
def log (bytes : List UInt8) : List LogLine := (ofBytes bytes).events.map Event.line

/-- The name of the class as the log has it. -/
def loggedName (cls : ClassFile) : String :=
  match cls.className with
  | .ok name => name
  | .error _ => "<invalid>"

/-- The line on a class as a whole. -/
def parsedLine (cls : ClassFile) : LogLine where
  level := .debug
  message := "parsed class file"
  fields :=
    [("class", cls.loggedName), ("major_version", toString cls.version.major),
      ("minor_version", toString cls.version.minor), ("constants", toString cls.pool.size),
      ("fields", toString cls.fields.length), ("methods", toString cls.methods.length)]

/-- The lines on a class that `trailing` bytes stand behind: its constants, the attributes of its
fields, those of its methods and its own, and the class as a whole. -/
def lines (headers : Headers) (trailing : Nat) (cls : ClassFile) : List LogLine :=
  cls.pool.entries.map (fun (index, constant) =>
    ⟨.trace, "read constant", [("index", toString index), ("tag", constant.tag.name)]⟩) ++
  (Member.listLines headers.fields cls.fields ++ Member.listLines headers.methods cls.methods ++
    attributesLines headers.attributes cls.attributes) ++
  ((if 0 < trailing then
      [⟨.debug, "ignoring bytes after class file", [("trailing", toString trailing)]⟩] else []) ++
    [cls.parsedLine])

theorem line_parsedEvent (cls : ClassFile) : cls.parsedEvent.line = cls.parsedLine := by
  rw [parsedEvent, parsedLine, loggedName]
  cases cls.className <;> rfl

theorem map_line_reports (headers : Headers) (trailing : Nat) (cls : ClassFile) :
    (cls.contentReports headers ++ cls.closingReports trailing).map Event.line =
      cls.lines headers trailing := by
  have hpool : cls.pool.reports.map Event.line = cls.pool.entries.map fun (index, constant) =>
      ⟨.trace, "read constant", [("index", toString index), ("tag", constant.tag.name)]⟩ := by
    rw [ConstantPool.reports, List.map_map]
    rfl
  have hclosing : (cls.closingReports trailing).map Event.line = (if 0 < trailing then
      [⟨.debug, "ignoring bytes after class file", [("trailing", toString trailing)]⟩] else []) ++
        [cls.parsedEvent.line] := by
    rw [closingReports, List.map_append]
    split <;> rfl
  rw [contentReports, bodyReports, List.map_append, List.map_append, List.map_append,
    List.map_append, hpool, Member.map_line_listReports, Member.map_line_listReports,
    map_line_attributesReports, hclosing, line_parsedEvent, lines]

theorem message_of_onPart {event : Event} (h : event.OnPart) :
    event.line.message ≠ "ignoring bytes after class file" ∧
      event.line.message ≠ "parsed class file" := by
  cases event with
  | constantRead _ _ | attributeRead _ _ | attributeKept _ _ => simp [Event.line, Event.message]
  | bytesIgnored _ | classParsed _ _ _ _ _ _ | framePushed _ | framePopped _ => cases h

/-- The log of an accepted input: the constants of its pool by ascending index, the attributes of
its fields, of its methods and its own, each in front of those inside it and with the length that
its header declares, the bytes left behind it, if there are any, and the class. Where the input is
cut short, the log is the front part of that one. Where an input is not accepted, there is no line
on a class. -/
theorem ofBytes_log (bytes : List UInt8) :
    (∀ cls, (ofBytes bytes).result = .ok cls →
      (cls.pool.entries.Pairwise fun one other => one.1 < other.1) ∧
      (∀ index constant, (index, constant) ∈ cls.pool.entries ↔
        cls.pool.slots[index]? = some (some constant)) ∧
      (∃ count texts headers, cls.pool.WrittenAs count texts ∧ Headers.Fit headers cls ∧
        bytes = cls.layout count texts headers ++ (ofBytes bytes).cursor.rest ∧
        log bytes = cls.lines headers (ofBytes bytes).cursor.remaining) ∧
      ∀ k < consumed bytes, log (bytes.take k) <+: log bytes) ∧
    ∀ fault, (ofBytes bytes).result = .error fault → ∀ line ∈ log bytes,
      line.message ≠ "ignoring bytes after class file" ∧ line.message ≠ "parsed class file" := by
  refine ⟨fun cls hok => ?_, fun fault herror line hline => ?_⟩
  · obtain ⟨count, texts, headers, hwritten, hfit, hbytes, hevents⟩ := exists_events_of_ofBytes hok
    refine ⟨cls.pool.pairwise_entries, fun _ _ => ConstantPool.mem_entries_iff,
      ⟨count, texts, headers, hwritten, hfit, hbytes, ?_⟩,
      fun k hk => (isPrefix_events_take hok hk).map Event.line⟩
    rw [log, hevents, map_line_reports]
  · obtain ⟨event, hevent, rfl⟩ := List.mem_map.mp hline
    rw [ofBytes_of_error herror] at hevent
    exact message_of_onPart (reportsParts_classLaw.content (.start bytes) event hevent)

theorem ofBytes_log_nestedCode :
    (ofBytes nestedCodeBytes).result = .ok nestedCode ∧
      (∃ count texts headers, nestedCode.pool.WrittenAs count texts ∧ headers.Fit nestedCode ∧
        nestedCodeBytes = nestedCode.layout count texts headers ++
          (ofBytes nestedCodeBytes).cursor.rest ∧
        log nestedCodeBytes = nestedCode.lines headers 1) ∧
      (∀ k < consumed nestedCodeBytes, log (nestedCodeBytes.take k) <+: log nestedCodeBytes) ∧
      ∀ line ∈ log (nestedCodeBytes.take 20),
        line.message ≠ "ignoring bytes after class file" ∧ line.message ≠ "parsed class file" := by
  have hread : (ofBytes nestedCodeBytes).result = .ok nestedCode := by decide +kernel
  have hleft : (ofBytes nestedCodeBytes).cursor.remaining = 1 := by decide +kernel
  have hcut : (ofBytes (nestedCodeBytes.take 20)).result = .error (.truncated 18 8) := by
    decide +kernel
  obtain ⟨-, -, hlog, htake⟩ := (ofBytes_log nestedCodeBytes).1 nestedCode hread
  rw [hleft] at hlog
  exact ⟨hread, hlog, htake, (ofBytes_log (nestedCodeBytes.take 20)).2 _ hcut⟩

example : log nestedCodeBytes =
    [⟨.trace, "read constant", [("index", "1"), ("tag", "CONSTANT_Utf8")]⟩,
      ⟨.trace, "read constant", [("index", "2"), ("tag", "CONSTANT_Long")]⟩,
      ⟨.trace, "read constant", [("index", "4"), ("tag", "CONSTANT_Utf8")]⟩,
      ⟨.trace, "read constant", [("index", "5"), ("tag", "CONSTANT_Class")]⟩,
      ⟨.trace, "read attribute", [("name", "Code"), ("length", "0")]⟩,
      ⟨.trace, "read attribute", [("name", "Mine"), ("length", "2")]⟩,
      ⟨.debug, "keeping unrecognized attribute", [("name", "Mine"), ("length", "2")]⟩,
      ⟨.debug, "ignoring bytes after class file", [("trailing", "1")]⟩,
      ⟨.debug, "parsed class file",
        [("class", "Mine"), ("major_version", "52"), ("minor_version", "0"), ("constants", "6"),
          ("fields", "0"), ("methods", "1")]⟩] := by decide +kernel

end ClassFile

end Jvm
