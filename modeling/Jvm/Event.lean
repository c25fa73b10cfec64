import Jvm.Pool.Tag

/-! What decoding and running report on their way, in the order it happens, and the line of a log
that each report makes. -/

namespace Jvm

inductive Level where
  | debug | trace
  deriving DecidableEq, Repr

def Level.name : Level → String
  | debug => "DEBUG"
  | trace => "TRACE"

/-- One report. -/
inductive Event where
  | constantRead (index : Nat) (tag : Tag)
  | attributeRead (name : String) (length : Nat)
  | attributeKept (name : String) (length : Nat)
  | bytesIgnored (trailing : Nat)
  /-- The class has no name where the name cannot be resolved. -/
  | classParsed (className : Option String) (major minor : UInt16) (constants fields methods : Nat)
  /-- Depths count the frames after the step. -/
  | framePushed (depth : Nat)
  | framePopped (depth : Nat)
  deriving DecidableEq, Repr

/-- Shown in place of a name that cannot be resolved. -/
def invalidName : String := "<invalid>"

namespace Event

def level : Event → Level
  | constantRead .. | attributeRead .. | framePushed _ | framePopped _ => .trace
  | attributeKept .. | bytesIgnored _ | classParsed .. => .debug

def message : Event → String
  | constantRead .. => "read constant"
  | attributeRead .. => "read attribute"
  | attributeKept .. => "keeping unrecognized attribute"
  | bytesIgnored _ => "ignoring bytes after class file"
  | classParsed .. => "parsed class file"
  | framePushed _ => "pushed frame"
  | framePopped _ => "popped frame"

/-- The values reported, each under its name. -/
def fields : Event → List (String × String)
  | constantRead index tag => [("index", toString index), ("tag", tag.name)]
  | attributeRead name length | attributeKept name length =>
    [("name", name), ("length", toString length)]
  | bytesIgnored trailing => [("trailing", toString trailing)]
  | classParsed className major minor constants fields methods =>
    [("class", className.getD invalidName), ("major_version", toString major),
      ("minor_version", toString minor), ("constants", toString constants),
      ("fields", toString fields), ("methods", toString methods)]
  | framePushed depth | framePopped depth => [("depth", toString depth)]

end Event

/-- A line of a log. -/
structure LogLine where
  level : Level
  message : String
  /-- Values, each under its name. -/
  fields : List (String × String)
  deriving DecidableEq, Repr

def Event.line (event : Event) : LogLine := ⟨event.level, event.message, event.fields⟩

end Jvm
