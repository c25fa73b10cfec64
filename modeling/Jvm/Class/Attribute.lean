/-! Attributes of classes, fields, methods and code. Eight kinds are known by name; any other
attribute is kept as its bytes. -/

namespace Jvm

/-- A range of code and where an exception thrown in it is handled. Catch type 0 handles all. -/
structure ExceptionHandler where
  startPc : UInt16
  endPc : UInt16
  handlerPc : UInt16
  catchType : UInt16
  deriving DecidableEq, Repr

/-- The source line of the code from `startPc` on. -/
structure LineEntry where
  startPc : UInt16
  line : UInt16
  deriving DecidableEq, Repr

/-- A named local variable, the range of code it lives in, and its slot. -/
structure VariableEntry where
  startPc : UInt16
  length : UInt16
  nameIndex : UInt16
  descriptorIndex : UInt16
  slot : UInt16
  deriving DecidableEq, Repr

mutual

inductive Attribute where
  | code (body : Code)
  | constantValue (index : UInt16)
  | deprecated
  | exceptions (classIndices : List UInt16)
  | lineNumbers (entries : List LineEntry)
  | localVariables (entries : List VariableEntry)
  | sourceFile (nameIndex : UInt16)
  | synthetic
  | unrecognized (name : String) (info : List UInt8)

/-- The body of a method, with attributes of its own. -/
structure Code where
  maxStack : UInt16
  maxLocals : UInt16
  instructions : List UInt8
  handlers : List ExceptionHandler
  attributes : List Attribute

end

/-- The kinds of attribute that have a shape of their own. -/
inductive AttributeKind where
  | code | constantValue | deprecated | exceptions | lineNumbers | localVariables | sourceFile
  | synthetic
  deriving DecidableEq, Repr

namespace AttributeKind

def all : List AttributeKind :=
  [code, constantValue, deprecated, exceptions, lineNumbers, localVariables, sourceFile, synthetic]

def name : AttributeKind → String
  | code => "Code"
  | constantValue => "ConstantValue"
  | deprecated => "Deprecated"
  | exceptions => "Exceptions"
  | lineNumbers => "LineNumberTable"
  | localVariables => "LocalVariableTable"
  | sourceFile => "SourceFile"
  | synthetic => "Synthetic"

def ofName? (name : String) : Option AttributeKind := all.find? (·.name == name)

@[simp] theorem ofName?_name (kind : AttributeKind) : ofName? kind.name = some kind := by
  cases kind <;> decide

theorem ofName?_eq_some_iff {name : String} {kind : AttributeKind} :
    ofName? name = some kind ↔ kind.name = name := by
  constructor
  · intro h
    simpa using List.find?_some h
  · rintro rfl
    exact ofName?_name kind

end AttributeKind

namespace Attribute

/-- The kind, unless the attribute is unrecognized. -/
def kind? : Attribute → Option AttributeKind
  | code _ => some .code
  | constantValue _ => some .constantValue
  | deprecated => some .deprecated
  | exceptions _ => some .exceptions
  | lineNumbers _ => some .lineNumbers
  | localVariables _ => some .localVariables
  | sourceFile _ => some .sourceFile
  | synthetic => some .synthetic
  | unrecognized _ _ => none

/-- The name that the attribute goes by in a class file. -/
def name : Attribute → String
  | unrecognized name _ => name
  | code _ => AttributeKind.code.name
  | constantValue _ => AttributeKind.constantValue.name
  | deprecated => AttributeKind.deprecated.name
  | exceptions _ => AttributeKind.exceptions.name
  | lineNumbers _ => AttributeKind.lineNumbers.name
  | localVariables _ => AttributeKind.localVariables.name
  | sourceFile _ => AttributeKind.sourceFile.name
  | synthetic => AttributeKind.synthetic.name

def code? : Attribute → Option Code
  | code body => some body
  | _ => none

def constantValue? : Attribute → Option UInt16
  | constantValue index => some index
  | _ => none

def exceptions? : Attribute → Option (List UInt16)
  | exceptions classIndices => some classIndices
  | _ => none

def lineNumbers? : Attribute → Option (List LineEntry)
  | lineNumbers entries => some entries
  | _ => none

def sourceFile? : Attribute → Option UInt16
  | sourceFile nameIndex => some nameIndex
  | _ => none

def isDeprecated : Attribute → Bool
  | deprecated => true
  | _ => false

def isSynthetic : Attribute → Bool
  | synthetic => true
  | _ => false

end Attribute

namespace Code

/-- The entries of the code's own line tables, in order. -/
def lineEntries (code : Code) : List LineEntry :=
  (code.attributes.filterMap Attribute.lineNumbers?).flatten

/-- The better of two entries for the instruction at `pc`: the one that starts later, but not
behind `pc`. Of two that start together it is the one listed later. -/
def closerEntry (pc : UInt16) (best : Option LineEntry) (entry : LineEntry) : Option LineEntry :=
  if pc < entry.startPc then best
  else
    match best with
    | some chosen => if entry.startPc < chosen.startPc then best else some entry
    | none => some entry

/-- The source line of the instruction at `pc`. -/
def line? (code : Code) (pc : UInt16) : Option UInt16 :=
  (code.lineEntries.foldl (closerEntry pc) none).map (·.line)

end Code

end Jvm
