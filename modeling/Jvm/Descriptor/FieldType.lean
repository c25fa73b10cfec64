import Jvm.FormatError

/-! Types of fields, parameters and results, and the descriptors they are written as. An array type
is its element type under a number of dimensions, one opening bracket each. -/

namespace Jvm

/-- A type that is no array. -/
inductive ElementType where
  | byte | char | double | float | int | long | short | boolean
  | object (className : String)
  deriving DecidableEq, Repr

structure FieldType where
  element : ElementType
  dimensions : Nat := 0
  deriving DecidableEq, Repr

namespace ElementType

/-- The descriptor. -/
def chars : ElementType → List Char
  | byte => ['B']
  | char => ['C']
  | double => ['D']
  | float => ['F']
  | int => ['I']
  | long => ['J']
  | short => ['S']
  | boolean => ['Z']
  | object className => 'L' :: className.toList ++ [';']

/-- The class name up to the first semicolon, which may not be empty. -/
def takeObject? (text : List Char) : Option (ElementType × List Char) :=
  match text.takeWhile (· ≠ ';'), text.dropWhile (· ≠ ';') with
  | first :: name, _ :: rest => some (object (.ofList (first :: name)), rest)
  | _, _ => none

/-- The type at the front of the text and what follows it. -/
def take? : List Char → Option (ElementType × List Char)
  | 'B' :: rest => some (byte, rest)
  | 'C' :: rest => some (char, rest)
  | 'D' :: rest => some (double, rest)
  | 'F' :: rest => some (float, rest)
  | 'I' :: rest => some (int, rest)
  | 'J' :: rest => some (long, rest)
  | 'S' :: rest => some (short, rest)
  | 'Z' :: rest => some (boolean, rest)
  | 'L' :: rest => takeObject? rest
  | _ => none

end ElementType

namespace FieldType

/-- The slots that a value takes. An array of longs is one reference. -/
def slotWidth : FieldType → Nat
  | ⟨.long, 0⟩ | ⟨.double, 0⟩ => 2
  | _ => 1

/-- The descriptor. -/
def chars (type : FieldType) : List Char :=
  List.replicate type.dimensions '[' ++ type.element.chars

def descriptor (type : FieldType) : String := .ofList type.chars

/-- The type at the front of the text and what follows it. -/
def take? (text : List Char) : Option (FieldType × List Char) :=
  (ElementType.take? (text.dropWhile (· = '['))).map fun (element, rest) =>
    (⟨element, (text.takeWhile (· = '[')).length⟩, rest)

/-- The type that the whole text describes. -/
def ofChars? (text : List Char) : Option FieldType :=
  match take? text with
  | some (type, []) => some type
  | _ => none

def parse (text : String) : Except FormatError FieldType :=
  match ofChars? text.toList with
  | some type => .ok type
  | none => .error (.invalidDescriptor text)

end FieldType

end Jvm
