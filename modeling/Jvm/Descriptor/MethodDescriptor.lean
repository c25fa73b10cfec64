import Jvm.Descriptor.FieldType

/-! Parameter and result types of methods. A descriptor is the parameters in parentheses and then
the result, `V` where there is none. The first closing parenthesis ends the parameters, whatever
they hold, and the result has no line feed in it. -/

namespace Jvm

structure MethodDescriptor where
  parameters : List FieldType
  /-- None for a method that returns no value. -/
  result : Option FieldType
  deriving DecidableEq, Repr

namespace MethodDescriptor

/-- The descriptor as text. -/
def chars (method : MethodDescriptor) : List Char :=
  '(' :: method.parameters.flatMap FieldType.chars ++
    ')' :: (match method.result with
      | some type => type.chars
      | none => ['V'])

def descriptor (method : MethodDescriptor) : String := .ofList method.chars

/-- The local slots that the arguments take on entry, the receiver of an instance method
included. -/
def argumentSlots (method : MethodDescriptor) (isStatic : Bool) : Nat :=
  method.parameters.foldr (fun type slots => type.slotWidth + slots) (if isStatic then 0 else 1)

/-- Takes types off the text to its end; `done` holds the ones before, last one first. The fuel
counts types, so the number of characters is enough. -/
def takeTypes (fuel : Nat) (done : List FieldType) (text : List Char) : Option (List FieldType) :=
  match fuel, text with
  | _, [] => some done.reverse
  | 0, _ :: _ => none
  | fuel + 1, text =>
    match FieldType.take? text with
    | some (type, rest) => takeTypes fuel (type :: done) rest
    | none => none

theorem takeTypes_eq (fuel : Nat) (done : List FieldType) (text : List Char) :
    takeTypes fuel done text = (takeTypes fuel [] text).map (done.reverse ++ ·) := by
  suffices h : ∀ more, takeTypes fuel (more ++ done) text =
      (takeTypes fuel more text).map (done.reverse ++ ·) from h []
  intro more
  fun_induction takeTypes fuel more text <;> simp_all [takeTypes]

/-- The types that make up the whole text. -/
def typesOfChars? (text : List Char) : Option (List FieldType) := takeTypes text.length [] text

/-- The type returned, or none for `V`. -/
def resultOfChars? (text : List Char) : Option (Option FieldType) :=
  if '\n' ∈ text then none
  else if text = ['V'] then some none
  else (FieldType.ofChars? text).map some

def ofChars? : List Char → Option MethodDescriptor
  | '(' :: text => do
    let parameters ← typesOfChars? (text.takeWhile (· ≠ ')'))
    let result ← resultOfChars? ((text.dropWhile (· ≠ ')')).drop 1)
    return { parameters, result }
  | _ => none

def parse (text : String) : Except FormatError MethodDescriptor :=
  match ofChars? text.toList with
  | some method => .ok method
  | none => .error (.invalidDescriptor text)

end MethodDescriptor

end Jvm
