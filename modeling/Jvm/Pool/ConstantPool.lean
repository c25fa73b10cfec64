import Jvm.Pool.Constant

/-! The constant pool: slots counted from 0, of which slot 0 and the slot behind each long or
double hold no constant. Lookups follow the indices that constants hold. -/

namespace Jvm

structure ConstantPool where
  slots : Array (Option Constant)
  deriving DecidableEq, Repr

/-- A member reference with its names looked up. -/
structure MemberName where
  className : String
  name : String
  descriptor : String
  deriving DecidableEq, Repr

namespace ConstantPool

/-- No slots at all. -/
def empty : ConstantPool := ⟨#[]⟩

/-- The number of slots, those without a constant included. -/
def size (pool : ConstantPool) : Nat := pool.slots.size

def isEmpty (pool : ConstantPool) : Bool := pool.size ≤ 1

/-- The constants and their indices, in ascending order. -/
def entries (pool : ConstantPool) : List (Nat × Constant) :=
  pool.slots.toList.zipIdx.filterMap fun (slot, index) => slot.map (index, ·)

/-- The constant at an index. -/
def get (pool : ConstantPool) (index : UInt16) : Except FormatError Constant :=
  match pool.slots[index.toNat]? with
  | some (some constant) => .ok constant
  | some none => .error (.unusableIndex index)
  | none => .error (.indexOutOfRange index pool.size)

/-- The text at an index. -/
def utf8 (pool : ConstantPool) (index : UInt16) : Except FormatError String := do
  match ← pool.get index with
  | .utf8 text => pure text
  | other => throw (.kindMismatch index .utf8 other.tag)

/-- The name of the class at an index. -/
def className (pool : ConstantPool) (index : UInt16) : Except FormatError String := do
  match ← pool.get index with
  | .classInfo nameIndex => pool.utf8 nameIndex
  | other => throw (.kindMismatch index .classInfo other.tag)

/-- The text of the string constant at an index. -/
def string (pool : ConstantPool) (index : UInt16) : Except FormatError String := do
  match ← pool.get index with
  | .string textIndex => pool.utf8 textIndex
  | other => throw (.kindMismatch index .string other.tag)

/-- The name and the descriptor at an index. -/
def nameAndType (pool : ConstantPool) (index : UInt16) : Except FormatError (String × String) := do
  match ← pool.get index with
  | .nameAndType nameIndex descriptorIndex =>
    return (← pool.utf8 nameIndex, ← pool.utf8 descriptorIndex)
  | other => throw (.kindMismatch index .nameAndType other.tag)

/-- The names that the member reference at an index stands for. -/
def memberRef (pool : ConstantPool) (index : UInt16) : Except FormatError MemberName := do
  match ← pool.get index with
  | .memberRef _ classIndex nameAndTypeIndex =>
    let className ← pool.className classIndex
    let (name, descriptor) ← pool.nameAndType nameAndTypeIndex
    return { className, name, descriptor }
  | other => throw (.notMemberRef index other.tag)

/-- Every index held by a constant leads to a constant. The first one that does not, by the slot
that holds it and then by the order of fields, is the fault. -/
def checkReferences (pool : ConstantPool) : Except FormatError Unit :=
  (pool.entries.flatMap fun (_, constant) => constant.references).forM fun index =>
    discard (pool.get index)

/-- Slot by slot, constants of the same value. -/
def sameValue (pool other : ConstantPool) : Bool :=
  pool.slots.isEqv other.slots fun
    | some x, some y => x.sameValue y
    | none, none => true
    | _, _ => false

end ConstantPool

end Jvm
