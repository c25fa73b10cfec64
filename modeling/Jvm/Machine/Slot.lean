import Jvm.Bytes.Float

/-! Slots, the 32-bit cells of local tables and operand stacks. A long or double takes two of them,
its low half in the first; `joinHalves` and the two halves undo each other. -/

namespace Jvm

/-- A handle to a heap object. The zero handle is no object. -/
structure ObjectRef where
  handle : UInt32
  handle_ne_zero : handle ≠ 0
  deriving DecidableEq

def ObjectRef.ofHandle? (handle : UInt32) : Option ObjectRef :=
  if h : handle = 0 then none else some ⟨handle, h⟩

/-- A cell. It does not know what kind of value it holds, and reading the other kind gives zero or
null. -/
structure Slot where
  int : Int32 := 0
  reference : Option ObjectRef := none
  deriving DecidableEq

namespace Slot

def ofInt (value : Int32) : Slot := { int := value }

def ofReference (reference : Option ObjectRef) : Slot := { reference }

def ofFloat (value : Binary32) : Slot := ofInt value.bits.toInt32

def float (slot : Slot) : Binary32 := ⟨slot.int.toUInt32⟩

end Slot

/-- The low 32 bits. -/
def lowHalf (value : Int64) : Int32 := .ofBitVec (value.toBitVec.extractLsb' 0 32)

/-- The high 32 bits. -/
def highHalf (value : Int64) : Int32 := .ofBitVec (value.toBitVec.extractLsb' 32 32)

/-- The 64 bits of two halves. -/
def joinHalves (low high : Int32) : Int64 := .ofBitVec (high.toBitVec ++ low.toBitVec)

@[simp] theorem lowHalf_joinHalves (low high : Int32) : lowHalf (joinHalves low high) = low :=
  congrArg Int32.ofBitVec BitVec.extractLsb'_append_eq_right

@[simp] theorem highHalf_joinHalves (low high : Int32) : highHalf (joinHalves low high) = high :=
  congrArg Int32.ofBitVec BitVec.extractLsb'_append_eq_left

@[simp] theorem joinHalves_halves (value : Int64) :
    joinHalves (lowHalf value) (highHalf value) = value :=
  congrArg Int64.ofBitVec
    ((BitVec.extractLsb'_append_extractLsb'_eq_extractLsb' rfl).trans BitVec.extractLsb'_eq_self)

/-- The double whose bits are those of a long. -/
def doubleOfLong (value : Int64) : Binary64 := ⟨value.toUInt64⟩

def longOfDouble (value : Binary64) : Int64 := value.bits.toInt64

end Jvm
