/-! Floating-point numbers held as their IEEE 754 bits. Every bit pattern is kept, signalling NaNs
and the sign of zero included; `sameNumber` is the comparison that reads them as numbers. -/

namespace Jvm

/-- A single-precision number. -/
structure Binary32 where
  bits : UInt32
  deriving DecidableEq, Repr

namespace Binary32

/-- The bits below the sign. -/
def magnitude (x : Binary32) : Nat := x.bits.toNat % 0x80000000

/-- Beyond infinity in magnitude: all exponent bits set and some fraction bit too. -/
def isNaN (x : Binary32) : Bool := 0x7f800000 < x.magnitude

/-- Equality of numbers: a NaN equals nothing and the two zeros are one number. -/
def sameNumber (x y : Binary32) : Bool :=
  !x.isNaN && !y.isNaN && (x.bits == y.bits || x.magnitude == 0 && y.magnitude == 0)

end Binary32

/-- A double-precision number. -/
structure Binary64 where
  bits : UInt64
  deriving DecidableEq, Repr

namespace Binary64

/-- The bits below the sign. -/
def magnitude (x : Binary64) : Nat := x.bits.toNat % 0x8000000000000000

/-- Beyond infinity in magnitude: all exponent bits set and some fraction bit too. -/
def isNaN (x : Binary64) : Bool := 0x7ff0000000000000 < x.magnitude

/-- Equality of numbers: a NaN equals nothing and the two zeros are one number. -/
def sameNumber (x y : Binary64) : Bool :=
  !x.isNaN && !y.isNaN && (x.bits == y.bits || x.magnitude == 0 && y.magnitude == 0)

end Binary64

theorem Binary32.sameNumber_self (x : Binary32) : x.sameNumber x = !x.isNaN := by
  simp [sameNumber]

theorem Binary64.sameNumber_self (x : Binary64) : x.sameNumber x = !x.isNaN := by
  simp [sameNumber]

end Jvm
