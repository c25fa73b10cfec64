import Jvm.Bytes.Float
import Mathlib.Algebra.Order.Field.Rat
import Mathlib.Tactic.NormNum

/-! # The numbers that floating-point bits stand for

By IEEE 754 a bit pattern has a sign bit, an exponent and a fraction, and stands for a rational
number, for an infinity or for no number (`NumberFormat.number`). Two patterns stand for one number
only if they are equal or both zero (`NumberFormat.number_eq_iff`), so comparing bits as `sameNumber`
does is comparing numbers (`Binary32.sameNumber_iff`, `Binary64.sameNumber_iff`). -/

namespace Jvm

inductive Number where
  | finite (value : ℚ)
  | infinite (negative : Bool)
  | notANumber
  deriving DecidableEq

/-- A binary format. From the lowest bit on there are fraction, exponent and a sign bit. -/
structure NumberFormat where
  exponentBits : Nat
  fractionBits : Nat
  exponentBits_pos : 0 < exponentBits := by decide

namespace NumberFormat

def fraction (format : NumberFormat) (bits : Nat) : Nat := bits % 2 ^ format.fractionBits

def exponent (format : NumberFormat) (bits : Nat) : Nat :=
  bits / 2 ^ format.fractionBits % 2 ^ format.exponentBits

def isNegative (format : NumberFormat) (bits : Nat) : Bool :=
  bits / 2 ^ (format.fractionBits + format.exponentBits) % 2 == 1

/-- What is added to the power of two of a number to give its exponent. -/
def bias (format : NumberFormat) : ℤ := 2 ^ (format.exponentBits - 1) - 1

/-- The number without its sign, as long as the exponent is not the highest one. Exponent 0 is for
the numbers that are too small for a leading one in front of the fraction. -/
def size (format : NumberFormat) (bits : Nat) : ℚ :=
  if format.exponent bits = 0 then
    format.fraction bits * 2 ^ (1 - format.bias - format.fractionBits)
  else
    (2 ^ format.fractionBits + format.fraction bits) *
      2 ^ (format.exponent bits - format.bias - format.fractionBits)

def number (format : NumberFormat) (bits : Nat) : Number :=
  if format.exponent bits = 2 ^ format.exponentBits - 1 then
    if format.fraction bits = 0 then .infinite (format.isNegative bits) else .notANumber
  else .finite (if format.isNegative bits then -format.size bits else format.size bits)

/-- The bits below the sign. -/
def magnitude (format : NumberFormat) (bits : Nat) : Nat :=
  bits % 2 ^ (format.fractionBits + format.exponentBits)

/-- The magnitude of the infinities. -/
def top (format : NumberFormat) : Nat := (2 ^ format.exponentBits - 1) * 2 ^ format.fractionBits

/-- The size of a number in units of the least positive one. -/
def units (format : NumberFormat) (bits : Nat) : Nat :=
  if format.exponent bits = 0 then format.fraction bits
  else (2 ^ format.fractionBits + format.fraction bits) * 2 ^ (format.exponent bits - 1)

variable {format : NumberFormat} {bits other : Nat}

theorem fraction_lt : format.fraction bits < 2 ^ format.fractionBits :=
  Nat.mod_lt _ (Nat.two_pow_pos _)

theorem exponent_lt : format.exponent bits < 2 ^ format.exponentBits :=
  Nat.mod_lt _ (Nat.two_pow_pos _)

theorem magnitude_eq : format.magnitude bits =
    format.exponent bits * 2 ^ format.fractionBits + format.fraction bits := by
  rw [magnitude, Nat.pow_add, Nat.mod_mul, Nat.add_comm, Nat.mul_comm]
  rfl

theorem two_le_two_pow : 2 ≤ 2 ^ format.exponentBits := by
  have hle := Nat.pow_le_pow_right Nat.two_pos format.exponentBits_pos
  simpa using hle

theorem top_pos : 0 < format.top :=
  Nat.mul_pos (Nat.sub_pos_of_lt two_le_two_pow) (Nat.two_pow_pos _)

/-! ## Finite numbers -/

theorem size_eq (bits : Nat) : format.size bits =
    format.units bits * 2 ^ (1 - format.bias - format.fractionBits) := by
  unfold size units
  split
  · rfl
  · rename_i hexponent
    have hpower : (format.exponent bits : ℤ) - format.bias - format.fractionBits =
        (format.exponent bits - 1 : ℕ) + (1 - format.bias - format.fractionBits) := by
      omega
    rw [hpower, zpow_add₀ two_ne_zero, zpow_natCast, ← mul_assoc]
    norm_cast

/-- A greater magnitude is a greater number: leaving the exponent gives at least twice the leading
one, and with one exponent the fractions decide. -/
theorem units_lt (h : format.magnitude bits < format.magnitude other) :
    format.units bits < format.units other := by
  rw [magnitude_eq, magnitude_eq] at h
  have hfraction := @fraction_lt format bits
  have hother := @fraction_lt format other
  unfold units
  rcases Nat.lt_trichotomy (format.exponent bits) (format.exponent other) with hlt | heq | hgt
  · have hne : format.exponent other ≠ 0 := by omega
    have hmono : 2 ^ format.exponent bits ≤ 2 ^ (format.exponent other - 1) :=
      Nat.pow_le_pow_right Nat.two_pos (by omega)
    have hleast : 2 ^ format.fractionBits * 2 ^ format.exponent bits ≤
        (2 ^ format.fractionBits + format.fraction other) * 2 ^ (format.exponent other - 1) :=
      Nat.mul_le_mul (Nat.le_add_right _ _) hmono
    rw [if_neg hne]
    refine Nat.lt_of_lt_of_le ?_ hleast
    split
    · rename_i hzero
      rwa [hzero, Nat.pow_zero, Nat.mul_one]
    · rename_i hpos
      have hdouble : 2 ^ format.exponent bits = 2 * 2 ^ (format.exponent bits - 1) := by
        rw [← Nat.pow_succ', Nat.succ_eq_add_one, Nat.sub_add_cancel (Nat.pos_of_ne_zero hpos)]
      rw [hdouble, ← Nat.mul_assoc]
      exact Nat.mul_lt_mul_of_pos_right (by omega) (Nat.two_pow_pos _)
  · rw [heq] at h ⊢
    split
    · omega
    · exact Nat.mul_lt_mul_of_pos_right (by omega) (Nat.two_pow_pos _)
  · have hle : (format.exponent other + 1) * 2 ^ format.fractionBits ≤
        format.exponent bits * 2 ^ format.fractionBits := Nat.mul_le_mul_right _ hgt
    rw [Nat.succ_mul] at hle
    omega

theorem magnitude_eq_of_units_eq (h : format.units bits = format.units other) :
    format.magnitude bits = format.magnitude other := by
  rcases Nat.lt_trichotomy (format.magnitude bits) (format.magnitude other) with hlt | heq | hgt
  · exact absurd h (Nat.ne_of_lt (units_lt hlt))
  · exact heq
  · exact absurd h (Nat.ne_of_gt (units_lt hgt))

theorem units_eq_zero_iff : format.units bits = 0 ↔ format.magnitude bits = 0 := by
  constructor
  · intro h
    have hzero : format.units 0 = 0 := by simp [units, exponent, fraction]
    rw [magnitude_eq_of_units_eq (h.trans hzero.symm), magnitude, Nat.zero_mod]
  · intro h
    rw [magnitude_eq, Nat.add_eq_zero_iff, Nat.mul_eq_zero] at h
    have hexponent := h.1.resolve_right (Nat.ne_of_gt (Nat.two_pow_pos _))
    rw [units, if_pos hexponent, h.2]

/-! ## All patterns -/

theorem exponent_eq_last_iff :
    format.exponent bits = 2 ^ format.exponentBits - 1 ↔ format.top ≤ format.magnitude bits := by
  rw [magnitude_eq, top]
  constructor
  · intro h
    rw [h]
    exact Nat.le_add_right _ _
  · intro h
    have hexponent := @exponent_lt format bits
    have hfraction := @fraction_lt format bits
    refine Classical.byContradiction fun hne => ?_
    have hle : (format.exponent bits + 1) * 2 ^ format.fractionBits ≤
        (2 ^ format.exponentBits - 1) * 2 ^ format.fractionBits :=
      Nat.mul_le_mul_right _ (by omega)
    rw [Nat.succ_mul] at hle
    omega

theorem number_of_lt_top (h : format.magnitude bits < format.top) :
    format.number bits = .finite ((if format.isNegative bits then -format.units bits
      else format.units bits : ℤ) * 2 ^ (1 - format.bias - format.fractionBits)) := by
  have hexponent := mt exponent_eq_last_iff.mp (Nat.not_le.mpr h)
  rw [number, if_neg hexponent, size_eq]
  split <;> simp

theorem number_of_top_le (h : format.top ≤ format.magnitude bits) : format.number bits =
    if format.magnitude bits = format.top then .infinite (format.isNegative bits)
    else .notANumber := by
  have hexponent := exponent_eq_last_iff.mpr h
  have hfraction : format.fraction bits = 0 ↔ format.magnitude bits = format.top := by
    rw [magnitude_eq, hexponent, top]
    omega
  simp only [number, if_pos hexponent, hfraction]

theorem number_eq_notANumber_iff :
    format.number bits = .notANumber ↔ format.top < format.magnitude bits := by
  by_cases h : format.top ≤ format.magnitude bits
  · rw [number_of_top_le h]
    split <;> simp <;> omega
  · rw [number_of_lt_top (Nat.lt_of_not_le h)]
    simp
    omega

/-- Sign and magnitude are all there is to a pattern. -/
theorem eq_of_magnitude_eq
    (hbits : bits < 2 * 2 ^ (format.fractionBits + format.exponentBits))
    (hother : other < 2 * 2 ^ (format.fractionBits + format.exponentBits))
    (hsign : format.isNegative bits = format.isNegative other)
    (hmagnitude : format.magnitude bits = format.magnitude other) : bits = other := by
  have hsplit := Nat.div_add_mod bits (2 ^ (format.fractionBits + format.exponentBits))
  have hsplit' := Nat.div_add_mod other (2 ^ (format.fractionBits + format.exponentBits))
  have hlt := Nat.div_lt_of_lt_mul (Nat.mul_comm _ _ ▸ hbits)
  have hlt' := Nat.div_lt_of_lt_mul (Nat.mul_comm _ _ ▸ hother)
  unfold isNegative at hsign
  unfold magnitude at hmagnitude
  rw [← hsplit, ← hsplit', hmagnitude]
  generalize bits / 2 ^ (format.fractionBits + format.exponentBits) = sign at *
  generalize other / 2 ^ (format.fractionBits + format.exponentBits) = sign' at *
  rw [Nat.mod_eq_of_lt hlt, Nat.mod_eq_of_lt hlt', Bool.eq_iff_iff, beq_iff_eq, beq_iff_eq] at hsign
  have hsame : sign = sign' := by omega
  rw [hsame]

theorem unit_ne_zero : (2 : ℚ) ^ (1 - format.bias - format.fractionBits) ≠ 0 :=
  zpow_ne_zero _ two_ne_zero

theorem number_of_magnitude_eq_zero (h : format.magnitude bits = 0) :
    format.number bits = .finite 0 := by
  rw [number_of_lt_top (h ▸ top_pos), units_eq_zero_iff.mpr h]
  simp

/-- Finite patterns of one number have one magnitude, and one sign unless that is zero. -/
theorem of_finite_eq (hbits : format.magnitude bits < format.top)
    (hother : format.magnitude other < format.top) (h : format.number bits = format.number other) :
    format.magnitude bits = format.magnitude other ∧
      (format.isNegative bits = format.isNegative other ∨ format.magnitude bits = 0) := by
  rw [number_of_lt_top hbits, number_of_lt_top hother, Number.finite.injEq,
    mul_left_inj' unit_ne_zero, Int.cast_inj] at h
  have hunits : format.units bits = format.units other := by
    split at h <;> split at h <;> omega
  refine ⟨magnitude_eq_of_units_eq hunits, ?_⟩
  rw [← units_eq_zero_iff]
  cases hsign : format.isNegative bits <;> cases hsign' : format.isNegative other <;>
    simp [hsign, hsign'] at h ⊢ <;> omega

theorem number_eq_iff
    (hbits : bits < 2 * 2 ^ (format.fractionBits + format.exponentBits))
    (hother : other < 2 * 2 ^ (format.fractionBits + format.exponentBits)) :
    format.number bits = format.number other ∧ format.number bits ≠ .notANumber ↔
      format.magnitude bits ≤ format.top ∧ format.magnitude other ≤ format.top ∧
        (bits = other ∨ format.magnitude bits = 0 ∧ format.magnitude other = 0) := by
  constructor
  · rintro ⟨heq, hne⟩
    have hle : format.magnitude bits ≤ format.top :=
      Nat.not_lt.mp (mt number_eq_notANumber_iff.mpr hne)
    have hle' : format.magnitude other ≤ format.top :=
      Nat.not_lt.mp (mt number_eq_notANumber_iff.mpr (heq ▸ hne))
    refine ⟨hle, hle', ?_⟩
    rcases Nat.lt_or_eq_of_le hle with hlt | htop <;>
      rcases Nat.lt_or_eq_of_le hle' with hlt' | htop'
    · obtain ⟨hmagnitude, hsign | hzero⟩ := of_finite_eq hlt hlt' heq
      · exact .inl (eq_of_magnitude_eq hbits hother hsign hmagnitude)
      · exact .inr ⟨hzero, hmagnitude ▸ hzero⟩
    · rw [number_of_lt_top hlt, number_of_top_le htop'.ge, if_pos htop'] at heq
      cases heq
    · rw [number_of_lt_top hlt', number_of_top_le htop.ge, if_pos htop] at heq
      cases heq
    · rw [number_of_top_le htop.ge, number_of_top_le htop'.ge, if_pos htop, if_pos htop'] at heq
      exact .inl (eq_of_magnitude_eq hbits hother (Number.infinite.inj heq) (htop.trans htop'.symm))
  · rintro ⟨hle, -, rfl | ⟨hzero, hzero'⟩⟩
    · exact ⟨rfl, mt number_eq_notANumber_iff.mp (Nat.not_lt.mpr hle)⟩
    · rw [number_of_magnitude_eq_zero hzero, number_of_magnitude_eq_zero hzero']
      exact ⟨rfl, by simp⟩

end NumberFormat

namespace Binary32

def format : NumberFormat := { exponentBits := 8, fractionBits := 23 }

/-- The number that the bits stand for. -/
def number (x : Binary32) : Number := format.number x.bits.toNat

theorem sameNumber_iff (x y : Binary32) :
    x.sameNumber y = true ↔ x.number = y.number ∧ x.number ≠ .notANumber := by
  rw [number, number, NumberFormat.number_eq_iff x.bits.toNat_lt y.bits.toNat_lt]
  simp only [sameNumber, isNaN, Bool.and_eq_true, Bool.or_eq_true, Bool.not_eq_true',
    decide_eq_false_iff_not, Nat.not_lt, beq_iff_eq, ← UInt32.toNat_inj]
  exact and_assoc

end Binary32

namespace Binary64

def format : NumberFormat := { exponentBits := 11, fractionBits := 52 }

/-- The number that the bits stand for. -/
def number (x : Binary64) : Number := format.number x.bits.toNat

theorem sameNumber_iff (x y : Binary64) :
    x.sameNumber y = true ↔ x.number = y.number ∧ x.number ≠ .notANumber := by
  rw [number, number, NumberFormat.number_eq_iff x.bits.toNat_lt y.bits.toNat_lt]
  simp only [sameNumber, isNaN, Bool.and_eq_true, Bool.or_eq_true, Bool.not_eq_true',
    decide_eq_false_iff_not, Nat.not_lt, beq_iff_eq, ← UInt64.toNat_inj]
  exact and_assoc

end Binary64

/-- The two zeros are one number, and the least positive number is not. -/
example : Binary32.number ⟨0x80000000⟩ = .finite 0 ∧
    Binary32.number ⟨1⟩ = .finite (1 / 2 ^ 149) := by
  decide +kernel

end Jvm
