import Mathlib.Algebra.Group.Nat.Defs
import Mathlib.Order.Nat
import ShapeInference.Binary64

/-!
# Rounding what is exact

A natural number that is a double already is rounded to itself: the leading bit of a magnitude's
units gives back its exponent, and the quotient by the spacing gives back its fraction. A double
that stands for an integer is therefore found again from that integer.

Main statements: `Binary64.nearest_eq_of_units` and `Binary64.ofBinary64_ofInt`.
-/

namespace ShapeInference

theorem roundQuotient_mul (quotient : Nat) {den : Nat} (h : 0 < den) :
    roundQuotient (quotient * den) den = quotient := by
  simp [roundQuotient, Nat.mul_div_cancel _ h, h]

namespace Binary64

/-! ## Units of a magnitude -/

theorem units_of_lt {magnitude : Nat} (h : magnitude < 2 ^ 52) : units magnitude = magnitude := by
  simp only [units, Nat.shiftRight_eq_div_pow, Nat.one_shiftLeft, Nat.div_eq_of_lt h,
    Nat.mod_eq_of_lt h, if_true]

/-- From `2 ^ 52` on the units are the fraction with its leading bit, shifted by the exponent. -/
theorem units_of_le {magnitude : Nat} (h : 2 ^ 52 ≤ magnitude) :
    units magnitude = (2 ^ 52 + magnitude % 2 ^ 52) * 2 ^ (magnitude / 2 ^ 52 - 1) := by
  have hexponent : magnitude / 2 ^ 52 ≠ 0 := by omega
  simp only [units, Nat.shiftRight_eq_div_pow, Nat.shiftLeft_eq, Nat.one_mul, hexponent, if_false]

theorem log2_leading_mul {fraction : Nat} (h : fraction < 2 ^ 52) (shift : Nat) :
    Nat.log2 ((2 ^ 52 + fraction) * 2 ^ shift) = 52 + shift := by
  have hpos : 0 < 2 ^ shift := Nat.two_pow_pos shift
  have hne : (2 ^ 52 + fraction) * 2 ^ shift ≠ 0 := Nat.mul_ne_zero (by omega) hpos.ne'
  refine (Nat.log2_eq_iff hne).mpr ⟨?_, ?_⟩
  · rw [Nat.pow_add]
    exact Nat.mul_le_mul_right _ (Nat.le_add_right _ _)
  · rw [show 52 + shift + 1 = 53 + shift by omega, Nat.pow_add]
    exact Nat.mul_lt_mul_of_pos_right (by omega) hpos

/-- The spacing around a magnitude is read off the leading bit of its units. -/
theorem log2_units_sub (magnitude : Nat) :
    Nat.log2 (units magnitude) - 52 = magnitude / 2 ^ 52 - 1 := by
  rcases Nat.lt_or_ge magnitude (2 ^ 52) with hlt | hge
  · rw [units_of_lt hlt, Nat.div_eq_of_lt hlt]
    by_cases hzero : magnitude = 0
    · rw [hzero]
      rfl
    · have hlog : Nat.log2 magnitude < 52 := (Nat.log2_lt hzero).mpr hlt
      omega
  · have hfraction : magnitude % 2 ^ 52 < 2 ^ 52 := Nat.mod_lt _ (Nat.two_pow_pos 52)
    rw [units_of_le hge, log2_leading_mul hfraction]
    omega

/-! ## Rounding -/

/-- A whole number that a finite double counts exactly is rounded to that double. -/
theorem nearest_eq_of_units {num magnitude : Nat} (hunits : num * 2 ^ 1074 = units magnitude)
    (hfinite : magnitude < infinity) : nearest num 1 = magnitude := by
  have hround : (magnitude / 2 ^ 52 - 1) * 2 ^ 52 +
      roundQuotient (units magnitude) (2 ^ (magnitude / 2 ^ 52 - 1)) = magnitude := by
    rcases Nat.lt_or_ge magnitude (2 ^ 52) with hlt | hge
    · have hone := roundQuotient_mul magnitude Nat.one_pos
      rw [Nat.mul_one] at hone
      rw [units_of_lt hlt, Nat.div_eq_of_lt hlt, Nat.zero_sub, Nat.zero_mul, Nat.zero_add,
        Nat.pow_zero, hone]
    · rw [units_of_le hge, roundQuotient_mul _ (Nat.two_pow_pos _)]
      omega
  simp only [nearest, Nat.shiftLeft_eq, hunits, Nat.div_one, Nat.one_mul, log2_units_sub, hround]
  exact Nat.min_eq_right hfinite.le

theorem nearest_zero : nearest 0 1 = 0 := by decide +kernel

/-- The double nearest to the greatest integer of 64 signed bits is one more. -/
theorem ofInt_pred_two_pow : ofInt 0x7FFFFFFFFFFFFFFF = ofInt 0x8000000000000000 := by
  decide +kernel

/-! ## Integers -/

theorem shiftRight_mul_two_pow {n shift : Nat} (h : n % (1 <<< shift) = 0) :
    (n >>> shift) * 2 ^ shift = n := by
  rw [Nat.one_shiftLeft] at h
  rw [Nat.shiftRight_eq_div_pow]
  exact Nat.div_mul_cancel (Nat.dvd_of_mod_eq_zero h)

/-- A double that stands for an integer is finite and a whole number of ones with its sign. -/
theorem integer?_eq_some {x : Binary64} {i : Int} (h : x.integer? = some i) :
    x.magnitude < infinity ∧ ∃ size : Nat, size * 2 ^ 1074 = units x.magnitude ∧
      i = if x.negative then -(size : Int) else size := by
  rw [integer?, Option.ite_none_right_eq_some] at h
  obtain ⟨hexact, hi⟩ := h
  obtain ⟨hfinite, hwhole⟩ := Bool.and_eq_true_iff.mp hexact
  have hunits := shiftRight_mul_two_pow (eq_of_beq hwhole)
  exact ⟨of_decide_eq_true hfinite, _, hunits, (Option.some.inj hi).symm⟩

/-- A double that stands for an integer is the one nearest to it, up to the sign of zero. -/
theorem ofBinary64_ofInt {x : Binary64} {i : Int} (h : x.integer? = some i) :
    LinePoint.ofBinary64 (ofInt i) = .ofBinary64 x := by
  obtain ⟨hfinite, size, hunits, rfl⟩ := integer?_eq_some h
  have hnearest : nearest size 1 = x.magnitude := nearest_eq_of_units hunits hfinite
  simp only [LinePoint.ofBinary64, ofInt]
  cases hneg : x.negative with
  | false =>
      have hsign : ¬ (size : Int) < 0 := by omega
      simp [hnearest, hsign]
  | true =>
      rcases Nat.eq_zero_or_pos size with rfl | hpos
      · have hmagnitude : x.magnitude = 0 := by rw [← hnearest, nearest_zero]
        simp [hmagnitude, nearest_zero]
      · simp [hnearest, hpos.ne']

end Binary64

theorem LinePoint.ofBinary64_toBinary64 (p : LinePoint) : ofBinary64 p.toBinary64 = p := by
  simp only [ofBinary64, toBinary64]
  ext
  simp only [decide_eq_true_eq]
  split <;> omega

end ShapeInference
