import Mathlib.Algebra.Order.Field.Basic
import Mathlib.Data.Rat.Cast.Order
import Mathlib.Tactic.FieldSimp
import Mathlib.Tactic.NormNum
import Mathlib.Tactic.Positivity
import Mathlib.Tactic.Ring
import ShapeInference.Binary64.Shortest
import ShapeInference.Proofs.Binary64

/-!
# Decimals that round to a double

The numbers that round to a magnitude lie between the midpoints to its neighbours, so no number
rounds to two magnitudes. The shortest decimal of a magnitude is one of them, and magnitudes that
differ have shortest decimals of different values.

Main statements: `Binary64.RoundsTo.unique` and `Binary64.roundsTo_shortest`.
-/

namespace ShapeInference

/-- The number that a decimal stands for. -/
def Decimal.value (d : Decimal) : ℚ :=
  d.digits * 10 ^ d.exponent

namespace Binary64

/-! ## Magnitudes and their neighbours -/

theorem units_lt_succ (magnitude : Nat) : units magnitude < units (magnitude + 1) := by
  rcases Nat.lt_or_ge (magnitude + 1) (2 ^ 52) with hlt | hge
  · rw [units_of_lt hlt, units_of_lt (Nat.lt_of_succ_lt hlt)]
    omega
  rcases Nat.lt_or_ge magnitude (2 ^ 52) with hlt' | hge'
  · -- The least magnitude with a leading bit of its own.
    have heq : magnitude + 1 = 2 ^ 52 := by omega
    rw [units_of_lt hlt', units_of_le hge, heq]
    omega
  · have hpos : 0 < 2 ^ (magnitude / 2 ^ 52 - 1) := Nat.two_pow_pos _
    rw [units_of_le hge', units_of_le hge]
    by_cases hcarry : magnitude % 2 ^ 52 + 1 < 2 ^ 52
    · have hfraction : (magnitude + 1) % 2 ^ 52 = magnitude % 2 ^ 52 + 1 := by omega
      have hexponent : (magnitude + 1) / 2 ^ 52 = magnitude / 2 ^ 52 := by omega
      rw [hfraction, hexponent]
      apply Nat.mul_lt_mul_of_pos_right _ hpos
      omega
    · have hfraction : (magnitude + 1) % 2 ^ 52 = 0 := by omega
      have hexponent : (magnitude + 1) / 2 ^ 52 - 1 = magnitude / 2 ^ 52 - 1 + 1 := by omega
      have hbound : magnitude % 2 ^ 52 < 2 ^ 52 := Nat.mod_lt _ (Nat.two_pow_pos 52)
      calc (2 ^ 52 + magnitude % 2 ^ 52) * 2 ^ (magnitude / 2 ^ 52 - 1)
          < 2 ^ 53 * 2 ^ (magnitude / 2 ^ 52 - 1) := by
            apply Nat.mul_lt_mul_of_pos_right _ hpos
            omega
        _ = (2 ^ 52 + (magnitude + 1) % 2 ^ 52) * 2 ^ ((magnitude + 1) / 2 ^ 52 - 1) := by
            rw [hfraction, hexponent, Nat.pow_succ]
            ring

/-- Doubles are ordered as the numbers of units they stand for. -/
theorem units_strictMono : StrictMono units :=
  strictMono_nat_of_lt_succ units_lt_succ

/-- Twice the units at the midpoint between a magnitude and the next. -/
def midpoint (magnitude : Nat) : Nat :=
  units magnitude + units (magnitude + 1)

/-- The midpoints between neighbouring doubles are ordered as the doubles. -/
theorem midpoint_strictMono : StrictMono midpoint := by
  intro a b hlt
  exact Nat.add_lt_add (units_strictMono hlt) (units_strictMono (Nat.succ_lt_succ hlt))

/-- A number rounds to a positive magnitude: it lies between the midpoints to the neighbours, which
themselves round to an even magnitude. -/
structure RoundsTo (x : ℚ) (magnitude : Nat) : Prop where
  lower : midpoint (magnitude - 1) ≤ x * 2 ^ 1075
  upper : x * 2 ^ 1075 ≤ midpoint magnitude
  odd : magnitude % 2 = 1 →
    midpoint (magnitude - 1) < x * 2 ^ 1075 ∧ x * 2 ^ 1075 < midpoint magnitude

/-- A number that rounds to a magnitude rounds to no greater one. -/
theorem RoundsTo.le {x : ℚ} {a b : Nat} (ha : RoundsTo x a) (hb : RoundsTo x b) : b ≤ a := by
  by_contra hnot
  have hlt : a < b := by omega
  have hmid : midpoint a ≤ midpoint (b - 1) := by
    apply midpoint_strictMono.monotone
    omega
  have hle : (midpoint a : ℚ) ≤ midpoint (b - 1) := Nat.cast_le.mpr hmid
  have hupper := ha.upper
  have hlower := hb.lower
  have hsame : midpoint a = midpoint (b - 1) := by
    apply Nat.le_antisymm hmid
    rw [← Nat.cast_le (α := ℚ)]
    exact hlower.trans hupper
  have hnext : a = b - 1 := midpoint_strictMono.injective hsame
  -- Of two neighbours one is odd, and the midpoint between them does not round to it.
  rcases Nat.mod_two_eq_zero_or_one a with heven | hodd
  · have hstrict := (hb.odd (by omega)).1
    exact absurd (hstrict.trans_le hupper) (not_lt_of_ge hle)
  · have hstrict := (ha.odd hodd).2
    exact absurd (hlower.trans_lt hstrict) (not_lt_of_ge hle)

/-- No number rounds to two magnitudes. -/
theorem RoundsTo.unique {x : ℚ} {a b : Nat} (ha : RoundsTo x a) (hb : RoundsTo x b) : a = b :=
  Nat.le_antisymm (hb.le ha) (ha.le hb)

/-- What rounds to a positive double is positive. -/
theorem RoundsTo.pos {x : ℚ} {magnitude : Nat} (h : RoundsTo x magnitude)
    (hpos : 0 < magnitude) : 0 < x := by
  have hmid : 0 < midpoint (magnitude - 1) := by
    have hlt := units_strictMono (show magnitude - 1 < magnitude by omega)
    rw [midpoint, Nat.sub_add_cancel hpos]
    omega
  have hscaled : 0 < x * 2 ^ 1075 := lt_of_lt_of_le (Nat.cast_pos.mpr hmid) h.lower
  exact pos_of_mul_pos_left hscaled (by positivity)

/-! ## The shortest decimal -/

/-- Whether a multiple of a power of ten rounds to a magnitude, all scaled to whole numbers. -/
def isOnGrid (magnitude : Nat) (exponent : Int) (factor : Nat) : Bool :=
  let scale := Nat.pow 10 (-exponent).toNat
  let x := factor * (Nat.pow 10 exponent.toNat <<< 1075)
  let lower := (units (magnitude - 1) + units magnitude) * scale
  let upper := (units magnitude + units (magnitude + 1)) * scale
  if magnitude % 2 = 0 then decide (lower ≤ x ∧ x ≤ upper) else decide (lower < x ∧ x < upper)

theorem roundQuotient_eq_or (num den : Nat) :
    roundQuotient num den = num / den ∨ roundQuotient num den = num / den + 1 := by
  simp only [roundQuotient]
  split
  · exact .inl rfl
  split
  · exact .inr rfl
  split
  · exact .inl rfl
  · exact .inr rfl

theorem isOnGrid_of_onGrid? {magnitude : Nat} {exponent : Int} {factor : Nat}
    (h : onGrid? magnitude exponent = some factor) : isOnGrid magnitude exponent factor = true := by
  rw [onGrid?] at h
  split at h
  · rename_i hbelow habove
    obtain rfl := Option.some.inj h
    rcases roundQuotient_eq_or (2 * units magnitude * Nat.pow 10 (-exponent).toNat)
      (Nat.pow 10 exponent.toNat <<< 1075) with heq | heq
    · rw [heq]
      exact hbelow
    · rw [heq]
      exact habove
  · rename_i hbelow _
    obtain rfl := Option.some.inj h
    exact hbelow
  · rename_i _ habove
    obtain rfl := Option.some.inj h
    exact habove
  · contradiction

/-- A power of ten as a quotient of two whole ones. -/
theorem ten_zpow_mul (exponent : Int) :
    (10 : ℚ) ^ exponent * 10 ^ (-exponent).toNat = 10 ^ exponent.toNat := by
  have hdifference : exponent = (exponent.toNat : Int) - (-exponent).toNat := by omega
  have hne : (10 : ℚ) ^ (-exponent).toNat ≠ 0 := by positivity
  calc (10 : ℚ) ^ exponent * 10 ^ (-exponent).toNat
      = 10 ^ ((exponent.toNat : Int) - (-exponent).toNat) * 10 ^ (-exponent).toNat := by
        rw [← hdifference]
    _ = 10 ^ exponent.toNat := by
        rw [zpow_sub₀ (by norm_num), zpow_natCast, zpow_natCast, div_mul_cancel₀ _ hne]

/-- A multiple of a power of ten, scaled to a whole number. -/
theorem grid_mul_eq (factor : Nat) (exponent : Int) (shift : Nat) :
    factor * (10 : ℚ) ^ exponent * (2 : ℚ) ^ shift * (10 : ℚ) ^ (-exponent).toNat =
      ((factor * (Nat.pow 10 exponent.toNat <<< shift) : Nat) : ℚ) := by
  rw [Nat.shiftLeft_eq, Nat.cast_mul, Nat.cast_mul, Nat.cast_pow, Nat.pow_eq, Nat.cast_pow,
    Nat.cast_ofNat, Nat.cast_ofNat, ← ten_zpow_mul exponent]
  ring

/-- The number that is tried at one exponent rounds to the double it was tried for. -/
theorem roundsTo_of_isOnGrid {magnitude : Nat} (hpos : 0 < magnitude) {exponent : Int}
    {factor : Nat} (h : isOnGrid magnitude exponent factor = true) :
    RoundsTo (factor * 10 ^ exponent) magnitude := by
  have hscale : (0 : ℚ) < 10 ^ (-exponent).toNat := by positivity
  have hgrid := grid_mul_eq factor exponent 1075
  have hlower : units (magnitude - 1) + units magnitude = midpoint (magnitude - 1) := by
    rw [midpoint, Nat.sub_add_cancel hpos]
  have hupper : units magnitude + units (magnitude + 1) = midpoint magnitude := rfl
  simp only [isOnGrid, hlower, hupper] at h
  generalize factor * (Nat.pow 10 exponent.toNat <<< 1075) = x at h hgrid
  have hcast : ∀ n : Nat, ((n * Nat.pow 10 (-exponent).toNat : Nat) : ℚ) =
      n * 10 ^ (-exponent).toNat := by
    intro n
    rw [Nat.cast_mul, Nat.pow_eq, Nat.cast_pow, Nat.cast_ofNat]
  split at h
  · rename_i heven
    obtain ⟨hle, hge⟩ := of_decide_eq_true h
    refine ⟨?_, ?_, fun hodd => absurd hodd (by omega)⟩
    · rw [← mul_le_mul_iff_left₀ hscale, hgrid, ← hcast]
      exact Nat.cast_le.mpr hle
    · rw [← mul_le_mul_iff_left₀ hscale, hgrid, ← hcast]
      exact Nat.cast_le.mpr hge
  · obtain ⟨hlt, hgt⟩ := of_decide_eq_true h
    have hlt' : (midpoint (magnitude - 1) : ℚ) < factor * 10 ^ exponent * 2 ^ 1075 := by
      rw [← mul_lt_mul_iff_left₀ hscale, hgrid, ← hcast]
      exact Nat.cast_lt.mpr hlt
    have hgt' : factor * (10 : ℚ) ^ exponent * 2 ^ 1075 < midpoint magnitude := by
      rw [← mul_lt_mul_iff_left₀ hscale, hgrid, ← hcast]
      exact Nat.cast_lt.mpr hgt
    exact ⟨hlt'.le, hgt'.le, fun _ => ⟨hlt', hgt'⟩⟩

/-- A whole number of parts by a power of two, written with as many decimals. -/
theorem expansion_value {count digits places shift : Nat} {exponent : Int}
    (hdigits : digits = count * Nat.pow 5 places) (hexponent : exponent = -places)
    (hshift : shift = places + 1) :
    Decimal.value ⟨digits, exponent⟩ * 2 ^ shift = 2 * count := by
  have hten : (10 : ℚ) ^ places = 5 ^ places * 2 ^ places := by
    rw [← mul_pow]
    norm_num
  have hfive : (5 : ℚ) ^ places ≠ 0 := by positivity
  have htwo : (2 : ℚ) ^ places ≠ 0 := by positivity
  rw [Decimal.value, hdigits, hexponent, hshift, Nat.pow_eq, Nat.cast_mul, Nat.cast_pow,
    Nat.cast_ofNat, zpow_neg, zpow_natCast, hten, pow_succ]
  field_simp

/-- A number of just as many units rounds to the magnitude. -/
theorem roundsTo_of_mul_eq {magnitude : Nat} (hpos : 0 < magnitude) {x : ℚ}
    (hx : x * 2 ^ 1075 = 2 * units magnitude) : RoundsTo x magnitude := by
  have hbefore := units_strictMono (show magnitude - 1 < magnitude by omega)
  have hafter := units_lt_succ magnitude
  have hlower : (midpoint (magnitude - 1) : ℚ) < 2 * units magnitude := by
    rw [midpoint, Nat.sub_add_cancel hpos]
    exact_mod_cast (by omega : units (magnitude - 1) + units magnitude < 2 * units magnitude)
  have hupper : 2 * (units magnitude : ℚ) < midpoint magnitude := by
    rw [midpoint]
    exact_mod_cast (by omega : 2 * units magnitude < units magnitude + units (magnitude + 1))
  rw [← hx] at hlower hupper
  exact ⟨hlower.le, hupper.le, fun _ => ⟨hlower, hupper⟩⟩

/-- The shortest decimal of a positive magnitude rounds to it. -/
theorem roundsTo_shortest {magnitude : Nat} (hpos : 0 < magnitude) :
    RoundsTo (shortest magnitude).value magnitude := by
  rw [shortest]
  cases hfound : (List.range 634).findSome? fun i : Nat =>
      (onGrid? magnitude ((309 : Int) - i)).map fun digits => (⟨digits, (309 : Int) - i⟩ : Decimal)
    with
  | none => exact roundsTo_of_mul_eq hpos (expansion_value rfl rfl rfl)
  | some d =>
      obtain ⟨i, -, hd⟩ := List.exists_of_findSome?_eq_some hfound
      obtain ⟨digits, hgrid, rfl⟩ := Option.map_eq_some_iff.mp hd
      exact roundsTo_of_isOnGrid hpos (isOnGrid_of_onGrid? hgrid)

end Binary64

end ShapeInference
