import ShapeInference.Binary64

/-!
# Shortest decimals

The decimal of fewest digits that rounds to a given double, and among those the nearest to it.
The reals that round to a magnitude form an interval around it, which contains its ends exactly
when the magnitude is even. The coarsest power of ten with a multiple inside that interval gives
the fewest digits.
-/

namespace ShapeInference

/-- The number `digits * 10 ^ exponent`. -/
structure Decimal where
  digits : Nat
  exponent : Int
deriving DecidableEq, Repr

namespace Binary64

/-- The multiple of `10 ^ exponent` nearest to a positive magnitude among those that round to it,
by its factor. Everything is counted in half units and scaled to whole numbers, and only the two
multiples around the magnitude can be nearest. -/
def onGrid? (magnitude : Nat) (exponent : Int) : Option Nat :=
  let scale := Nat.pow 10 (-exponent).toNat
  let step := Nat.pow 10 exponent.toNat <<< 1075
  let value := units magnitude
  let lower := (units (magnitude - 1) + value) * scale
  let middle := 2 * value * scale
  let upper := (value + units (magnitude + 1)) * scale
  let inside (factor : Nat) : Bool :=
    let x := factor * step
    if magnitude % 2 = 0 then decide (lower ≤ x ∧ x ≤ upper) else decide (lower < x ∧ x < upper)
  let below := middle / step
  match inside below, inside (below + 1) with
  | true, true => some (roundQuotient middle step)
  | true, false => some below
  | false, true => some (below + 1)
  | false, false => none

/-- The shortest decimal of a positive finite magnitude. The grids are tried from coarse to fine;
the exact expansion stands for a magnitude that none of them meets. -/
def shortest (magnitude : Nat) : Decimal :=
  let found := (List.range 634).findSome? fun i : Nat =>
    let exponent := (309 : Int) - i
    (onGrid? magnitude exponent).map fun digits => ⟨digits, exponent⟩
  found.getD ⟨units magnitude * Nat.pow 5 1074, -1074⟩

end Binary64

end ShapeInference
