/-!
# Double-precision numbers

A double is kept as its sign and the remaining 63 bits of its standard encoding. Every finite
magnitude is a whole number of units of `2^-1074`, so rounding and printing need only natural
number arithmetic.

`Binary64.nearest` rounds a quotient to the nearest magnitude, ties to even, and so do the product
and the quotient of two magnitudes. A `LinePoint` is a double up to the sign of zero: equal points
are equal as numbers, and their order is that of the integers that name them.
-/

namespace ShapeInference

/-- A double: its sign, and the exponent and fraction bits read together as one number.
Magnitudes grow with that number. -/
structure Binary64 where
  negative : Bool
  magnitude : Nat
deriving DecidableEq, Repr

/-- The quotient nearest to `num / den`, an exact half going to the even neighbour. -/
def roundQuotient (num den : Nat) : Nat :=
  let quotient := num / den
  let remainder := num % den
  if 2 * remainder < den then quotient
  else if den < 2 * remainder then quotient + 1
  else if quotient % 2 = 0 then quotient
  else quotient + 1

namespace Binary64

/-- The magnitude of infinity. Finite magnitudes lie below it. -/
def infinity : Nat := 0x7FF0000000000000

/-- How many units of `2^-1074` a magnitude amounts to. -/
def units (magnitude : Nat) : Nat :=
  let exponent := magnitude >>> 52
  let fraction := magnitude % (1 <<< 52)
  if exponent = 0 then fraction else ((1 <<< 52) + fraction) <<< (exponent - 1)

/-- The magnitude nearest to `num / den`. Numbers with the same leading bit share one spacing
`2^shift` of units, and a quotient rounded up to the next power of two is that power. -/
def nearest (num den : Nat) : Nat :=
  let scaled := num <<< 1074
  let shift := Nat.log2 (scaled / den) - 52
  min infinity ((shift <<< 52) + roundQuotient scaled (den <<< shift))

/-- The magnitude nearest to the product of two others. -/
def product (a b : Nat) : Nat :=
  nearest (units a * units b) (1 <<< 2148)

/-- The magnitude nearest to the quotient of two others. -/
def quotient (a b : Nat) : Nat :=
  nearest (units a) (units b)

/-- The magnitude nearest to a power of ten. -/
def powerOfTen (exponent : Nat) : Nat :=
  nearest (Nat.pow 10 exponent) 1

/-- A magnitude times a power of ten, or divided by it where the exponent is negative, each step in
the arithmetic of doubles. Powers beyond the greatest finite one divide in several steps. The result
need not be the double nearest to the exact number. -/
def scaleByTen (magnitude : Nat) (exponent : Int) : Nat :=
  if exponent.natAbs ≤ 308 then
    if 0 ≤ exponent then product magnitude (powerOfTen exponent.natAbs)
    else quotient magnitude (powerOfTen exponent.natAbs)
  else if magnitude = 0 then 0
  else if 0 ≤ exponent then infinity
  else scaleByTen (quotient magnitude (powerOfTen 308)) (exponent + 308)
termination_by exponent.natAbs

/-- The double nearest to an integer. -/
def ofInt (i : Int) : Binary64 :=
  ⟨decide (i < 0), nearest i.natAbs 1⟩

/-- Neither infinite nor undefined. -/
def isFinite (x : Binary64) : Bool :=
  decide (x.magnitude < infinity)

/-- The integer that a finite double without a fraction stands for. -/
def integer? (x : Binary64) : Option Int :=
  if x.isFinite && units x.magnitude % (1 <<< 1074) == 0 then
    let size : Int := (units x.magnitude >>> 1074 : Nat)
    some (if x.negative then -size else size)
  else none

end Binary64

/-- A double up to the sign of zero, named by its place on the number line: zero is at `0`, the
least positive double at `1`, its opposite at `-1`. -/
@[ext]
structure LinePoint where
  place : Int
deriving DecidableEq, Repr

namespace LinePoint

/-- The place of a double. Both zeros are at the same place. -/
def ofBinary64 (x : Binary64) : LinePoint :=
  ⟨if x.negative then -(x.magnitude : Int) else x.magnitude⟩

/-- The double at a place, positive for zero. -/
def toBinary64 (p : LinePoint) : Binary64 :=
  ⟨decide (p.place < 0), p.place.natAbs⟩

/-- The origin. -/
def zero : LinePoint := ⟨0⟩

/-- Neither infinite nor undefined. -/
def isFinite (p : LinePoint) : Bool := p.toBinary64.isFinite

end LinePoint

end ShapeInference
