/-!
# Binary floating-point numbers

A floating-point number is its bit pattern.  Everything else is read off the pattern in exact
arithmetic: the sign, the magnitude, an integer key for comparison and the rational value.  Every
finite number is a whole multiple of one smallest positive number, so operations work on whole
numbers of such units: they compute the exact result as a fraction of units and round it once, to
the nearest representable number with ties to the even pattern.
-/

namespace SpatialIndex

/-- Division rounded to the nearest whole number, a half going to the even neighbour. -/
def roundHalfEven (num den : Nat) : Nat :=
  let quotient := num / den
  let twice := 2 * (num % den)
  if twice < den ∨ twice = den ∧ quotient % 2 = 0 then quotient else quotient + 1

/-- A binary interchange format: a sign bit, an exponent field, and a fraction field whose
leading bit is not stored. -/
structure Format where
  /-- The significant bits, the one that is not stored included. -/
  precision : Nat
  /-- The bits of the exponent field. -/
  exponentBits : Nat

namespace Format

/-- The 32-bit format. -/
def single : Format := ⟨24, 8⟩

/-- The 64-bit format. -/
def double : Format := ⟨53, 11⟩

variable (f : Format)

/-- The bits of a pattern: sign, exponent field and fraction field. -/
def width : Nat := f.precision + f.exponentBits

/-- How many fraction fields there are. -/
def fractions : Nat := Nat.pow 2 (f.precision - 1)

/-- The sign bit as a number. -/
def signBit : Nat := Nat.pow 2 (f.width - 1)

/-- The leading bit of the fraction field as a number; a NaN with this bit is quiet. -/
def quietBit : Nat := Nat.pow 2 (f.precision - 2)

/-- The bits below the sign of infinity; finite numbers lie below it and NaNs above. -/
def infinity : Nat := (Nat.pow 2 f.exponentBits - 1) * f.fractions

/-- Every finite number is a whole multiple of `2 ^ (-scale)`, the smallest positive one. -/
def scale : Nat := Nat.pow 2 (f.exponentBits - 1) + f.precision - 3

/-- The value of a pattern without its sign, counted in multiples of `2 ^ (-scale)`. -/
def units (magnitude : Nat) : Nat :=
  let exponent := magnitude / f.fractions
  let fraction := magnitude % f.fractions
  if exponent = 0 then fraction else (f.fractions + fraction) * Nat.pow 2 (exponent - 1)

/-- The pattern without a sign nearest to `num / den` units; what rounds beyond the largest
finite number is infinite. -/
def nearest (num den : Nat) : Nat :=
  let shift := (num / den).log2 + 1 - f.precision
  min (roundHalfEven num (den * Nat.pow 2 shift) + shift * f.fractions) f.infinity

end Format

/-- A floating-point number of the given format, as its bit pattern.  Equal means the same bits;
numeric comparison is `Binary.equiv`, `Binary.lt` and `Binary.le`. -/
structure Binary (f : Format) where
  /-- The pattern, sign bit first. -/
  bits : BitVec f.width
deriving DecidableEq

/-- Numbers of the 32-bit format, in which boxes are kept. -/
abbrev Single := Binary .single

/-- Numbers of the 64-bit format, in which coordinates and column values are kept. -/
abbrev Double := Binary .double

namespace Binary

variable {f : Format}

/-! ## Reading a pattern -/

/-- The sign bit is set; zeros and NaNs have a sign too. -/
@[inline]
def negative (x : Binary f) : Bool := x.bits.msb

/-- The bits below the sign. -/
@[inline]
def magnitude (x : Binary f) : Nat := x.bits.toNat % f.signBit

/-- The pattern with a given sign and given bits below it. -/
def ofMagnitude (negative : Bool) (magnitude : Nat) : Binary f :=
  ⟨BitVec.ofNat _ (if negative then f.signBit + magnitude else magnitude)⟩

/-- No number at all. -/
@[inline]
def isNaN (x : Binary f) : Bool := f.infinity < x.magnitude

/-- Neither infinite nor NaN. -/
@[inline]
def isFinite (x : Binary f) : Bool := x.magnitude < f.infinity

/-- Infinite, of either sign. -/
@[inline]
def isInfinite (x : Binary f) : Bool := x.magnitude = f.infinity

/-- Zero, of either sign. -/
@[inline]
def isZero (x : Binary f) : Bool := x.magnitude = 0

/-- Positive zero. -/
def zero : Binary f := ofMagnitude false 0

/-- The infinity of the given sign. -/
def infinite (negative : Bool) : Binary f := ofMagnitude negative f.infinity

/-- The quiet NaN of the given sign. -/
def nan (negative : Bool) : Binary f :=
  ofMagnitude negative (f.infinity + f.quietBit)

/-- The absolute value, counted in multiples of `2 ^ (-scale)`.  Infinity reads as the first power
of two beyond the finite numbers. -/
def absUnits (x : Binary f) : Nat := f.units x.magnitude

/-- The value with its sign, counted in multiples of `2 ^ (-scale)`. -/
def units (x : Binary f) : Int := if x.negative then -(x.absUnits : Int) else x.absUnits

/-- The rational number that a pattern stands for. -/
def toRat (x : Binary f) : Rat := mkRat x.units (Nat.pow 2 f.scale)

/-! ## Comparison -/

/-- Among patterns that are not NaN the numeric order is the order of the keys; both zeros have
the key zero. -/
@[inline]
def key (x : Binary f) : Int := if x.negative then -(x.magnitude : Int) else x.magnitude

/-- Numeric `<`, false when either side is NaN. -/
@[inline]
def lt (x y : Binary f) : Bool := !x.isNaN && !y.isNaN && x.key < y.key

/-- Numeric `≤`, false when either side is NaN. -/
@[inline]
def le (x y : Binary f) : Bool := !x.isNaN && !y.isNaN && x.key ≤ y.key

/-- Numeric equality: the zeros are equal, and NaN differs from everything. -/
@[inline]
def equiv (x y : Binary f) : Bool := !x.isNaN && !y.isNaN && x.key = y.key

/-- Numeric order, or nothing when either side is NaN. -/
def compare? (x y : Binary f) : Option Ordering :=
  if x.isNaN || y.isNaN then none else some (compare x.key y.key)

/-- The key of the total order on patterns, which parts the zeros and puts NaNs of either sign
at the ends. -/
@[inline]
def totalKey (x : Binary f) : Int := if x.negative then -(x.magnitude : Int) - 1 else x.magnitude

/-- The lesser of two numbers; a NaN gives way to the other one, and of two equal numbers the
second is taken, so that the last zero of a fold sets the sign. -/
@[inline]
def min (x y : Binary f) : Binary f := if x.isNaN || y.le x then y else x

/-- The greater of two numbers; a NaN gives way to the other one, and of two equal numbers the
second is taken. -/
@[inline]
def max (x y : Binary f) : Binary f := if x.isNaN || x.le y then y else x

/-! ## Rounding -/

/-- The number of the given sign whose absolute value is nearest to `num / den` units. -/
def nearest (negative : Bool) (num den : Nat) : Binary f := ofMagnitude negative (f.nearest num den)

/-- The number of the given sign nearest to the absolute value of `q`. -/
def ofRat (negative : Bool) (q : Rat) : Binary f :=
  nearest negative (q.num.natAbs * Nat.pow 2 f.scale) q.den

/-- The number nearest to a whole number; zero is positive. -/
def ofInt (n : Int) : Binary f := nearest (n < 0) (n.natAbs * Nat.pow 2 f.scale) 1

/-- The number of another format nearest to `x`. -/
def convert (g : Format) (x : Binary f) : Binary g :=
  if x.isNaN then nan x.negative
  else if x.isInfinite then infinite x.negative
  else nearest x.negative (x.absUnits * Nat.pow 2 g.scale) (Nat.pow 2 f.scale)

/-- The least number above `x`; NaN and positive infinity stay. -/
def nextUp (x : Binary f) : Binary f :=
  if x.isNaN then x
  else if x.isZero then ofMagnitude false 1
  else if x.negative then ofMagnitude true (x.magnitude - 1)
  else if x.isInfinite then x
  else ofMagnitude false (x.magnitude + 1)

/-- The greatest number below `x`; NaN and negative infinity stay. -/
def nextDown (x : Binary f) : Binary f :=
  if x.isNaN then x
  else if x.isZero then ofMagnitude true 1
  else if !x.negative then ofMagnitude false (x.magnitude - 1)
  else if x.isInfinite then x
  else ofMagnitude true (x.magnitude + 1)

/-- The greatest number of another format that is not above `x`: the nearest one, or the one
before it if that is above. -/
def roundDown (g : Format) (x : Binary f) : Binary g :=
  let nearest := x.convert g
  if x.lt (nearest.convert f) then nearest.nextDown else nearest

/-- The least number of another format that is not below `x`: the nearest one, or the one after
it if that is below. -/
def roundUp (g : Format) (x : Binary f) : Binary g :=
  let nearest := x.convert g
  if (nearest.convert f).lt x then nearest.nextUp else nearest

/-! ## Arithmetic -/

/-- The same number with the other sign. -/
def neg (x : Binary f) : Binary f := ofMagnitude (!x.negative) x.magnitude

/-- What an operation without a result gives. -/
def invalid : Binary f := nan true

/-- A NaN marked as quiet. -/
def quiet (x : Binary f) : Binary f :=
  ofMagnitude x.negative (x.magnitude ||| f.quietBit)

/-- The first NaN among the operands, or the given result when there is none. -/
def orNaN (x y result : Binary f) : Binary f :=
  if x.isNaN then x.quiet else if y.isNaN then y.quiet else result

/-- The rounded sum.  A sum of zero is negative only when both summands are. -/
def add (x y : Binary f) : Binary f :=
  orNaN x y <|
    if x.isInfinite then (if y.isInfinite && x.negative != y.negative then invalid else x)
    else if y.isInfinite then y
    else
      let sum := x.units + y.units
      nearest (sum < 0 || sum == 0 && x.negative && y.negative) sum.natAbs 1

/-- The rounded difference. -/
def sub (x y : Binary f) : Binary f := x.add y.neg

/-- The rounded product. -/
def mul (x y : Binary f) : Binary f :=
  orNaN x y <|
    let negative := x.negative != y.negative
    if x.isInfinite || y.isInfinite then
      (if x.isZero || y.isZero then invalid else infinite negative)
    else nearest negative (x.absUnits * y.absUnits) (Nat.pow 2 f.scale)

/-- The rounded quotient. -/
def div (x y : Binary f) : Binary f :=
  orNaN x y <|
    let negative := x.negative != y.negative
    if x.isInfinite then (if y.isInfinite then invalid else infinite negative)
    else if y.isInfinite then ofMagnitude negative 0
    else if y.isZero then (if x.isZero then invalid else infinite negative)
    else nearest negative (x.absUnits * Nat.pow 2 f.scale) y.absUnits

end Binary

end SpatialIndex
