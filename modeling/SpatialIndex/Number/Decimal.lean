import SpatialIndex.Number.Binary

/-!
# Decimal text of floating-point numbers

A number is written with the fewest digits that read back as the same number.  The reals that
round to a number form an interval around it; the digits are a point of the coarsest decimal grid
that has a point in this interval, the nearest to the number if two have, and the upper one in a
tie.  Two layouts place the same digits.
-/

namespace SpatialIndex

/-- The number `digits * 10 ^ exponent`. -/
structure Decimal where
  /-- The significant digits as one number. -/
  digits : Nat
  /-- The power of ten of the last digit. -/
  exponent : Int
deriving DecidableEq

namespace Decimal

/-- The rational number that a decimal stands for. -/
def toRat (d : Decimal) : Rat :=
  mkRat ((d.digits * Nat.pow 10 d.exponent.toNat : Nat) : Int) (Nat.pow 10 (-d.exponent).toNat)

/-- The number of decimal digits of `n`, none for zero. -/
def width (n : Nat) : Nat := if n = 0 then 0 else (Nat.toDigits 10 n).length

/-- The power of ten of the leading digit of `num / den`, for a positive fraction. -/
def leadingExponent (num den : Nat) : Int :=
  if den ≤ num then (width (num / den) : Int) - 1 else -(width ((den - 1) / num) : Int)

/-- The reals that round to a positive number: from the middle between its lower neighbour and
itself to the middle between itself and its upper neighbour, as fractions over `den`.  The ends
belong to it when its pattern is even. -/
structure Interval where
  /-- The lower end. -/
  low : Nat
  /-- The number itself. -/
  value : Nat
  /-- The upper end. -/
  high : Nat
  /-- The common denominator. -/
  den : Nat
  /-- The ends round to the number. -/
  closed : Bool

namespace Interval

/-- The interval of the pattern without a sign `magnitude`. -/
def ofMagnitude (f : Format) (magnitude : Nat) : Interval where
  low := f.units (magnitude - 1) + f.units magnitude
  value := 2 * f.units magnitude
  high := f.units magnitude + f.units (magnitude + 1)
  den := Nat.pow 2 (f.scale + 1)
  closed := magnitude % 2 = 0

/-- The point of the grid of multiples of `10 ^ exponent` that lies in the interval next to its
number, if one of the two neighbours does. -/
def gridPoint? (i : Interval) (exponent : Int) : Option Nat :=
  let scale := Nat.pow 10 (-exponent).toNat
  let step := i.den * Nat.pow 10 exponent.toNat
  let below := i.value * scale / step
  let within (point : Nat) : Bool :=
    if i.closed then i.low * scale ≤ point * step && point * step ≤ i.high * scale
    else i.low * scale < point * step && point * step < i.high * scale
  match within below, within (below + 1) with
  | true, true => some (if 2 * (i.value * scale - below * step) < step then below else below + 1)
  | true, false => some below
  | false, true => some (below + 1)
  | false, false => none

/-- The point on the coarsest grid that has one, searched from `10 ^ exponent` downwards through
at most `fuel` grids. -/
def shortest (i : Interval) : Nat → Int → Decimal
  | 0, exponent => ⟨i.value * Nat.pow 10 (-exponent).toNat / i.den, exponent⟩
  | fuel + 1, exponent =>
    match i.gridPoint? exponent with
    | some digits => ⟨digits, exponent⟩
    | none => i.shortest fuel (exponent - 1)

end Interval

/-- The fewest digits that read back as `x`, which is finite and not zero.  As many digits as the
format has significant bits always suffice.  Only a one-digit candidate can round up to ten, so
one trailing nought is all there is to remove. -/
def shortest {f : Format} (x : Binary f) : Decimal :=
  let i := Interval.ofMagnitude f x.magnitude
  let d := i.shortest f.precision (leadingExponent i.value i.den)
  if d.digits % 10 = 0 then ⟨d.digits / 10, d.exponent + 1⟩ else d

/-- How digits are placed. -/
structure Layout where
  /-- Whole numbers are written with `.0`. -/
  fraction : Bool
  /-- The powers of ten of the leading digit for which no exponent is written, or all. -/
  positional : Option (Int × Int)

/-- No exponent and no needless fraction, as numbers appear in values and boxes. -/
def Layout.plain : Layout := ⟨false, none⟩

/-- Marked as fractional, and with an exponent when the number is very small or very large, as
numbers appear in descriptions of records. -/
def Layout.detailed : Layout := ⟨true, some (-4, 15)⟩

/-- Digits with the decimal point where it belongs. -/
def positionalText (fraction : Bool) (d : Decimal) : String :=
  let digits := Nat.toDigits 10 d.digits
  if 0 ≤ d.exponent then
    String.ofList (digits ++ List.replicate d.exponent.toNat '0') ++ (if fraction then ".0" else "")
  else
    let places := (-d.exponent).toNat
    let padded := List.replicate (places + 1 - digits.length) '0' ++ digits
    let whole := padded.length - places
    String.ofList (padded.take whole ++ '.' :: padded.drop whole)

/-- Digits with a point after the first one, followed by the exponent. -/
def exponentText (d : Decimal) : String :=
  let digits := Nat.toDigits 10 d.digits
  let leading := d.exponent + digits.length - 1
  let tail := digits.drop 1
  String.ofList (digits.take 1 ++ (if tail.isEmpty then [] else '.' :: tail)) ++ "e" ++
    toString leading

/-- The text of a decimal in a layout. -/
def text (layout : Layout) (d : Decimal) : String :=
  let leading := d.exponent + (width d.digits : Int) - 1
  match layout.positional with
  | none => positionalText layout.fraction d
  | some (least, greatest) =>
    if least ≤ leading ∧ leading ≤ greatest then positionalText layout.fraction d
    else exponentText d

end Decimal

namespace Binary

variable {f : Format}

/-- The number of the given sign nearest to a decimal. -/
def ofDecimal (negative : Bool) (d : Decimal) : Binary f := ofRat negative d.toRat

/-- The text of a number in a layout.  The sign of a zero is written, the sign of a NaN is not. -/
def text (layout : Decimal.Layout) (x : Binary f) : String :=
  if x.isNaN then "NaN"
  else
    let sign := if x.negative then "-" else ""
    if x.isInfinite then sign ++ "inf"
    else if x.isZero then sign ++ (if layout.fraction then "0.0" else "0")
    else sign ++ (Decimal.shortest x).text layout

/-- The text of a number as values and boxes show it. -/
def plainText (x : Binary f) : String := x.text .plain

end Binary

end SpatialIndex
