import TemplateLowering.Number.Ratio

/-!
# Shortest decimals

`Binary64.shortest` gives a finite number as a decimal with as few digits as possible, among the
decimals that are nearer to it than to any other number.  Of those with the fewest digits it is the
nearest one.
-/

namespace TemplateLowering

/-- The decimal `digits * 10 ^ exponent`. -/
structure Decimal where
  digits : Nat
  exponent : Int
deriving DecidableEq, Inhabited, Repr

namespace Binary64

/-- A fraction of natural numbers times a power of ten, the power moved into one of them. -/
def scaleByTen (num den : Nat) (exponent : Int) : Nat × Nat :=
  if 0 ≤ exponent then (num * Nat.pow 10 exponent.toNat, den)
  else (num, den * Nat.pow 10 (-exponent).toNat)

/-- The greatest power of ten that is at most `num / den`. -/
def floorLog10 (num den : Nat) : Int :=
  if den ≤ num then
    ((Nat.toDigits 10 (num / den)).length : Int) - 1
  else
    let size := (Nat.toDigits 10 (den / num)).length
    if den = num * Nat.pow 10 (size - 1) then 1 - (size : Int) else -(size : Int)

/-- The decimals that are read as a number, in quarters of its last place: the lowest, the highest,
and whether the two belong to them. -/
structure Rounding where
  low : Nat
  high : Nat
  closed : Bool

def rounding (x : Binary64) : Rounding :=
  let m := x.significand
  { low := if m = fractionSize ∧ 0 < x.shift then 4 * m - 1 else 4 * m - 2
    high := 4 * m + 2
    closed := m % 2 = 0 }

/-- Whether a decimal is read as the number. -/
def covers (x : Binary64) (d : Decimal) : Bool :=
  let bounds := x.rounding
  let (num, den) := scaleByTen d.digits 1 d.exponent
  let decimal := num <<< 1076
  let low := bounds.low <<< x.shift * den
  let high := bounds.high <<< x.shift * den
  if bounds.closed then low ≤ decimal && decimal ≤ high else low < decimal && decimal < high

/-- The nearest of the two decimals around a number that have a given exponent, among those that are
read as the number. -/
def decimalAt? (x : Binary64) (exponent : Int) : Option Decimal :=
  let (a, b) := x.toRatio
  let (num, den) := scaleByTen a b (-exponent)
  let below : Decimal := { digits := num / den, exponent }
  let above : Decimal := { digits := num / den + 1, exponent }
  let nearest := if roundDiv num den = below.digits then below else above
  [nearest, below, above].find? x.covers

/-- Tries the exponents from `exponent` downwards. -/
def shortestFrom (x : Binary64) : Nat → Int → Decimal
  | 0, exponent =>
      let (a, b) := x.toRatio
      let (num, den) := scaleByTen a b (-exponent)
      { digits := roundDiv num den, exponent }
  | tries + 1, exponent =>
      match x.decimalAt? exponent with
      | some decimal => decimal
      | none => x.shortestFrom tries (exponent - 1)

/-- The shortest decimal of the absolute value of a finite number other than zero; seventeen digits
are always enough. -/
def shortest (x : Binary64) : Decimal :=
  let (num, den) := x.toRatio
  x.shortestFrom 16 (floorLog10 num den)

end Binary64
end TemplateLowering
