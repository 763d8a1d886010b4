import TemplateLowering.Json.Basic
import TemplateLowering.Number.Shortest

/-!
# Floating point numbers in JSON

A number is read from the digits that fit into 64 bits: whole digits that do not fit only count, and
further digits of the fraction are dropped.  The power of ten is applied by one multiplication or
division, each rounded, so the result may be one unit off the nearest number.

A number is written with the fewest digits that are read back, and always with a fraction or an
exponent.
-/

namespace TemplateLowering.JsonNumber

/-! ## Reading -/

/-- Adds digits to a significand as long as it stays below `2 ^ 64`; the digits that are left
follow. -/
def absorb (significand : Nat) : List Char → Nat × List Char
  | [] => (significand, [])
  | c :: digits =>
      let next := 10 * significand + (c.toNat - '0'.toNat)
      if next < UInt64.size then absorb next digits else (significand, c :: digits)

/-- Applies a power of ten; there is no result when it is too great. -/
def scale? (significand : Nat) (exponent : Int) : Option Binary64 :=
  let x := Binary64.ofNat significand
  if significand = 0 then some x
  else if 308 < exponent then none
  else if 0 ≤ exponent then
    let result := x.mul (.powerOfTen exponent.toNat)
    if result.isFinite then some result else none
  else if -308 ≤ exponent then some (x.div (.powerOfTen (-exponent).toNat))
  else if -616 ≤ exponent then
    some ((x.div (.powerOfTen 308)).div (.powerOfTen (-exponent - 308).toNat))
  else some .zero

def writtenExponent (n : JsonNumber) : Int :=
  match n.exponent with
  | none => 0
  | some (true, digits) => -(digitsValue digits : Int)
  | some (false, digits) => digitsValue digits

/-- The floating point number that a number stands for. -/
def toBinary64? (n : JsonNumber) : Option Binary64 :=
  let (whole, skipped) := absorb 0 n.whole
  let (significand, dropped) := absorb whole n.fraction
  let places := n.fraction.length - dropped.length
  let magnitude := scale? significand (n.writtenExponent + skipped.length - places)
  if n.negative then magnitude.map Binary64.negate else magnitude

/-! ## Writing -/

def zeros (n : Nat) : List Char :=
  List.replicate n '0'

/-- Writes `digits * 10 ^ exponent`.  The value is written without an exponent when its point stands
less than five places before the first digit and at most sixteen places behind it. -/
def ofDigits (digits : List Char) (exponent : Int) : JsonNumber :=
  let point : Int := digits.length + exponent
  if 0 ≤ exponent ∧ point ≤ 16 then
    { whole := digits ++ zeros exponent.toNat, fraction := ['0'] }
  else if 0 < point ∧ point ≤ 16 then
    { whole := digits.take point.toNat, fraction := digits.drop point.toNat }
  else if -5 < point ∧ point ≤ 0 then
    { whole := ['0'], fraction := zeros (-point).toNat ++ digits }
  else
    { whole := digits.take 1
      fraction := digits.drop 1
      exponent := some (decide (point < 1), Nat.toDigits 10 (point - 1).natAbs) }

/-- The significant digits of a decimal, and the power of ten of the last one. -/
def significantDigits (d : Decimal) : List Char × Int :=
  let digits := Nat.toDigits 10 d.digits
  let trailing := (digits.reverse.takeWhile (· = '0')).length
  (digits.take (digits.length - trailing), d.exponent + trailing)

def ofBinary64 (x : Binary64) : JsonNumber :=
  if x.magnitudeBits = 0 then
    { negative := x.isNegative, whole := ['0'], fraction := ['0'] }
  else
    let (digits, exponent) := significantDigits x.shortest
    { ofDigits digits exponent with negative := x.isNegative }

end TemplateLowering.JsonNumber
