import TemplateLowering.Number.Binary64

/-!
# Floating point numbers and ratios

A finite number is `m * 2 ^ e` for a significand `m` below `2 ^ 53` and an exponent `e` of at least
-1074. `Binary64.ofRatio` gives the number nearest to a ratio of natural numbers; of two that are
equally near it takes the one with the even significand.  Products and quotients are rounded from
their exact values.
-/

namespace TemplateLowering.Binary64

def fractionSize : Nat := 1 <<< 52

/-- The bits of the sign. -/
def signBit : Nat := 1 <<< 63

def infinityBits : Nat := 2047 * fractionSize

def isNegative (x : Binary64) : Bool :=
  signBit ≤ x.bits.toNat

/-- The bits without the sign. -/
def magnitudeBits (x : Binary64) : Nat :=
  x.bits.toNat % signBit

def isFinite (x : Binary64) : Bool :=
  x.magnitudeBits < infinityBits

def negate (x : Binary64) : Binary64 :=
  ⟨UInt64.ofNat (x.bits.toNat + signBit)⟩

/-- How many times the significand of a number is doubled, counted from the least exponent. -/
def shift (x : Binary64) : Nat :=
  x.magnitudeBits / fractionSize - 1

/-- The significand of a finite number. -/
def significand (x : Binary64) : Nat :=
  x.magnitudeBits - x.shift * fractionSize

/-- The absolute value of a finite number as a numerator and a denominator. -/
def toRatio (x : Binary64) : Nat × Nat :=
  (x.significand <<< x.shift, 1 <<< 1074)

/-- The quotient to the nearest natural number, a half to the even one. -/
def roundDiv (num den : Nat) : Nat :=
  let quotient := num / den
  let rest := 2 * (num % den)
  if rest > den ∨ (rest = den ∧ quotient % 2 = 1) then quotient + 1 else quotient

/-- The greatest `k` with `2 ^ k` at most `num / den`, and zero if there is none. -/
def floorLog2 (num den : Nat) : Nat :=
  Nat.log2 (num / den)

def ofRatio (num den : Nat) : Binary64 :=
  let units := num <<< 1074
  let shift := floorLog2 units den - 52
  ⟨UInt64.ofNat (min infinityBits (shift * fractionSize + roundDiv units (den <<< shift)))⟩

def ofNat (n : Nat) : Binary64 :=
  ofRatio n 1

/-- The product of two numbers that are not negative. -/
def mul (x y : Binary64) : Binary64 :=
  let (a, b) := x.toRatio
  let (c, d) := y.toRatio
  ofRatio (a * c) (b * d)

/-- The quotient of two numbers that are not negative. -/
def div (x y : Binary64) : Binary64 :=
  let (a, b) := x.toRatio
  let (c, d) := y.toRatio
  ofRatio (a * d) (b * c)

/-- The number nearest to a power of ten. -/
def powerOfTen (k : Nat) : Binary64 :=
  ofNat (Nat.pow 10 k)

end TemplateLowering.Binary64
