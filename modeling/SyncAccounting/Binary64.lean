/-!
Finite floating-point numbers of 64 bits, held as sign, significand and binary exponent, and the
rounding of exact fractions and decimals to them. All arithmetic is exact, on natural numbers.
-/

set_option autoImplicit false

namespace SyncAccounting

/-- The number ± significand · 2 ^ exponent, in the one form that has 53 bits or the least
exponent. Zero has a sign. -/
structure Binary64 where
  negative : Bool
  significand : Nat
  exponent : Int
  canonical : significand < 0x20_0000_0000_0000 ∧ -1074 ≤ exponent ∧ exponent ≤ 971 ∧
    (0x10_0000_0000_0000 ≤ significand ∨ exponent = -1074)
  deriving DecidableEq

structure Decimal where
  digits : Nat
  exponent : Int
  deriving DecidableEq

def powerFraction (base : Nat) (exponent : Int) : Nat × Nat :=
  (base.pow exponent.toNat, base.pow (-exponent).toNat)

def roundHalfEven (num den : Nat) : Nat :=
  let quotient := num / den
  let twice := 2 * (num % den)
  if twice < den ∨ (twice = den ∧ quotient % 2 = 0) then quotient else quotient + 1

def digitCount (n : Nat) : Nat := (Nat.toDigits 10 n).length

namespace Binary64

def zero (negative : Bool) : Binary64 := ⟨negative, 0, -1074, by decide⟩

instance : Inhabited Binary64 := ⟨zero false⟩

/-- The number with the given parts, where they are in the one form. -/
def ofParts? (negative : Bool) (significand : Nat) (exponent : Int) : Option Binary64 :=
  if h : significand < 0x20_0000_0000_0000 ∧ -1074 ≤ exponent ∧ exponent ≤ 971 ∧
      (0x10_0000_0000_0000 ≤ significand ∨ exponent = -1074) then
    some ⟨negative, significand, exponent, h⟩
  else none

private def exponentOf (num den : Nat) : Int :=
  let guess : Int := (num.log2 : Int) - (den.log2 : Int) - 52
  let scale := powerFraction 2 guess
  if num * scale.2 / (den * scale.1) < 0x10_0000_0000_0000 then guess - 1 else guess

/-- The nearest number to ± num / den, ties to the even significand; none is near enough to a
fraction that rounds past the largest one. -/
def nearest? (negative : Bool) (num den : Nat) : Option Binary64 :=
  if num = 0 then some (zero negative)
  else
    let exponent := max (exponentOf num den) (-1074)
    let scale := powerFraction 2 exponent
    let significand := roundHalfEven (num * scale.2) (den * scale.1)
    if significand = 0x20_0000_0000_0000 then ofParts? negative 0x10_0000_0000_0000 (exponent + 1)
    else ofParts? negative significand exponent

def ofInt (n : Int) : Binary64 := (nearest? (n < 0) n.natAbs 1).getD (zero false)

def fraction (x : Binary64) : Nat × Nat :=
  let scale := powerFraction 2 x.exponent
  (x.significand * scale.1, scale.2)

def product? (x y : Binary64) : Option Binary64 :=
  nearest? false (x.fraction.1 * y.fraction.1) (x.fraction.2 * y.fraction.2)

def quotient (x y : Binary64) : Binary64 :=
  (nearest? false (x.fraction.1 * y.fraction.2) (x.fraction.2 * y.fraction.1)).getD (zero false)

def largestPower : Nat := 308

def tenTo (n : Nat) : Binary64 := (nearest? false (Nat.pow 10 n) 1).getD (zero false)

def shrink (x : Binary64) : Nat → Binary64
  | 0 => x
  | n + 1 => if x.significand = 0 then x else shrink (x.quotient (tenTo largestPower)) n

/-- A magnitude moved by a power of ten, itself rounded; by several, one after the other, where one
is out of range. -/
def scale? (x : Binary64) (exponent : Int) : Option Binary64 :=
  let n := exponent.natAbs
  if exponent < 0 then
    let steps := (n - 1) / largestPower
    some ((x.shrink steps).quotient (tenTo (n - steps * largestPower)))
  else if n ≤ largestPower then x.product? (tenTo n)
  else if x.significand = 0 then some x
  else none

/-- The number that a decimal is read as. Its digits are rounded, the power of ten is, and then what
comes of scaling them. The last rounding is not that of the decimal itself: what is read need not be
the number nearest to it, and it may be out of range where that number is not. -/
def ofDecimal? (negative : Bool) (d : Decimal) : Option Binary64 := do
  let digits ← nearest? false d.digits 1
  let x ← digits.scale? d.exponent
  return ⟨negative, x.significand, x.exponent, x.canonical⟩

end Binary64

end SyncAccounting
