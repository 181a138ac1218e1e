import SyncAccounting.Binary64

/-!
The shortest decimal that reads back as a given number, and how it is laid out as text. A decimal
reads back exactly where it lies in the interval of fractions that round to the number; the two
neighbours of the number on the grid of n digits are tried for n from 1 to 17.
-/

set_option autoImplicit false

namespace SyncAccounting

namespace Binary64

/-- The interval of the fractions that round to a number, in quarters of the unit of its
significand: where it starts and ends. Both ends belong to it where the significand is even. -/
def roundingInterval (x : Binary64) : Nat × Nat :=
  let below := if x.significand = 0x10_0000_0000_0000 ∧ -1074 < x.exponent then 1 else 2
  (4 * x.significand - below, 4 * x.significand + 2)

def isRoundedFrom (x : Binary64) (d : Decimal) : Bool :=
  let unit := powerFraction 2 (x.exponent - 2)
  let grid := powerFraction 10 d.exponent
  let point := d.digits * grid.1 * unit.2
  let start := x.roundingInterval.1 * unit.1 * grid.2
  let stop := x.roundingInterval.2 * unit.1 * grid.2
  if x.significand % 2 = 0 then start ≤ point ∧ point ≤ stop
  else start < point ∧ point < stop

def decimalExponent (num den : Nat) : Int :=
  if den ≤ num then (digitCount (num / den) : Int) - 1
  else -(digitCount ((den + num - 1) / num - 1) : Int)

def decimalOfLength? (x : Binary64) (length : Nat) : Option Decimal :=
  let value := x.fraction
  let exponent := decimalExponent value.1 value.2 - (length : Int) + 1
  let grid := powerFraction 10 exponent
  let num := value.1 * grid.2
  let den := value.2 * grid.1
  let lower : Decimal := ⟨num / den, exponent⟩
  let upper : Decimal := ⟨num / den + 1, exponent⟩
  let nearer : Decimal := ⟨roundHalfEven num den, exponent⟩
  match x.isRoundedFrom lower, x.isRoundedFrom upper with
  | true, true => some nearer
  | true, false => some lower
  | false, true => some upper
  | false, false => none

def shortest (x : Binary64) : Decimal :=
  ((List.range 17).findSome? fun n => x.decimalOfLength? (n + 1)).getD
    ⟨x.significand, x.exponent⟩

end Binary64

/-- How a decimal is laid out: between which powers of ten of its first digit it is written
without an exponent. -/
structure DecimalLayout where
  plainFrom : Int
  plainTo : Int

namespace DecimalLayout

private def significantDigits (n : Nat) : List Char :=
  ((Nat.toDigits 10 n).reverse.dropWhile (· = '0')).reverse

private def plain (digits : List Char) (first : Int) : List Char :=
  if first < 0 then ['0', '.'] ++ List.replicate (-first - 1).toNat '0' ++ digits
  else
    let whole := first.toNat + 1
    if digits.length ≤ whole then
      digits ++ List.replicate (whole - digits.length) '0' ++ ['.', '0']
    else digits.take whole ++ '.' :: digits.drop whole

private def scientific (digits : List Char) (first : Int) : List Char :=
  let fractional := match digits with
    | d :: e :: rest => d :: '.' :: e :: rest
    | short => short
  fractional ++ ['e', if first < 0 then '-' else '+'] ++ Nat.toDigits 10 first.natAbs

def text (layout : DecimalLayout) (x : Binary64) : List Char :=
  let sign := if x.negative then ['-'] else []
  if x.significand = 0 then sign ++ ['0', '.', '0']
  else
    let d := x.shortest
    let digits := significantDigits d.digits
    let first := d.exponent + (digitCount d.digits : Int) - 1
    sign ++ if layout.plainFrom ≤ first ∧ first ≤ layout.plainTo then plain digits first
      else scientific digits first

end DecimalLayout

end SyncAccounting
