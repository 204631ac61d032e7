import Outfitter.Number.Double

/-!
Doubles as decimals.

`Double.Finite.shortest` gives the decimal with the fewest digits that reads back as the double, and of
those the nearest to it. It is written in positions while the leading digit stands for no more than
`10 ^ 15` and for no less than a `Layout` says, outside with an exponent, and never as a whole number
without a fraction.
-/

namespace Outfitter

/-- The number `digits * 10 ^ exponent`. -/
structure Decimal where
  digits : Nat
  exponent : Int

namespace Double

/-- Zeros between the point and the first digit of `num / den`, a quotient below one. -/
def leadingZeros : (fuel num den : Nat) → Nat
  | 0, _, _ => 0
  | fuel + 1, num, den => if den ≤ 10 * num then 0 else leadingZeros fuel (10 * num) den + 1

/-- The place of the leading digit: `10 ^ (p - 1) ≤ num / den < 10 ^ p`. -/
def leadingPlace (num den : Nat) : Int :=
  if den ≤ num then (Nat.toDigits 10 (num / den)).length else -(leadingZeros 330 num den : Int)

namespace Finite

/-- The magnitude is what this decimal is read as. -/
def readsBack (x : Finite) (d : Decimal) : Bool :=
  ofDecimal x.negative d.digits d.exponent == finite x

/-- The decimal with `count` digits that reads back as `x` and is nearest to it. -/
def decimalOf? (x : Finite) (count : Nat) : Option Decimal :=
  let scale : Int := count - leadingPlace x.magnitude unitsPerOne
  let num := x.magnitude * Nat.pow 10 scale.toNat
  let den := unitsPerOne * Nat.pow 10 (-scale).toNat
  let below : Decimal := ⟨num / den, -scale⟩
  let above : Decimal := ⟨num / den + 1, -scale⟩
  match x.readsBack below, x.readsBack above with
  | true, true => if roundDiv num den = num / den then some below else some above
  | true, false => some below
  | false, true => some above
  | false, false => none

/-- The double written out in full. -/
def exactDecimal (x : Finite) : Decimal :=
  if 0 ≤ x.exponent then ⟨x.significand * Nat.pow 2 x.exponent.toNat, 0⟩
  else ⟨x.significand * Nat.pow 5 (-x.exponent).toNat, x.exponent⟩

/-- The decimal of fewest digits that reads back; seventeen digits always do. -/
def shortest (x : Finite) : Decimal :=
  if x.significand = 0 then ⟨0, 0⟩
  else ((List.range 17).findSome? fun n => x.decimalOf? (n + 1)).getD x.exactDecimal

end Finite

/-- The digits of a decimal without the zeros at their end, and the place of the leading one. -/
def significantDigits (d : Decimal) : List Char × Int :=
  let digits := Nat.toDigits 10 d.digits
  let kept := (digits.reverse.dropWhile (· == '0')).reverse
  (if kept.isEmpty then ['0'] else kept, digits.length + d.exponent)

/-- Digits with the point after `place` of them. -/
def positional (digits : List Char) (place : Int) : List Char :=
  if place ≤ 0 then "0.".toList ++ List.replicate (-place).toNat '0' ++ digits
  else
    let n := place.toNat
    let whole := digits.take n ++ List.replicate (n - digits.length) '0'
    let fraction := digits.drop n
    whole ++ '.' :: (if fraction.isEmpty then ['0'] else fraction)

/-- How small doubles and exponents are written. -/
structure Layout where
  /-- How many zeros may stand between the point and the first digit. -/
  zeros : Nat
  /-- An exponent has a sign and two digits at least. -/
  wideExponent : Bool

/-- The layout of texts for people. -/
def Layout.wide : Layout :=
  ⟨3, true⟩

/-- The layout that takes fewest characters. -/
def Layout.narrow : Layout :=
  ⟨4, false⟩

/-- An exponent. -/
def Layout.exponent (l : Layout) (exponent : Int) : List Char :=
  let digits := Nat.toDigits 10 exponent.natAbs
  let digits := if l.wideExponent && digits.length = 1 then '0' :: digits else digits
  if exponent < 0 then '-' :: digits else if l.wideExponent then '+' :: digits else digits

/-- Digits with the point after the first one, and an exponent. -/
def Layout.scientific (l : Layout) (digits : List Char) (place : Int) : List Char :=
  let point := if digits.length = 1 then digits else digits.take 1 ++ '.' :: digits.drop 1
  point ++ 'e' :: l.exponent (place - 1)

/-- The text of a finite double in a layout. -/
def Finite.textIn (l : Layout) (x : Finite) : List Char :=
  let (digits, place) := significantDigits x.shortest
  let body :=
    if x.significand = 0 then "0.0".toList
    else if -(l.zeros : Int) ≤ place && place ≤ 16 then positional digits place
    else l.scientific digits place
  if x.negative then '-' :: body else body

/-- The text of a finite double. -/
def Finite.text (x : Finite) : List Char :=
  x.textIn .wide

/-- The text of a double, in the words of this library where it is not finite. -/
def text : Double → String
  | finite x => String.ofList x.text
  | infinite negative => if negative then "-inf" else "inf"
  | nan => "nan"

end Double

end Outfitter
