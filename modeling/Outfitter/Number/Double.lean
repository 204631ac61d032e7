/-!
Double precision numbers, exactly.

A finite double is a signed significand times a power of two, in the one form that its value has.
`Double.ofRatio` rounds an exact quotient to the nearest double, to the one with an even significand
from halfway. Comparisons are exact: every finite double is a whole number of units of `2 ^ -1074`.
-/

namespace Outfitter

/-- The significand has 53 bits, or as many as the least exponent leaves it. -/
def Double.Canonical (significand : Nat) (exponent : Int) : Prop :=
  -1074 ≤ exponent ∧ exponent ≤ 971 ∧ significand < Nat.pow 2 53 ∧
    (Nat.pow 2 52 ≤ significand ∨ exponent = -1074)

instance (m : Nat) (e : Int) : Decidable (Double.Canonical m e) := by
  unfold Double.Canonical
  infer_instance

/-- The double `significand * 2 ^ exponent`, negated if `negative`. Zero has a sign, too. -/
structure Double.Finite where
  negative : Bool
  significand : Nat
  exponent : Int
  canonical : Double.Canonical significand exponent
  deriving DecidableEq

/-- A double precision number. -/
inductive Double where
  | finite (x : Double.Finite)
  | infinite (negative : Bool)
  | nan
  deriving DecidableEq

namespace Double

/-- How many units make one. -/
def unitsPerOne : Nat :=
  Nat.pow 2 1074

namespace Finite

def zero (negative : Bool) : Finite :=
  ⟨negative, 0, -1074, by decide⟩

instance : Inhabited Finite :=
  ⟨zero false⟩

/-- The magnitude in units of the least positive double. -/
def magnitude (x : Finite) : Nat :=
  x.significand * Nat.pow 2 (x.exponent + 1074).toNat

/-- The value in units of the least positive double. -/
def units (x : Finite) : Int :=
  if x.negative then -(x.magnitude : Int) else x.magnitude

/-- The double is a whole number. -/
def isWhole (x : Finite) : Bool :=
  x.magnitude % unitsPerOne = 0

/-- The greatest whole number that is not above the double. -/
def floor (x : Finite) : Int :=
  x.units / (unitsPerOne : Int)

/-- The whole part, rounded toward zero. -/
def truncate (x : Finite) : Int :=
  x.units.tdiv unitsPerOne

end Finite

/-- The quotient rounded to the nearest natural number, to the even one from halfway. -/
def roundDiv (num den : Nat) : Nat :=
  let q := num / den
  let r := num % den
  if 2 * r < den then q
  else if den < 2 * r then q + 1
  else if q % 2 = 0 then q
  else q + 1

/-- The exponent of the leading binary digit of `num / den`. -/
def leadingExponent (num den : Nat) : Int :=
  let guess : Int := (num.log2 : Int) - den.log2
  if den * Nat.pow 2 guess.toNat ≤ num * Nat.pow 2 (-guess).toNat then guess else guess - 1

/-- The double nearest to `num / den`; beyond the greatest one, an infinity. -/
def ofRatio (negative : Bool) (num den : Nat) : Double :=
  if num = 0 then finite (Finite.zero negative)
  else
    let exponent := max (-1074) (leadingExponent num den - 52)
    let significand := roundDiv (num * Nat.pow 2 (-exponent).toNat) (den * Nat.pow 2 exponent.toNat)
    let (significand, exponent) :=
      if significand = Nat.pow 2 53 then (Nat.pow 2 52, exponent + 1) else (significand, exponent)
    if h : Canonical significand exponent then finite ⟨negative, significand, exponent, h⟩
    else infinite negative

/-- The double nearest to `digits * 10 ^ exponent`. A number above `10 ^ 400` is beyond all doubles,
and one below `10 ^ -330` is nearest to zero. -/
def ofDecimal (negative : Bool) (digits : Nat) (exponent : Int) : Double :=
  if digits = 0 then finite (Finite.zero negative)
  else if 400 < exponent then infinite negative
  else if (digits.log2 : Int) + 1 + exponent < -330 then finite (Finite.zero negative)
  else ofRatio negative (digits * Nat.pow 10 exponent.toNat) (Nat.pow 10 (-exponent).toNat)

def ofInt (n : Int) : Double :=
  ofRatio (n < 0) n.natAbs 1

/-- The whole number that the double is, if it is one. -/
def toInt? : Double → Option Int
  | finite x => if x.isWhole then some x.truncate else none
  | _ => none

/-- Neither side is above the other; the two zeros are equal. What is not a number is like itself and
like nothing else. -/
def same : Double → Double → Bool
  | finite x, finite y => x.units == y.units
  | infinite a, infinite b => a == b
  | nan, nan => true
  | _, _ => false

/-- The double is below a whole number. What is not a number is below none. -/
def isBelow (x : Double) (n : Int) : Bool :=
  match x with
  | finite x => x.units < n * unitsPerOne
  | infinite negative => negative
  | nan => false

/-- Zero of either sign. -/
def isZero : Double → Bool
  | finite x => x.significand == 0
  | _ => false

end Double

end Outfitter
