import Outfitter.Number.Double
import Outfitter.Text.Blank
import Outfitter.Text.Digit

/-!
Numbers written in text.

A numeral may have blanks around it, a sign, and digits of any script, with single underscores between
digits. `Numeral.double?` reads decimals with a point and an exponent, and the words for infinity and
for what is not a number; `Numeral.integer` reads whole numbers of at most 4300 digits.
-/

namespace Outfitter.Numeral

open Text

/-- Which characters are digits, and whether an underscore may stand between two of them. -/
structure Form where
  digit? : Char → Option Nat
  grouped : Bool

/-- Digits of any script, in groups. -/
def anyScript : Form :=
  ⟨digitValue?, true⟩

/-- Digits of ASCII, not grouped. -/
def plain : Form :=
  ⟨fun c => if c.isDigit then some (c.toNat - 48) else none, false⟩

/-- The digits at the front of a text and what follows them. -/
def Form.digits (form : Form) (afterDigit : Bool) : List Char → List Nat × List Char
  | [] => ([], [])
  | c :: rest =>
    match form.digit? c with
    | some d =>
      let (ds, rest) := form.digits true rest
      (d :: ds, rest)
    | none =>
      if form.grouped && afterDigit && c == '_' && (rest.head?.bind form.digit?).isSome then
        form.digits true rest
      else ([], c :: rest)

/-- The number with these decimal digits. -/
def ofDigitValues (digits : List Nat) : Nat :=
  digits.foldl (fun n d => 10 * n + d) 0

/-- The sign at the front (negative or not) and what follows it. -/
def sign : List Char → Bool × List Char
  | '-' :: rest => (true, rest)
  | '+' :: rest => (false, rest)
  | text => (false, text)

/-- Blanks that may stand around a numeral: all but the information separators. -/
def isMargin (c : Char) : Bool :=
  isBlank c && !(28 ≤ c.toNat && c.toNat ≤ 31)

/-- The exponent at the end of a decimal: `e`, a sign, and digits that reach the end. -/
def Form.exponent? (form : Form) : List Char → Option Int
  | [] => some 0
  | c :: rest =>
    if c == 'e' || c == 'E' then
      let (negative, rest) := sign rest
      let (digits, rest) := form.digits false rest
      if digits.isEmpty || !rest.isEmpty then none
      else
        let n : Int := ofDigitValues digits
        some (if negative then -n else n)
    else none

/-- A decimal without sign or margin. -/
def Form.decimal? (form : Form) (negative : Bool) (text : List Char) : Option Double :=
  let (whole, rest) := form.digits false text
  let (fraction, rest) :=
    match rest with
    | '.' :: rest => form.digits false rest
    | rest => ([], rest)
  if whole.isEmpty && fraction.isEmpty then none
  else
    (form.exponent? rest).map fun exponent =>
      Double.ofDecimal negative (ofDigitValues (whole ++ fraction)) (exponent - fraction.length)

/-- The words for what is infinite or not a number. -/
def special? (negative : Bool) (text : List Char) : Option Double :=
  match String.ofList (text.map Char.toLower) with
  | "inf" | "infinity" => some (.infinite negative)
  | "nan" => some .nan
  | _ => none

/-- The double that a text without margin writes. -/
def Form.double? (form : Form) (text : List Char) : Option Double :=
  let (negative, rest) := sign text
  (special? negative rest).or (form.decimal? negative rest)

/-- The double that a text writes. -/
def double? (text : String) : Option Double :=
  anyScript.double? (trimBy isMargin text.toList)

/-- Why a text writes no whole number. -/
inductive Defect where
  | tooLong (digits : Nat)
  | malformed

/-- The number of digits that a whole number may have. -/
def maxDigits : Nat :=
  4300

/-- The number has no more digits than that. -/
def isShort (n : Int) : Bool :=
  n.natAbs < Nat.pow 10 maxDigits

/-- The whole number that a text writes. Of a text with too many digits that is malformed otherwise, only
an underscore in a wrong place is noticed first. -/
def integer (text : String) : Except Defect Int :=
  let (negative, rest) := sign (trimBy isMargin text.toList)
  let (digits, rest) := anyScript.digits false rest
  if rest.head? = some '_' then .error .malformed
  else if maxDigits < digits.length then .error (.tooLong digits.length)
  else if digits.isEmpty || !rest.isEmpty then .error .malformed
  else
    let n : Int := ofDigitValues digits
    .ok (if negative then -n else n)

end Outfitter.Numeral
