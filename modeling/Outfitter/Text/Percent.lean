import Outfitter.Text.Digit
import Outfitter.Text.Quoted
import Outfitter.Text.Utf8

/-!
Percent-encoded text: a percent sign and two hexadecimal digits stand for a byte.
-/

namespace Outfitter.Text

/-- The bytes that a percent-encoded text stands for. A percent sign without two digits behind it stands
for itself. -/
def percentBytes : List Char → List Nat
  | [] => []
  | '%' :: a :: b :: rest =>
    match hexValue? a, hexValue? b with
    | some a, some b => (16 * a + b) :: percentBytes rest
    | _, _ => utf8 '%' ++ percentBytes (a :: b :: rest)
  | c :: rest => utf8 c ++ percentBytes rest

/-- The text that a percent-encoded text stands for. -/
def percentDecoded (text : List Char) : List Char :=
  ofBytes (percentBytes text)

/-- A byte behind a percent sign. -/
def percentByte (b : Nat) : List Char :=
  '%' :: (hex 2 b).map Char.toUpper

/-- The text with all characters encoded but those of a class. -/
def percentEncoded (keeps : Char → Bool) (text : List Char) : List Char :=
  text.flatMap fun c => if keeps c then [c] else (utf8 c).flatMap percentByte

end Outfitter.Text
