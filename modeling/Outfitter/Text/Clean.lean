import Outfitter.Text.Blank
import Outfitter.Text.LetterCase

/-!
Cleaned text: lower case, with one space between words and none at the ends. What shoppers write is
read in this form.
-/

namespace Outfitter.Text

def clean (text : List Char) : List Char :=
  collapse (lower text)

/-- The text without blanks at its ends, in lower case. -/
def trimLower (text : String) : String :=
  String.ofList (lower (trim text.toList))

end Outfitter.Text
