import Outfitter.Text.Pattern

/-!
Brands in a message: the known brands that stand in it as whole words, and if there is none, what
follows "by" or "from".
-/

namespace Outfitter.Message

open Text

/-- Characters that a brand name may have: Latin letters, digits, and a few marks. -/
def isBrandChar (c : Char) : Bool :=
  let f := foldCase c
  ('a' ≤ f && f ≤ 'z') || ('0' ≤ f && f ≤ '9') || "&-'. ".toList.contains f

/-- What follows "by" or "from". -/
def brandPhrase : Pattern :=
  Pattern.all [Pattern.wordEdge,
    Pattern.any [Pattern.letters "by".toList, Pattern.letters "from".toList], Pattern.blanks 1,
    Pattern.part (Pattern.run isBrandChar 2 none)]

/-- The brand guessed from a text: two to forty characters without marks at the ends. -/
def guessBrand (text : List Char) : Option String := do
  let found ← brandPhrase.search text
  let name ← found.parts.head?
  let guess := trimBy (" .-'&".toList.contains ·) name.text
  if 2 ≤ guess.length ∧ guess.length ≤ 40 then some (String.ofList guess) else none

/-- The brand stands in the text. A blank name stands nowhere. -/
def namesBrand (text : List Char) (brand : String) : Bool :=
  !(trim brand.toList).isEmpty && (Pattern.phrase (trim brand.toList)).foundIn text

/-- The known brands in a text, each once. -/
def knownBrands (text : List Char) (known : List String) : List String :=
  (known.filter (namesBrand text)).foldl (fun kept b => if b ∈ kept then kept else kept ++ [b]) []

/-- The brands in a text. -/
def brands (text : List Char) (known : List String) : List String :=
  match knownBrands text known with
  | [] => (guessBrand text).toList
  | found => found

end Outfitter.Message
