/-!
Blanks, and the words between them.

The blanks are the white space of Unicode and the four separators U+001C to U+001F. A text is tidied
by keeping its words and putting one space between any two of them.
-/

namespace Outfitter.Text

/-- White space, the information separators included. The zero width space is none. -/
def isBlank (c : Char) : Bool :=
  let n := c.toNat
  (9 ≤ n && n ≤ 13) || (28 ≤ n && n ≤ 32) || n == 0x85 || n == 0xA0 || n == 0x1680 ||
    (0x2000 ≤ n && n ≤ 0x200A) || n == 0x2028 || n == 0x2029 || n == 0x202F || n == 0x205F ||
    n == 0x3000

/-- The text without the characters of a class at its two ends. -/
def trimBy (drops : Char → Bool) (text : List Char) : List Char :=
  ((text.dropWhile drops).reverse.dropWhile drops).reverse

/-- The text without the blanks at its two ends. -/
def trim (text : List Char) : List Char :=
  trimBy isBlank text

/-- The words of a text from left to right; `word` holds what was read of the current one, last
character first. -/
def wordsFrom (word : List Char) : List Char → List (List Char)
  | [] => if word.isEmpty then [] else [word.reverse]
  | c :: rest =>
    if isBlank c then
      if word.isEmpty then wordsFrom [] rest else word.reverse :: wordsFrom [] rest
    else wordsFrom (c :: word) rest

/-- The longest stretches without a blank, from left to right. -/
def words (text : List Char) : List (List Char) :=
  wordsFrom [] text

/-- The words of the text with one space between any two of them. -/
def collapse (text : List Char) : List Char :=
  [' '].intercalate (words text)

/-- The pieces of a text between the separators; there is one more piece than separators. -/
def splitAt (separator : Char) : List Char → List (List Char)
  | [] => [[]]
  | c :: rest =>
    match splitAt separator rest with
    | piece :: pieces => if c = separator then [] :: piece :: pieces else (c :: piece) :: pieces
    | [] => [[]]

/-- Whether `part` stands somewhere in the text. -/
def hasInfix (part : List Char) : List Char → Bool
  | [] => part.isEmpty
  | c :: rest => part.isPrefixOf (c :: rest) || hasInfix part rest

end Outfitter.Text
