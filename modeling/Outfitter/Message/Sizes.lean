import Outfitter.Text.Pattern

/-!
Sizes in a message: letter sizes, and bare numbers of one or two digits that are no amount of money and
no part of a decimal.
-/

namespace Outfitter.Message

open Text

/-- A letter size with the pattern by which it is named. -/
structure SizeRule where
  size : String
  pattern : Pattern

/-- One or two x, and a size after them, perhaps behind a hyphen or a blank. -/
def extra (size : String) : Pattern :=
  Pattern.all [Pattern.run (· == 'x') 1 (some 2),
    Pattern.optional (Pattern.one fun c => c == '-' || isBlank c), Pattern.exactly size]

/-- The size as a word, as the whole message by its letter, or by its letter behind the word size. -/
def plainSize (word letter : String) : Pattern :=
  Pattern.any [Pattern.whole (Pattern.exactly word),
    Pattern.all [Pattern.look Place.atStart, Pattern.exactly letter, Pattern.look Place.atEnd],
    Pattern.whole (Pattern.all [Pattern.exactly "size", Pattern.blanks 1, Pattern.exactly letter])]

/-- The letter sizes. What names an extra size is taken out of the text before the plain sizes are
looked for, so that an extra small is not small as well. -/
def sizeRules : List SizeRule :=
  [⟨"XS", Pattern.whole (Pattern.any [extra "small", Pattern.exactly "xxs", Pattern.exactly "xs"])⟩,
    ⟨"XL", Pattern.whole (Pattern.any [extra "large", Pattern.exactly "xxl", Pattern.exactly "xl"])⟩,
    ⟨"S", plainSize "small" "s"⟩,
    ⟨"M", plainSize "medium" "m"⟩,
    ⟨"L", plainSize "large" "l"⟩]

/-- No dollar sign, digit or point stands just before the place. -/
def notInAmount (p : Place) : Bool :=
  !p.before.head?.any fun c => c == '$' || c == '.' || isDigit c

/-- No point with a digit behind it follows the place. -/
def noFractionAfter (p : Place) : Bool :=
  match p.after with
  | '.' :: c :: _ => !isDigit c
  | _ => true

/-- A number of one or two digits, perhaps with the word size before it and a system of sizes behind
it. -/
def numericSize : Pattern :=
  Pattern.all [Pattern.look notInAmount, Pattern.wordEdge,
    Pattern.optional (Pattern.all [Pattern.exactly "size", Pattern.blanks 0]),
    Pattern.part (Pattern.run isDigit 1 (some 2)),
    Pattern.optional (Pattern.all [Pattern.blanks 0,
      Pattern.any [Pattern.exactly "us", Pattern.exactly "eu", Pattern.exactly "uk"]]),
    Pattern.wordEdge, Pattern.look noFractionAfter]

/-- The letter sizes found so far, and the text that is left to search. -/
structure SizeScan where
  found : List String
  remaining : List Char

def SizeScan.look (s : SizeScan) (rule : SizeRule) : SizeScan :=
  if rule.pattern.foundIn s.remaining then
    ⟨s.found ++ [rule.size], rule.pattern.replaceAll (fun _ => [' ']) s.remaining⟩
  else s

/-- The letter sizes in a text. -/
def letterSizes (text : List Char) : List String :=
  (sizeRules.foldl SizeScan.look ⟨[], text⟩).found

/-- The numeric sizes in a text, as they are written. -/
def numericSizes (text : List Char) : List String :=
  (numericSize.searchAll text).filterMap fun found =>
    found.parts.head?.map fun digits => String.ofList digits.text

/-- All sizes in a text, each once. -/
def sizes (text : List Char) : List String :=
  (numericSizes text).foldl (fun found s => if s ∈ found then found else found ++ [s])
    (letterSizes text)

end Outfitter.Message
