import Outfitter.Text.Blank
import Outfitter.Text.Word
import Outfitter.Text.Digit
import Outfitter.Text.LetterCase

/-!
Patterns for stretches of text.

A pattern is read at a place of the text. `Pattern.readings` lists the places where a reading may end,
the preferred one first: an alternative is preferred to those after it, and a run of characters is
preferred the longer it is. `Pattern.search` takes the first place with a reading, and the preferred
reading there; `Pattern.searchAll` goes on after each reading found.
-/

namespace Outfitter.Text

/-- A place between two characters of a text. -/
structure Place where
  /-- The text before the place, last character first. -/
  before : List Char
  /-- The text after the place. -/
  after : List Char

namespace Place

/-- The place before the first character. -/
def start (text : List Char) : Place :=
  ⟨[], text⟩

/-- How many characters stand before the place. -/
def index (p : Place) : Nat :=
  p.before.length

/-- A place between a word character and something else, or at an end of the text beside a word
character. -/
def atWordEdge (p : Place) : Bool :=
  isWord? p.before.head? != isWord? p.after.head?

/-- No word character stands just before the place. -/
def noWordBefore (p : Place) : Bool :=
  !isWord? p.before.head?

/-- No word character stands just after the place. -/
def noWordAfter (p : Place) : Bool :=
  !isWord? p.after.head?

def atStart (p : Place) : Bool :=
  p.before.isEmpty

/-- The end of the text, or just before a line break that ends it. -/
def atEnd (p : Place) : Bool :=
  p.after.isEmpty || p.after == ['\n']

end Place

/-- A stretch of a text. -/
structure Stretch where
  first : Place
  last : Place

namespace Stretch

def start (s : Stretch) : Nat :=
  s.first.index

def stop (s : Stretch) : Nat :=
  s.last.index

/-- The number of characters. -/
def size (s : Stretch) : Nat :=
  s.stop - s.start

def text (s : Stretch) : List Char :=
  s.first.after.take s.size

end Stretch

/-- What a stretch of text may look like. -/
inductive Pattern where
  /-- Nothing, where the place is as asked. -/
  | look (holds : Place → Bool)
  /-- One character of a class. -/
  | one (accepts : Char → Bool)
  /-- A run of at least `least` characters of a class, and at most `most` if that is given. -/
  | run (accepts : Char → Bool) (least : Nat) (most : Option Nat)
  | seq (first second : Pattern)
  | either (preferred other : Pattern)
  /-- A part whose text is asked for later. -/
  | part (inner : Pattern)

/-- A place reached by reading a pattern, with the stretches of its parts from left to right. -/
structure Reading where
  place : Place
  parts : List Stretch

/-- The places after runs of a class, the shortest run first. -/
def runPlaces (accepts : Char → Bool) :
    (least : Nat) → (most : Option Nat) → (before after : List Char) → List Place
  | least, _, before, [] => if least = 0 then [⟨before, []⟩] else []
  | least, most, before, c :: after =>
    let longer :=
      if accepts c && most != some 0 then
        runPlaces accepts (least - 1) (most.map (· - 1)) (c :: before) after
      else []
    if least = 0 then ⟨before, c :: after⟩ :: longer else longer

namespace Pattern

/-- The readings of a pattern from a place, the preferred one first. -/
def readings : Pattern → Reading → List Reading
  | look holds, r => if holds r.place then [r] else []
  | one accepts, r =>
    match r.place.after with
    | [] => []
    | c :: after => if accepts c then [⟨⟨c :: r.place.before, after⟩, r.parts⟩] else []
  | run accepts least most, r =>
    (runPlaces accepts least most r.place.before r.place.after).reverse.map (⟨·, r.parts⟩)
  | seq first second, r => (readings first r).flatMap (readings second)
  | either preferred other, r => readings preferred r ++ readings other r
  | part inner, r =>
    (readings inner r).map fun r' => ⟨r'.place, r'.parts ++ [⟨r.place, r'.place⟩]⟩

/-- A stretch found by a pattern, and its parts. -/
structure Found extends Stretch where
  parts : List Stretch

/-- The preferred reading at a place. -/
def readAt (p : Pattern) (place : Place) : Option Found :=
  (p.readings ⟨place, []⟩).head?.map fun r => ⟨⟨place, r.place⟩, r.parts⟩

/-- The first stretch that starts in `after`, when `before` has been passed. -/
def searchFrom (p : Pattern) (before : List Char) : List Char → Option Found
  | [] => p.readAt ⟨before, []⟩
  | c :: after => (p.readAt ⟨before, c :: after⟩).or (p.searchFrom (c :: before) after)

/-- The first stretch of the text that the pattern reads. -/
def search (p : Pattern) (text : List Char) : Option Found :=
  p.searchFrom [] text

def foundIn (p : Pattern) (text : List Char) : Bool :=
  (p.search text).isSome

/-- The stretches that start in `after` once `skip` characters of it are passed, none overlapping the
one before it. -/
def searchAllFrom (p : Pattern) : (skip : Nat) → (before after : List Char) → List Found
  | 0, before, [] => (p.readAt ⟨before, []⟩).toList
  | _ + 1, _, [] => []
  | skip + 1, before, c :: after => p.searchAllFrom skip (c :: before) after
  | 0, before, c :: after =>
    match p.readAt ⟨before, c :: after⟩ with
    | some found => found :: p.searchAllFrom (found.size - 1) (c :: before) after
    | none => p.searchAllFrom 0 (c :: before) after

/-- The stretches of the text that the pattern reads, from left to right and without overlap. -/
def searchAll (p : Pattern) (text : List Char) : List Found :=
  p.searchAllFrom 0 [] text

/-- The rest of the text with every stretch that the pattern reads replaced. -/
def replaceFrom (p : Pattern) (replacement : Stretch → List Char) :
    (skip : Nat) → (before after : List Char) → List Char
  | 0, before, [] =>
    match p.readAt ⟨before, []⟩ with
    | some found => replacement found.toStretch
    | none => []
  | _ + 1, _, [] => []
  | skip + 1, before, c :: after => p.replaceFrom replacement skip (c :: before) after
  | 0, before, c :: after =>
    match p.readAt ⟨before, c :: after⟩ with
    | some found =>
      if found.size = 0 then
        replacement found.toStretch ++ c :: p.replaceFrom replacement 0 (c :: before) after
      else
        replacement found.toStretch ++
          p.replaceFrom replacement (found.size - 1) (c :: before) after
    | none => c :: p.replaceFrom replacement 0 (c :: before) after

/-- The text with every stretch that the pattern reads replaced. -/
def replaceAll (p : Pattern) (replacement : Stretch → List Char) (text : List Char) : List Char :=
  p.replaceFrom replacement 0 [] text

/-! ### building blocks -/

/-- The empty stretch. -/
def nothing : Pattern :=
  look fun _ => true

/-- The parts one after the other. -/
def all : List Pattern → Pattern
  | [] => nothing
  | [p] => p
  | p :: ps => seq p (all ps)

/-- One of the alternatives, the first that fits. -/
def any : List Pattern → Pattern
  | [] => look fun _ => false
  | [p] => p
  | p :: ps => either p (any ps)

/-- The pattern if it fits, else nothing. -/
def optional (p : Pattern) : Pattern :=
  either p nothing

/-- These very characters. -/
def exactly (text : String) : Pattern :=
  all (text.toList.map fun c => one (· == c))

/-- These letters in upper or lower case. -/
def letters (text : List Char) : Pattern :=
  all (text.map fun c => one (sameLetter c))

def blanks (least : Nat) : Pattern :=
  run isBlank least none

def digits : Pattern :=
  run isDigit 1 none

def wordEdge : Pattern :=
  look Place.atWordEdge

/-- The pattern between two edges of words. -/
def whole (p : Pattern) : Pattern :=
  all [wordEdge, p, wordEdge]

/-- The words in upper or lower case, with blanks between them and no word character before or after
them. -/
def phrase (text : List Char) : Pattern :=
  all [look Place.noWordBefore, all ((words text).map letters |>.intersperse (blanks 1)),
    look Place.noWordAfter]

end Pattern

end Outfitter.Text
