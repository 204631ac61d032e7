import Outfitter.Taxonomy.Vocabulary
import Outfitter.Text.Pattern

/-!
The dimensions of the catalog, and finding their tokens in a text.

`Dimension.scan` tries the phrases of a dimension from the longest to the shortest, and blanks out what
it has found: "light blue" names light blue and no other blue.
-/

namespace Outfitter.Taxonomy

open Text

inductive Dimension where
  | colors
  | categories
  | occasion
  | season
  | fit
  | silhouette
  | pattern
  | material
  deriving DecidableEq

/-- A phrase that names a token. -/
structure Entry where
  token : String
  phrase : String
  deriving DecidableEq

namespace Entry

def pattern (e : Entry) : Pattern :=
  Pattern.phrase e.phrase.toList

/-- Puts an entry before the first one whose phrase is not longer. -/
def insert (e : Entry) : List Entry → List Entry
  | [] => [e]
  | f :: rest =>
    if f.phrase.length ≤ e.phrase.length then e :: f :: rest else f :: insert e rest

/-- The entries from the longest phrase to the shortest, those of one length in their order. -/
def longestFirst (entries : List Entry) : List Entry :=
  entries.foldr insert []

end Entry

/-- What a scan has found, and the text with the found stretches blanked out. -/
structure Scan where
  hits : List String
  remaining : List Char

namespace Scan

/-- As many spaces as the stretch has characters. -/
def spaces (s : Stretch) : List Char :=
  List.replicate s.size ' '

/-- Looks for one phrase. -/
def look (s : Scan) (e : Entry) : Scan :=
  if e.pattern.foundIn s.remaining then
    ⟨if e.token ∈ s.hits then s.hits else s.hits ++ [e.token],
      e.pattern.replaceAll spaces s.remaining⟩
  else s

end Scan

namespace Dimension

def all : List Dimension :=
  [colors, categories, occasion, season, fit, silhouette, pattern, material]

def name : Dimension → String
  | colors => "colors"
  | categories => "categories"
  | occasion => "occasion"
  | season => "season"
  | fit => "fit"
  | silhouette => "silhouette"
  | pattern => "pattern"
  | material => "material"

def ofName? (name : String) : Option Dimension :=
  all.find? (·.name == name)

def vocabulary : Dimension → Vocabulary
  | colors => Vocabulary.colors
  | categories => Vocabulary.categories
  | occasion => Vocabulary.occasion
  | season => Vocabulary.season
  | fit => Vocabulary.fit
  | silhouette => Vocabulary.silhouette
  | pattern => Vocabulary.pattern
  | material => Vocabulary.material

def tokens (d : Dimension) : List String :=
  d.vocabulary.map (·.1)

/-- The phrases of a dimension in the order in which they are tried. -/
def entries (d : Dimension) : List Entry :=
  Entry.longestFirst (d.vocabulary.flatMap fun (token, phrases) => phrases.map (⟨token, ·⟩))

/-- The tokens that a text names, in the order of their finding, and what is left of the text. -/
def scan (d : Dimension) (text : List Char) : Scan :=
  d.entries.foldl Scan.look ⟨[], text⟩

/-- The tokens that a text names. -/
def find (d : Dimension) (text : List Char) : List String :=
  (d.scan text).hits

end Dimension

end Outfitter.Taxonomy
