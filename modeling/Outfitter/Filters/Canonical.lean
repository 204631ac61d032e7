import Outfitter.Filters.Prune
import Outfitter.Taxonomy.Vocabulary
import Outfitter.Text.Clean
import Outfitter.Text.Pattern
import Outfitter.Value.Literal

/-!
Canonical filters: the tokens by which the catalog is indexed, each once, and nothing vacuous.

The list fields of a payload are rewritten token by token, where their dimension has a rule for it. A
mention of pastel among the colors stands for the whole pastel palette, and takes the place of the other
colors.
-/

namespace Outfitter.Filters

open Text

/-- The fields that hold lists. -/
def listFields : List String :=
  ["include_categories", "category_ids", "colors", "sizes", "occasion", "season", "fit", "silhouette",
    "material", "pattern", "brand"]

/-! ### single tokens -/

def pastelMention : Pattern :=
  Pattern.whole (Pattern.all [Pattern.letters "pastel".toList,
    Pattern.optional (Pattern.letters ['s'])])

/-- Two words in one, or with a hyphen or a blank between them. -/
def joinedWords (first second : String) : Pattern :=
  Pattern.all [Pattern.letters first.toList,
    Pattern.optional (Pattern.one fun c => c == '-' || isBlank c), Pattern.letters second.toList]

def blackTie : Pattern :=
  joinedWords "black" "tie"

def dateNight : Pattern :=
  joinedWords "date" "night"

def canonColor (color : String) : String :=
  match String.ofList (clean color.toList) with
  | "gray" => "grey"
  | "light blue" => "light-blue"
  | color => color

def canonOccasion (occasion : String) : String :=
  let formal := blackTie.replaceAll (fun _ => "formal".toList) occasion.toList
  String.ofList (dateNight.replaceAll (fun _ => "date night".toList) formal)

/-- The text is this word in any case. -/
def isWordInAnyCase (word text : String) : Bool :=
  lower text.toList == word.toList

def canonSeason (season : String) : String :=
  if isWordInAnyCase "autumn" season then "fall" else season

def canonSilhouette (silhouette : String) : String :=
  if isWordInAnyCase "aline" silhouette then "a-line" else silhouette

def canonPattern (pattern : String) : String :=
  match String.ofList (lower pattern.toList) with
  | "stripes" => "striped"
  | "polka dots" | "dots" => "polka"
  | "checked" => "check"
  | _ => pattern

/-! ### lists of tokens -/

/-- What two items are compared by: text, numbers and truth values by their value, all else by its
literal. -/
def distinctKey : Value → Value
  | v@(.str _) | v@(.int _) | v@(.float _) | v@(.bool _) => v
  | v => .str (String.ofList v.literal)

/-- The items whose key is not among the keys seen, each key once. -/
def distinctFrom (seen : List Value) : List Value → List Value
  | [] => []
  | v :: vs =>
    if (distinctKey v).isIn seen then distinctFrom seen vs
    else v :: distinctFrom (distinctKey v :: seen) vs

/-- The items without later duplicates. -/
def distinct (items : List Value) : List Value :=
  distinctFrom [] items

/-- The color mentions pastel. -/
def mentionsPastel (color : String) : Bool :=
  pastelMention.foundIn color.toList

/-- The pastel tokens that are there, and the rest of the palette. -/
def pastelTokens (colors : List String) : List String :=
  (colors.filter (·.startsWith "pastel-") ++ Taxonomy.pastelPalette).foldl
    (fun kept c => if c ∈ kept then kept else kept ++ [c]) []

/-- The colors, or the pastel tokens if one of the colors mentions pastel. -/
def pastelFallback (colors : List String) : List String :=
  if colors.any mentionsPastel then pastelTokens colors else colors

/-- The texts of a list rewritten; all else stays. -/
def mapTexts (f : String → String) : Value → Value
  | .list items => .list (items.map fun
    | .str s => .str (f s)
    | v => v)
  | v => v

/-! ### payloads -/

/-- The fields whose tokens have a rule, with the rule. -/
def tokenRules : List (String × (String → String)) :=
  [("colors", canonColor), ("occasion", canonOccasion), ("season", canonSeason),
    ("silhouette", canonSilhouette), ("pattern", canonPattern)]

/-- The field with a function applied to its value, if there is one that says something. -/
def updateGiven (filters : Fields) (key : String) (f : Value → Value) : Fields :=
  let v := Fields.value filters key
  if v.isGiven then Fields.put filters key (f v) else filters

/-- The texts among some colors, with the pastel rule applied. -/
def broadenPastel : Value → Value
  | .list items => .ofStrings (pastelFallback (items.filterMap Value.string?))
  | v => v

/-- A list without later duplicates. -/
def distinctList : Value → Value
  | .list items => .list (distinct items)
  | v => v

/-- The payload with its tokens rewritten and its lists free of duplicates. -/
def canonical (filters : Fields) : Fields :=
  let rewritten := tokenRules.foldl (fun fs (key, rule) => updateGiven fs key (mapTexts rule)) filters
  let broadened := updateGiven rewritten "colors" broadenPastel
  listFields.foldl (fun fs key => updateGiven fs key distinctList) broadened

/-- The canonical payload without anything vacuous. -/
def normalize (filters : Fields) : Fields :=
  Value.pruneFields (canonical filters)

end Outfitter.Filters
