import Outfitter.Filters.Canonical
import Outfitter.Text.Clean
import Outfitter.Value.Demand

/-!
Filters from the analysis of a picture: the kind of the piece, its colors, its pattern and material.
-/

namespace Outfitter.Message

open Text

/-- Parts of words by which the kind of a piece shows, and the category of that kind. -/
def pieceRules : List (List String × String) :=
  [(["dress"], "dresses"),
    (["shirt", "top", "blouse", "tee", "t-shirt", "sweater", "hoodie", "camisole", "tank", "polo"],
      "tops"),
    (["pant", "trouser", "jean", "denim", "chino", "legging"], "pants"),
    (["skirt"], "skirts"),
    (["shoe", "heel", "pump", "sandal", "sneaker", "boot", "flat"], "shoes"),
    (["bag", "belt", "hat", "jewel", "earring", "necklace", "bracelet", "scarf", "clutch"],
      "accessories"),
    (["jacket", "coat", "blazer", "cardigan", "trench", "parka"], "outerwear")]

/-- The category of a piece: the first with a rule that shows in its name. -/
def categoryOf (piece : List Char) : Option String :=
  (pieceRules.find? fun (parts, _) => parts.any fun part => hasInfix part.toList piece).map (·.2)

/-- A text as a field with one token, if any is left of it. -/
def tokenField (analysis : Fields) (key : String) : Fields :=
  match Fields.value analysis key with
  | .str s =>
    let token := clean s.toList
    if token.isEmpty then [] else [(key, .ofStrings [String.ofList token])]
  | _ => []

/-- The colors, cleaned. -/
def colorField (analysis : Fields) : Fields :=
  match Fields.value analysis "colors" with
  | .list items =>
    [("colors", .ofStrings (items.filterMap fun v => v.string?.map fun s =>
      String.ofList (clean s.toList)))]
  | _ => []

/-- The filters for pieces like the one in the picture. -/
def imageFilters (analysis : Fields) : Except Fault Fields := do
  let piece ← (Fields.value analysis "item_type").demandOptionalText "lower"
  let stock : Fields := [("in_stock", .bool true)]
  let category := (categoryOf (clean piece.toList)).map fun c => .ofStrings [c]
  return Filters.normalize (stock ++ Fields.ofOption "include_categories" category ++
    colorField analysis ++ tokenField analysis "pattern" ++ tokenField analysis "material")

/-- The filters from an analysis of any shape. -/
def imageFiltersOf (analysis : Value) : Except Fault Fields := do
  imageFilters (← analysis.demandOptionalFields "get")

end Outfitter.Message
