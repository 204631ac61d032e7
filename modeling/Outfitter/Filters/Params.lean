import Outfitter.Filters.Canonical
import Outfitter.Filters.Scalars
import Outfitter.Value.Demand

/-!
Filters from request parameters, which have several spellings and may be given several times.
-/

namespace Outfitter.Filters

open Text

/-- The first of some parameters that was not left blank. -/
def firstGiven (params : Fields) (keys : List Key) : Value :=
  ((keys.map (Fields.value params)).find? (!·.isLeftBlank)).getD .null

/-- What is written as the text searched for. -/
def rawQuery (params : Fields) : Value :=
  match firstGiven params ["q", "query", "text"] with
  | .list items => items.getLast?.getD .null
  | v => v

/-- The text searched for. -/
def query (params : Fields) : String :=
  let raw := rawQuery params
  if raw.isLeftBlank then "" else String.ofList (trim raw.text.toList)

/-- What is written as a single identifier. -/
def singleId (params : Fields) : Value :=
  match firstGiven params ["category_id", "categoryId"] with
  | .list items => items.head?.getD .null
  | v => v

/-- The identifiers of categories; a single one is asked for if there is no list of them. -/
def categoryIds (params : Fields) : List String :=
  match objectIds (firstGiven params ["category_ids", "categoryIds"]) with
  | [] => (objectId? (singleId params)).toList
  | ids => ids

/-- The first of some values that is a number and not negative. -/
def firstPrice (values : List Value) : Option Quantity :=
  (values.filterMap quantity?).find? fun q => !q.isBelow (.whole 0)

/-- The price bounds, the lower one first. -/
def priceBounds (params : Fields) : Option Quantity × Option Quantity :=
  let price := Fields.value params "price"
  let bound (key : Key) (others : List Key) :=
    firstPrice (price.get key :: others.map (Fields.value params))
  let least := bound "min" ["price_min", "min_price", "minPrice", "priceMin"]
  let most := bound "max" ["price_max", "max_price", "maxPrice", "priceMax"]
  match least, most with
  | some low, some high => if high.isBelow low then (some high, some low) else (some low, some high)
  | least, most => (least, most)

/-- List fields other than the identifiers, with the parameters that give them. -/
def listParams : List (Key × List Key) :=
  [("include_categories", ["include_categories", "includeCategories"]),
    ("brand", ["brand", "brands"]),
    ("colors", ["colors", "color"]),
    ("sizes", ["sizes", "size"]),
    ("material", ["material", "materials"]),
    ("pattern", ["pattern", "patterns"]),
    ("silhouette", ["silhouette", "silhouettes"]),
    ("fit", ["fit", "fits"]),
    ("occasion", ["occasion", "occasions"]),
    ("season", ["season", "seasons"])]

/-- The value, null if there is none. -/
def orNull (v : Option Value) : Value :=
  v.getD .null

/-- The fields that the parameters give, before normalization. -/
def rawParams (params : Fields) : Fields :=
  let q := query params
  let (least, most) := priceBounds params
  let lists : Fields := listParams.map fun (field, keys) =>
    (field, .ofStrings (listed (firstGiven params keys)))
  let scalars : Fields :=
    [("price", .object [("min", orNull (least.map Quantity.toValue)),
        ("max", orNull (most.map Quantity.toValue))]),
      ("in_stock", orNull ((truth? (firstGiven params ["in_stock", "inStock"])).map .bool)),
      ("sort", .str (sortOrder (Fields.value params "sort") (!q.isEmpty)).name),
      ("page", .int (page (Fields.value params "page"))),
      ("limit", .int (limit (Fields.value params "limit")))]
  ("q", .str q) :: ("category_ids", .ofStrings (categoryIds params)) :: (lists ++ scalars)

/-- The filters that the parameters give. An order, a page and a limit are always among them. -/
def coerce (params : Fields) : Fields :=
  normalize (rawParams params)

/-- What the parameters give that is written as a text before it is read. A number that cannot be written
counts as none; anything else is at fault. -/
def writtenParams (params : Fields) : List Value :=
  let ids := firstGiven params ["category_ids", "categoryIds"]
  [rawQuery params, ids, if (objectIds ids).isEmpty then singleId params else .null] ++
    listParams.map (fun (_, keys) => firstGiven params keys) ++
    [innermostLast (firstGiven params ["in_stock", "inStock"]), lastGiven (Fields.value params "sort")]

/-- The filters from parameters of any shape. -/
def coerceValue (params : Value) : Except Fault Fields := do
  let params ← params.demandOptionalFields "get"
  let _ ← (writtenParams params).mapM Value.demandWritable
  return coerce params

end Outfitter.Filters
