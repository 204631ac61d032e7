import Outfitter.Value

/-!
Stages of a query plan, and the operations of the document store that each stands for.

Products have categorical fields, a base price, a date of creation, and variants with a color and sizes;
a size has a label, a stock and perhaps a price of its own.
-/

namespace Outfitter.Plan

/-- The field that holds how well a product fits the text searched for. -/
def textScoreField : String :=
  "textScore"

/-- The field that holds the least price of a product. -/
def minPriceField : String :=
  "minPrice"

def createdAtField : String :=
  "createdAt"

inductive Direction where
  | ascending
  | descending
  deriving DecidableEq

def Direction.sign : Direction → Int
  | .ascending => 1
  | .descending => -1

inductive Stage where
  /-- Every field takes one of the values listed for it. -/
  | categoricalMatch (conditions : List (String × List Value))
  | textSearch (query scoreField : String)
  /-- One variant has a listed color, and a listed size that is in stock if that is asked for; with
  neither colors nor sizes, any size of any variant is in stock. -/
  | variantMatch (colors sizes : Option (List String)) (inStock : Bool)
  /-- The least of the base price and the prices of all sizes becomes a field. -/
  | derivedMinPrice (field : String)
  | priceMatch (least most : Option Double) (field : String)
  /-- The most significant key comes first. -/
  | sort (keys : List (String × Direction))
  | skip (count : Nat)
  | limit (count : Nat)
  | projection (fields : List (String × Value))

namespace Stage

def kind : Stage → String
  | categoricalMatch _ => "categorical_match"
  | textSearch .. => "text_search"
  | variantMatch .. => "variant_match"
  | derivedMinPrice _ => "derived_min_price"
  | priceMatch .. => "price_match"
  | sort _ => "sort"
  | skip _ => "skip"
  | limit _ => "limit"
  | projection _ => "projection"

/-- The kinds of stages. -/
def kinds : List String :=
  ["categorical_match", "text_search", "variant_match", "derived_min_price", "price_match", "sort",
    "skip", "limit", "projection"]

/-- An object with one field. -/
def single (key : String) (v : Value) : Value :=
  .object [(key, v)]

/-- The value is one of these. -/
def isOneOf (values : List Value) : Value :=
  single "$in" (.list values)

def isPositive : Value :=
  single "$gt" (.int 0)

/-- Some element meets the conditions. -/
def someElement (conditions : Fields) : Value :=
  single "$elemMatch" (.object conditions)

/-- The expression, or this value where it is null. -/
def ifNull (expression alternative : Value) : Value :=
  single "$ifNull" (.list [expression, alternative])

/-- What a size has to meet. -/
def sizeConditions (sizes : List String) (inStock : Bool) : Fields :=
  let label : Fields := if sizes.isEmpty then [] else [("sizeLabel", isOneOf (sizes.map .str))]
  let stock : Fields := if inStock then [("stockQty", isPositive)] else []
  label ++ stock

/-- What a variant has to meet. -/
def variantConditions (colors sizes : List String) (inStock : Bool) : Fields :=
  let size := sizeConditions sizes inStock
  let color : Fields := if colors.isEmpty then [] else [("color", isOneOf (colors.map .str))]
  let ofSize : Fields := if size.isEmpty then [] else [("sizes", someElement size)]
  color ++ ofSize

/-- The operations that gather all sizes, list the prices that a product may have, take the least of
those that are not null, and remove what was only a help. -/
def minPriceOperations (field : String) : List Value :=
  let gathered := single "$reduce" (.object [
    ("input", ifNull (.str "$variants") (.list [])),
    ("initialValue", .list []),
    ("in", single "$concatArrays"
      (.list [.str "$$value", ifNull (.str "$$this.sizes") (.list [])]))])
  let priceOfSize := ifNull (.str "$$sz.priceOverride") (.str "$basePrice")
  let candidates := single "$concatArrays" (.list [
    .list [ifNull (.str "$basePrice") .null],
    single "$map" (.object [("input", .str "$_allSizes"), ("as", .str "sz"), ("in", priceOfSize)])])
  let known := single "$filter" (.object [("input", .str "$_candidatePrices"), ("as", .str "p"),
    ("cond", single "$ne" (.list [.str "$$p", .null]))])
  [single "$addFields" (single "_allSizes" gathered),
    single "$addFields" (single "_candidatePrices" candidates),
    single "$addFields" (single field (single "$min" known)),
    single "$project" (.object [("_allSizes", .int 0), ("_candidatePrices", .int 0)])]

/-- The bounds of a price as a condition. -/
def priceCondition (least most : Option Double) : Fields :=
  Fields.ofOption "$gte" (least.map .float) ++ Fields.ofOption "$lte" (most.map .float)

/-- The operations that a stage stands for. -/
def operations : Stage → List Value
  | categoricalMatch conditions =>
    [single "$match" (.object (conditions.map fun (field, values) => (field, isOneOf values)))]
  | textSearch query scoreField =>
    [single "$match" (single "$text" (single "$search" (.str query))),
      single "$addFields" (single scoreField (single "$meta" (.str "textScore")))]
  | variantMatch colors sizes inStock =>
    let colors := colors.getD []
    let sizes := sizes.getD []
    if colors.isEmpty && sizes.isEmpty then
      [single "$match" (single "variants.sizes.stockQty" isPositive)]
    else
      [single "$match" (single "variants" (someElement (variantConditions colors sizes inStock)))]
  | derivedMinPrice field => minPriceOperations field
  | priceMatch least most field =>
    [single "$match" (single field (.object (priceCondition least most)))]
  | sort keys =>
    [single "$sort" (.object (Fields.ofPairs (keys.map fun (field, d) => (field, .int d.sign))))]
  | skip count => [single "$skip" (.int count)]
  | limit count => [single "$limit" (.int count)]
  | projection fields => [single "$project" (.object (Fields.ofNamed fields))]

end Stage

end Outfitter.Plan
