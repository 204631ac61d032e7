import Outfitter.Filters.Params
import Outfitter.Json.Reader
import Outfitter.Plan.Compile
import Outfitter.Text.Clean
import Outfitter.Value.Demand

/-!
Categories of the catalog, and listing its products.

A category is found by its slug or by its display name, both without regard to case or to blanks around
them. Of two categories with one name the earlier is found. To list products, category names become
identifiers, and the parameters of a request a query plan.
-/

namespace Outfitter.Catalog

open Text

structure Category where
  id : String
  slug : String
  name : String
  deriving DecidableEq

/-- The categories that are built in. -/
def Category.defaults : List Category :=
  [⟨"64b000000000000000000001", "dresses", "Dresses"⟩,
    ⟨"64b000000000000000000002", "tops", "Tops"⟩,
    ⟨"64b000000000000000000003", "pants", "Pants"⟩,
    ⟨"64b000000000000000000004", "skirts", "Skirts"⟩,
    ⟨"64b000000000000000000005", "shoes", "Shoes"⟩,
    ⟨"64b000000000000000000006", "accessories", "Accessories"⟩,
    ⟨"64b000000000000000000007", "outerwear", "Outerwear"⟩]

/-- What names are compared by. -/
def nameKey (name : String) : String :=
  trimLower name

/-- The identifiers of categories by the keys of their names. -/
abbrev Table :=
  List (String × String)

namespace Table

/-- The keys of one category that are not blank, its slug before its display name. -/
def rowsOf (c : Category) : Table :=
  ([c.slug, c.name].map nameKey).filterMap fun key => if key.isEmpty then none else some (key, c.id)

/-- A key that stands in the table already keeps its identifier. -/
def ofCategories (categories : List Category) : Table :=
  (categories.flatMap rowsOf).foldl (fun table row => Keyed.putNew table row.1 row.2) []

/-- The identifier of the category with a name. -/
def idOf? (table : Table) (name : String) : Option String :=
  (List.lookup (nameKey name) table).bind fun id => if id.isEmpty then none else some id

/-- The identifiers of the categories with some names, each once; names of none are passed over. -/
def resolve (table : Table) (names : List Value) : List String :=
  (names.filterMap fun v => v.string?.bind table.idOf?).foldl
    (fun ids id => if id ∈ ids then ids else ids ++ [id]) []

end Table

/-! ### categories from a file -/

/-- A field as text; the empty text if it is left out. -/
def fieldText (row : Fields) (key : String) : String :=
  ((Fields.get? row key).getD (.str "")).text

/-- The category of a row, if the row identifies one. -/
def Category.ofRow (row : Fields) : Option Category :=
  let id := (Fields.value row "id").orElse (Fields.value row "_id")
  if id.isGiven then some ⟨id.text, fieldText row "slug", fieldText row "name"⟩ else none

/-- The categories of some rows, which have to be objects. -/
def Category.ofRows (rows : List Value) : Except Fault (List Category) := do
  let rows ← rows.mapM fun row =>
    match row with
    | .object fields => .ok fields
    | v => .error (.notOffered v.kind "get")
  return rows.filterMap Category.ofRow

/-- The categories that a value lists. -/
def Category.ofValue (v : Value) : Except Fault (List Category) := do
  Category.ofRows (← v.demandElements)

/-- The text with one character at the end of each line. -/
def unixLines : List Char → List Char
  | [] => []
  | '\r' :: '\n' :: rest => '\n' :: unixLines rest
  | '\r' :: rest => '\n' :: unixLines rest
  | c :: rest => c :: unixLines rest

/-- The categories in the text of a file. -/
def Category.ofText (text : String) : Except Fault (List Category) := do
  let text := String.ofList (unixLines text.toList)
  Category.ofValue (← (Json.read text).mapError (Fault.ofReadError text))

/-! ### listing products -/

/-- The identifiers that are given already, and behind them those that are new. -/
def joinIds (given : List Value) (resolved : List String) : List Value :=
  resolved.foldl (fun ids id => if (Value.str id).isIn ids then ids else ids ++ [.str id]) given

/-- The filters with category names folded into the identifiers. -/
def foldCategories (table : Table) (filters : Fields) : Except Fault Fields := do
  let names := Fields.value filters "include_categories"
  if !names.isGiven then return filters
  let rest := Fields.without filters "include_categories"
  let given ← (Fields.value filters "category_ids").demandOptionalElements
  match joinIds given (table.resolve (← names.demandElements)) with
  | [] => return rest
  | ids => return Fields.put rest "category_ids" (.list ids)

/-- The filters and the plan for the parameters of a listing. -/
def listing (table : Table) (params : Fields) (fields : Value) :
    Except Fault (Fields × QueryPlan) := do
  let filters ← foldCategories table (Filters.coerce params)
  return (filters, Plan.compile filters fields)

end Outfitter.Catalog
