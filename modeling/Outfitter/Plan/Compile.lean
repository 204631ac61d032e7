import Outfitter.Filters.Merge
import Outfitter.Filters.Scalars
import Outfitter.Plan.Stage

/-!
Compiling filters into a query plan.

The stages come in a fixed order: categorical match, text search, variant match, derived price, price
match, sort, skip, limit, projection. A stage with nothing to ask for is left out.
-/

namespace Outfitter

/-- Stages in the order in which they run, and the order and page of the results. -/
structure QueryPlan where
  stages : List Plan.Stage
  sort : String
  page : Int
  limit : Int

namespace QueryPlan

def kinds (plan : QueryPlan) : List String :=
  plan.stages.map Plan.Stage.kind

/-- The operations of all stages. -/
def pipeline (plan : QueryPlan) : List Value :=
  plan.stages.flatMap Plan.Stage.operations

/-- The first stage of a kind. -/
def stage? (plan : QueryPlan) (kind : String) : Option Plan.Stage :=
  plan.stages.find? (·.kind == kind)

end QueryPlan

namespace Plan

open Filters

/-- Categorical filters with the fields of a product that they are about. -/
def categoricalFields : List (String × String) :=
  [("category_ids", "category"), ("brand", "brand"), ("material", "material"),
    ("pattern", "pattern"), ("silhouette", "silhouette"), ("fit", "fit"), ("occasion", "occasion"),
    ("season", "season")]

/-- The values listed for each categorical field. -/
def categoricalConditions (filters : Fields) : List (String × List Value) :=
  categoricalFields.filterMap fun (key, field) =>
    match listed (Fields.value filters key) with
    | [] => none
    | values => some (field, values.map .str)

/-- The text searched for. -/
def queryText (filters : Fields) : String :=
  match Fields.value filters "q" with
  | .null => ""
  | v => String.ofList (Text.trim v.text.toList)

/-- The keys of an order. Of equal products the newest comes first. -/
def sortKeys (sort : String) (hasQuery : Bool) : List (String × Direction) :=
  let newest := (createdAtField, Direction.descending)
  match sort with
  | "relevance" => if hasQuery then [(textScoreField, .descending), newest] else [newest]
  | "price_asc" => [(minPriceField, .ascending), newest]
  | "price_desc" => [(minPriceField, .descending), newest]
  | _ => [newest]

/-- A bound that is given as a number. -/
def bound? (bounds : Fields) (key : String) : Option Quantity :=
  boundQuantity? (Fields.value bounds key)

/-- The price bounds, the lower one first. -/
def priceBounds (price : Value) : Option Quantity × Option Quantity :=
  let bounds := mergePrice (.object []) price
  match bound? bounds "min", bound? bounds "max" with
  | some low, some high => if high.isBelow low then (some high, some low) else (some low, some high)
  | least, most => (least, most)

/-- A quantity as a double. -/
def double : Quantity → Double
  | .whole n => Double.ofInt n
  | .fraction x => .finite x

/-- The values as an optional list: none if there are none. -/
def someList (values : List String) : Option (List String) :=
  if values.isEmpty then none else some values

/-- The fields that a projection keeps or drops: those of an object as it says, those that are merely
listed are kept. -/
def projectionFields : Value → List (String × Value)
  | .object fields => fields.map fun (k, v) => (k.shown, v)
  | v => (listed v).foldl (fun kept name => Keyed.put kept name (.int 1)) []

/-- The stage if it is wanted. -/
def stageIf (wanted : Bool) (stage : Stage) : List Stage :=
  if wanted then [stage] else []

/-- The plan for filters. Category names have to be resolved before; `fields` lists the fields to
project, if any. -/
def compile (filters : Fields) (fields : Value) : QueryPlan :=
  let conditions := categoricalConditions filters
  let query := queryText filters
  let hasQuery := !query.isEmpty
  let colors := listed (Fields.value filters "colors")
  let sizes := listed (Fields.value filters "sizes")
  let inStock := match Fields.value filters "in_stock" with
    | .bool true => true
    | _ => false
  let sort := (sortOrder (Fields.value filters "sort") hasQuery).name
  let (least, most) := priceBounds (Fields.value filters "price")
  let priced := least.isSome || most.isSome
  let page := Filters.page (Fields.value filters "page")
  let limit := Filters.limit (Fields.value filters "limit")
  let projected := projectionFields fields
  { stages :=
      stageIf (!conditions.isEmpty) (.categoricalMatch conditions) ++
      stageIf hasQuery (.textSearch query textScoreField) ++
      stageIf (!colors.isEmpty || !sizes.isEmpty || inStock)
        (.variantMatch (someList colors) (someList sizes) inStock) ++
      stageIf (priced || sort ∈ ["price_asc", "price_desc"]) (.derivedMinPrice minPriceField) ++
      stageIf priced (.priceMatch (least.map double) (most.map double) minPriceField) ++
      [.sort (sortKeys sort hasQuery), .skip ((page - 1) * limit), .limit limit] ++
      stageIf (!projected.isEmpty) (.projection projected)
    sort, page, limit }

/-- The plan for filters of any shape; what is no object asks for nothing. -/
def compileValue (filters fields : Value) : QueryPlan :=
  compile (filters.fields?.getD []) fields

end Plan

end Outfitter
