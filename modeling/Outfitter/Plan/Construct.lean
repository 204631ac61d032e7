import Outfitter.Plan.Record
import Outfitter.Value.Demand

/-!
Constructing a query plan: what filters ask for is written as texts, and every stage passes the check of its
kind.
-/

namespace Outfitter.Plan

open Filters Schema

/-- The stage of a kind with these fields, if it is wanted. -/
def checkedStage (wanted : Bool) (kind : String) (fields : Fields) : Except Fault (List Stage) :=
  if wanted then ((Stage.ofKind kind fields).toExcept .invalid).map ([·]) else .ok []

/-- The conditions on the categorical fields, as the fields of an object. -/
def conditionFields (conditions : List (String × List Value)) : Fields :=
  conditions.map fun (field, values) => (.text field, .list values)

/-- A field and a direction, as a pair. -/
def sortPair : String × Direction → Value
  | (field, d) => .list [.str field, .int d.sign]

/-- The texts that a value lists. -/
def demandList (v : Value) : Except Fault (List String) :=
  v.demandWritable.map listed

/-- The conditions on the categorical fields. -/
def demandConditions (filters : Fields) : Except Fault (List (String × List Value)) :=
  (categoricalFields.mapM fun names => (Fields.value filters names.1).demandWritable).map fun _ =>
    categoricalConditions filters

/-- The fields that a projection keeps or drops. -/
def demandProjection : Value → Except Fault (List (String × Value))
  | v@(.object _) => .ok (projectionFields v)
  | v => v.demandWritable.map projectionFields

/-- The plan for filters, made stage by stage. -/
def construct (filters : Fields) (fields : Value) : Except Fault QueryPlan := do
  let conditions ← demandConditions filters
  let categorical ← checkedStage (!conditions.isEmpty) "categorical_match"
    [("conditions", .object (conditionFields conditions))]
  let _ ← (Fields.value filters "q").demandWritable
  let query := queryText filters
  let hasQuery := !query.isEmpty
  let search ← checkedStage hasQuery "text_search" [("query", .str query)]
  let colors ← demandList (Fields.value filters "colors")
  let sizes ← demandList (Fields.value filters "sizes")
  let inStock := match Fields.value filters "in_stock" with
    | .bool true => true
    | _ => false
  let variant ← checkedStage (!colors.isEmpty || !sizes.isEmpty || inStock) "variant_match"
    [("colors", Stage.optionalValue .ofStrings (someList colors)),
      ("sizes", Stage.optionalValue .ofStrings (someList sizes)), ("in_stock", .bool inStock)]
  let _ ← (lastGiven (Fields.value filters "sort")).demandWritable
  let sort := (sortOrder (Fields.value filters "sort") hasQuery).name
  let (least, most) := priceBounds (Fields.value filters "price")
  let priced := least.isSome || most.isSome
  let derived ← checkedStage (priced || sort ∈ ["price_asc", "price_desc"]) "derived_min_price" []
  let price ← checkedStage priced "price_match"
    (Fields.ofOption "min" (least.map Quantity.toValue) ++ Fields.ofOption "max" (most.map Quantity.toValue))
  let sorted ← checkedStage true "sort" [("keys", .list ((sortKeys sort hasQuery).map sortPair))]
  let page := Filters.page (Fields.value filters "page")
  let limit := Filters.limit (Fields.value filters "limit")
  let skipped ← checkedStage true "skip" [("count", .int (max 0 (((page : Int) - 1) * limit)))]
  let limited ← checkedStage true "limit" [("count", .int limit)]
  let projected ← demandProjection fields
  let projection ← checkedStage (!projected.isEmpty) "projection"
    [("projection", .object (Fields.ofNamed projected))]
  return { stages := categorical ++ search ++ variant ++ derived ++ price ++ (sorted ++ skipped ++ limited) ++
             projection
           sort, page, limit }

/-- The plan for filters of any shape; what is no object asks for nothing. -/
def constructValue (filters fields : Value) : Except Fault QueryPlan :=
  construct (filters.fields?.getD []) fields

end Outfitter.Plan
