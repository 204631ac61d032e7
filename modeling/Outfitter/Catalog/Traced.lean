import Outfitter.Catalog.Listing
import Outfitter.Journal.Latency
import Outfitter.Plan.Traced

/-!
Listing products with entries in the journal, from values of any shape.
-/

namespace Outfitter.Catalog

open Journal

/-- The entry about the categories with some names. -/
def resolvedEntry (names : List Value) (ids : List String) : Entry :=
  .info "CATALOG" "categories resolved" [("names", .list names), ("ids", .ofStrings ids)]

/-- The identifiers of the categories with some names. -/
def resolved (table : Table) (names : Value) : Traced (List String) := do
  let names ← liftExcept names.demandOptionalElements
  let ids := table.resolve names
  Traced.note (resolvedEntry names ids)
  return ids

/-- The filters with category names folded into the identifiers. -/
def folded (table : Table) (filters : Value) : Traced Fields :=
  Traced.inStage "CATALOG" "resolve_categories" do
    match filters with
    | .object fields =>
      let result ← liftExcept (foldCategories table fields)
      if (Fields.value fields "include_categories").isGiven then
        let _ ← resolved table (Fields.value fields "include_categories")
      return result
    | v => throw (.notOffered v.kind "get")

/-- The filters and the plan for the parameters of a listing. -/
def listed (table : Table) (params fields : Value) : Traced (Fields × QueryPlan) := do
  let coerced ← Traced.inStage "CATALOG" "coerce_filters" (liftExcept (Filters.coerceValue params))
  let filters ← folded table (.object coerced)
  let plan ← Traced.inStage "COMPILE" "compile_query" (Plan.compiled (.object filters) fields)
  Traced.note (latency "CATALOG" (.str "catalog_service.build_plan") 0
    [("meta", .object [("stages", .int plan.stages.length)])])
  return (filters, plan)

/-- How the catalog is: it resolves names, or it is at fault. -/
def health (table : Table) : Traced Value := do
  let _ ← resolved table (.ofStrings ["dresses"])
  return .object [("status", .str "ok")]

end Outfitter.Catalog
