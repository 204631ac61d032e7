import Outfitter.Filters.Canonical
import Outfitter.Filters.Scalars
import Outfitter.Schema.Check

/-!
The filter payload as a record: filters that cross the boundary of the program have this form. A field
that is absent asks for nothing.
-/

namespace Outfitter.Schema

/-- Price bounds; either may be absent. -/
structure PriceRange where
  least : Option Double
  most : Option Double

structure Payload where
  includeCategories : Option (List String)
  categoryIds : Option (List String)
  colors : Option (List String)
  sizes : Option (List String)
  price : Option PriceRange
  occasion : Option (List String)
  season : Option (List String)
  fit : Option (List String)
  silhouette : Option (List String)
  material : Option (List String)
  pattern : Option (List String)
  brand : Option (List String)
  q : Option String
  inStock : Option Bool
  sort : Option String
  page : Option Int
  limit : Option Int

/-- The field if there is a value for it. -/
def presentField {α : Type} (name : String) (f : α → Value) (a : Option α) : Fields :=
  Fields.ofOption name (a.map f)

namespace PriceRange

def toFields (p : PriceRange) : Fields :=
  presentField "min" .float p.least ++ presentField "max" .float p.most

def check (otherwise : String → Mismatch) : Value → Checked PriceRange :=
  record (otherwise "PriceRange") fun fields =>
    PriceRange.mk <$> optional fields ["min"] none (orNone nonNegativeNumber)
      <*> optional fields ["max"] none (orNone nonNegativeNumber)

end PriceRange

namespace Payload

/-- The allowed orders, written out. -/
def sortNames : String :=
  "'relevance', 'price_asc', 'price_desc' or 'newest'"

/-- The payload that a value describes; `otherwise` is what is wrong with a value that is no object and
should be a record of a kind. -/
def check (otherwise : String → Mismatch) : Value → Checked Payload :=
  record (otherwise "FilterPayload") fun fields =>
    let list (names : List String) := optional fields names none (orNone texts)
    Payload.mk <$> list ["include_categories", "includeCategories"]
      <*> list ["category_ids", "categoryIds"] <*> list ["colors"] <*> list ["sizes"]
      <*> optional fields ["price"] none (orNone (PriceRange.check otherwise))
      <*> list ["occasion"] <*> list ["season"] <*> list ["fit"] <*> list ["silhouette"]
      <*> list ["material"] <*> list ["pattern"] <*> list ["brand"]
      <*> optional fields ["q"] none (orNone text)
      <*> optional fields ["in_stock", "inStock"] none (orNone truth)
      <*> optional fields ["sort"] none
        (orNone (oneOf (Filters.SortOrder.all.map Filters.SortOrder.name) sortNames))
      <*> optional fields ["page"] none (orNone (wholeWithin 1 none))
      <*> optional fields ["limit"] none (orNone (wholeWithin 1 (some Filters.maxLimit)))

/-- The fields that are present. -/
def toFields (p : Payload) : Fields :=
  presentField "include_categories" .ofStrings p.includeCategories ++
  presentField "category_ids" .ofStrings p.categoryIds ++
  presentField "colors" .ofStrings p.colors ++
  presentField "sizes" .ofStrings p.sizes ++
  presentField "price" (fun r => .object r.toFields) p.price ++
  presentField "occasion" .ofStrings p.occasion ++
  presentField "season" .ofStrings p.season ++
  presentField "fit" .ofStrings p.fit ++
  presentField "silhouette" .ofStrings p.silhouette ++
  presentField "material" .ofStrings p.material ++
  presentField "pattern" .ofStrings p.pattern ++
  presentField "brand" .ofStrings p.brand ++
  presentField "q" .str p.q ++
  presentField "in_stock" .bool p.inStock ++
  presentField "sort" .str p.sort ++
  presentField "page" .int p.page ++
  presentField "limit" .int p.limit

/-- The payload as canonical filters. -/
def toFilters (p : Payload) : Fields :=
  Filters.normalize p.toFields

/-- The payload that some filters make; what says nothing makes the empty one. -/
def ofFilters (filters : Value) : Checked Payload :=
  check .notRecord (filters.orElse (.object []))

end Payload

end Outfitter.Schema
