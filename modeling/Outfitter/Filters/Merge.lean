import Outfitter.Filters.Canonical
import Outfitter.Number.Numeral
import Outfitter.Number.Quantity

/-!
Merging the filters of a turn into those of the turns before.

Lists grow, price bounds and single values follow the later turn, and everything else stays as it was.
Turns are therefore merged in their order.
-/

namespace Outfitter.Filters

/-- The fields that hold one value each. -/
def scalarFields : List String :=
  ["in_stock", "sort", "page", "limit", "q"]

/-- The items of a list, and none of anything else. -/
def itemsOf : Value → List Value
  | .list items => items
  | _ => []

/-- The items of two lists, each once. -/
def union (a b : Value) : Value :=
  .list (Value.distinct (itemsOf a ++ itemsOf b))

/-- The number that a bound stands for: a number as it is, a text as it is read. -/
def boundQuantity? : Value → Option Quantity
  | .int n => Quantity.ofDouble? (Double.ofInt n)
  | .float x => Quantity.ofDouble? x
  | .str s => (Numeral.double? s).bind Quantity.ofDouble?
  | _ => none

/-- The later bound if it is given, else the earlier one. -/
def laterBound (base delta : Value) (key : String) : Value :=
  match delta.get key with
  | .null => base.get key
  | v => v

/-- The bounds of two prices. A bound that is no number is left out. -/
def mergePrice (base delta : Value) : Fields :=
  ["min", "max"].filterMap fun key =>
    (boundQuantity? (laterBound base delta key)).map fun q => (key, q.toValue)

/-- The merged payload before pruning. -/
def overlay (base delta : Fields) : Fields :=
  let lists := listFields.foldl (fun (fs : Fields) (key : String) =>
    if Fields.has delta key then
      Fields.put fs key (union (Fields.value base key) (Fields.value delta key))
    else fs) base
  let priced :=
    if Fields.has delta "price" then
      Fields.put lists "price"
        (.object (mergePrice (Fields.value base "price") (Fields.value delta "price")))
    else lists
  scalarFields.foldl (fun (fs : Fields) (key : String) =>
    match Fields.value delta key with
    | .null => fs
    | v => Fields.put fs key v) priced

/-- The filters of earlier turns with those of a later turn. -/
def merge (base delta : Fields) : Fields :=
  Value.pruneFields (overlay base delta)

end Outfitter.Filters
