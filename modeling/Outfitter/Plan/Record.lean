import Outfitter.Json.Codec
import Outfitter.Plan.Compile

/-!
Query plans as records: writing a plan as a value, checking a value that is to be a plan, and reading a plan again
from the text that is printed for it.
-/

namespace Outfitter

open Schema Checked

namespace Plan.Stage

/-- The value, null if there is none. -/
def optionalValue {α : Type} (f : α → Value) : Option α → Value
  | some a => f a
  | none => .null

/-- The fields of a stage, its kind first. -/
def toFields (s : Stage) : Fields :=
  ("kind", .str s.kind) ::
    match s with
    | categoricalMatch conditions =>
      [("conditions", .object (conditions.map fun (field, values) => (field, .list values)))]
    | textSearch query scoreField => [("query", .str query), ("score_field", .str scoreField)]
    | variantMatch colors sizes inStock =>
      [("colors", optionalValue .ofStrings colors), ("sizes", optionalValue .ofStrings sizes),
        ("in_stock", .bool inStock)]
    | derivedMinPrice field => [("field", .str field)]
    | priceMatch least most field =>
      [("min", optionalValue .float least), ("max", optionalValue .float most),
        ("field", .str field)]
    | sort keys =>
      [("keys", .list (keys.map fun (field, d) => .list [.str field, .int d.sign]))]
    | skip count => [("count", .int count)]
    | limit count => [("count", .int count)]
    | projection fields => [("projection", .object (Fields.ofNamed fields))]

def toValue (s : Stage) : Value :=
  .object s.toFields

/-- Any value. -/
def anything (v : Value) : Checked Value :=
  .ok v

/-- A direction is written as one of two numbers. A whole number has to be one of 64 bits even to be
compared with them. -/
def direction (v : Value) : Checked Direction :=
  match v with
  | .int n => if isWord n then compared v else .fail .wholeTooLarge
  | v => compared v
where
  compared (v : Value) : Checked Direction :=
    if v.same (.int Direction.ascending.sign) then .ok .ascending
    else if v.same (.int Direction.descending.sign) then .ok .descending
    else .fail (.notAllowed "1 or -1")

/-- A field and a direction. -/
def sortKey : Value → Checked (String × Direction)
  | v@(.list []) => (·, ·) <$> missing (.item 0) v <*> missing (.item 1) v
  | v@(.list [field]) => (·, ·) <$> part (.item 0) text field <*> missing (.item 1) v
  | .list [field, d] => (·, ·) <$> part (.item 0) text field <*> part (.item 1) direction d
  | .list items => .fail (.pairTooLong items.length)
  | _ => .fail .notPair

/-- One sort key or more. -/
def sortKeysOf (v : Value) : Checked (List (String × Direction)) :=
  (listOf sortKey v).andThen fun keys =>
    if keys.isEmpty then .fail (.listTooShort 1 0) else .ok keys

/-- A count that is not below a least one. -/
def count (least : Int) (v : Value) : Checked Nat :=
  Int.toNat <$> wholeWithin least none v

/-- A stage whose parts fit, unless there is a reason against the whole. -/
def unlessExcluded (reason : String) (excluded : Bool) (s : Stage) : Checked Stage :=
  if excluded then .fail (.rejected reason) else .ok s

/-- A list in which nothing is listed, or no list. -/
def isBare (values : Option (List String)) : Bool :=
  (values.getD []).isEmpty

/-- The stage of a kind with these fields. -/
def ofKind (kind : String) (fields : Fields) : Checked Stage :=
  match kind with
  | "categorical_match" =>
    (required fields "conditions" (objectOf (listOf anything))).andThen fun conditions =>
      unlessExcluded "categorical_match needs at least one condition" conditions.isEmpty
        (categoricalMatch conditions)
  | "text_search" =>
    textSearch <$> required fields "query" (textAtLeast 1)
      <*> optional fields ["score_field"] textScoreField text
  | "variant_match" =>
    Checked.andThen ((·, ·, ·) <$> optional fields ["colors"] none (orNone texts)
      <*> optional fields ["sizes"] none (orNone texts)
      <*> optional fields ["in_stock"] false truth) fun (colors, sizes, inStock) =>
        unlessExcluded "variant_match needs colors, sizes or in_stock"
          (isBare colors && isBare sizes && !inStock) (variantMatch colors sizes inStock)
  | "derived_min_price" => derivedMinPrice <$> optional fields ["field"] minPriceField text
  | "price_match" =>
    Checked.andThen ((·, ·, ·) <$> optional fields ["min"] none (orNone number)
      <*> optional fields ["max"] none (orNone number)
      <*> optional fields ["field"] minPriceField text) fun (least, most, field) =>
        unlessExcluded "price_match needs min or max" (least.isNone && most.isNone)
          (priceMatch least most field)
  | "sort" => sort <$> required fields "keys" sortKeysOf
  | "skip" => skip <$> required fields "count" (count 0)
  | "limit" => limit <$> required fields "count" (count 1)
  | _ =>
    (required fields "projection" (objectOf anything)).andThen fun projected =>
      unlessExcluded "projection needs at least one field" projected.isEmpty (projection projected)

/-- The stage that a value describes. -/
def ofValue : Value → Checked Stage
  | .object fields =>
    match Fields.get? fields "kind" with
    | none => .fail (.noKind "kind")
    | some (.str kind) =>
      if kind ∈ kinds then part (.field kind) (fun _ => ofKind kind fields) (.object fields)
      else .fail (.unknownKind kind "kind" kinds)
    | some tag => .fail (.unknownKind tag.text "kind" kinds)
  | _ => .fail .noFields

end Plan.Stage

namespace QueryPlan

def toValue (plan : QueryPlan) : Value :=
  .object [("stages", .list (plan.stages.map Plan.Stage.toValue)), ("sort", .str plan.sort),
    ("page", .int plan.page), ("limit", .int plan.limit)]

/-- The plan that a value describes. -/
def ofValue : Value → Checked QueryPlan :=
  record (.notRecord "QueryPlan") fun fields =>
    QueryPlan.mk <$> required fields "stages" (listOf Plan.Stage.ofValue)
      <*> required fields "sort" text <*> required fields "page" whole
      <*> required fields "limit" whole

/-! ### sending a plan -/

/-- The plan as it is read again from the text that a codec prints for it. -/
def rereadBy (codec : Json.Codec) (plan : QueryPlan) : Except Fault QueryPlan := do
  let text ← codec.print plan.toValue
  ((codec.read text).andThen ofValue).toExcept .invalid

/-- The plan as it is read again where no more than 258 values within each other are printed, and a reader goes into
200 lists and objects. -/
def reread (plan : QueryPlan) : Except Fault QueryPlan :=
  plan.rereadBy (Json.Codec.plain.limited 258 200)

end QueryPlan

end Outfitter
