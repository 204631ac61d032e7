import Outfitter.Filters.Merge
import Outfitter.Journal.Trace
import Outfitter.Value.Demand
import Outfitter.Value.Order

/-!
Filters that come in any shape. What says nothing stands for the empty payload, a list of pairs for the
payload with these fields, and anything else is at fault. A merge of them leaves an entry in the journal.
-/

namespace Outfitter.Filters

/-- An element of a list as a field: a key and a value, and nothing else. -/
def pairOf (index : Nat) (element : Value) : Except Fault (Key × Value) :=
  match element.elements? with
  | some [k, v] =>
    match k.key? with
    | some key => .ok (key, v)
    | none => .error (.notLookedUp k.kind.name)
  | some elements => .error (.notPair index elements.length)
  | none => .error (.notSequence index)

/-- The fields with one more. Of two keys that count the same the earlier one stays, with the later
value. -/
def addPair (fields : Fields) (key : Key) (v : Value) : Fields :=
  fields.put (key.among fields.keys) v

/-- The fields that a value stands for. -/
def ofValue (v : Value) : Except Fault Fields :=
  match v with
  | .object fields => .ok fields
  | v => do
    let elements ← v.demandOptionalElements
    let pairs ← elements.zipIdx.mapM fun (e, i) => pairOf i e
    return pairs.foldl (fun fields (k, v) => addPair fields k v) []

/-! ### single tokens and payloads -/

def canonColorOf (v : Value) : Except Fault String :=
  (v.demandOptionalText "strip").map canonColor

def canonOccasionOf (v : Value) : Except Fault String :=
  v.demandSearchable.map fun text => canonOccasion (String.ofList text)

def canonSeasonOf (v : Value) : Except Fault String :=
  (v.demandText "lower").map canonSeason

def canonSilhouetteOf (v : Value) : Except Fault String :=
  (v.demandText "lower").map canonSilhouette

def canonPatternOf (v : Value) : Except Fault String :=
  (v.demandText "lower").map canonPattern

/-- The first of some elements that mentions pastel, if all before it are texts. -/
def findPastel : List Value → Except Fault Bool
  | [] => .ok false
  | v :: vs => do
    if pastelMention.foundIn (← v.demandSearchable) then return true
    findPastel vs

/-- The pastel rule on a value that lists colors. If it does not apply the value stays as it is. -/
def pastelFallbackOf (v : Value) : Except Fault Value := do
  let elements ← v.demandElements
  if ← findPastel elements then
    let colors ← elements.mapM fun c => c.demandText "startswith"
    return .ofStrings (pastelTokens colors)
  return v

/-- The fields of a payload of any shape with its tokens rewritten. -/
def canonicalValue (v : Value) : Except Fault Fields :=
  (ofValue v).map canonical

def normalizeValue (v : Value) : Except Fault Fields :=
  (ofValue v).map normalize

/-- The merge of payloads of any shape. Only an object can be asked for single fields, and the elements
of the earlier payload have to have an order. -/
def mergeValues (base delta : Value) : Except Fault Fields := do
  let fields ← ofValue base
  match delta with
  | .object later =>
    let asked := (listFields.any fun key => Fields.has later key) || Fields.has later "price"
    if base.isGiven && base.fields?.isNone && asked then .error (.notOffered base.kind "get")
    else (base.orElse (.object [])).sortedElements.map fun _ => merge fields later
  | delta =>
    if !delta.isGiven then (base.orElse (.object [])).sortedElements.map fun _ => merge fields []
    else if delta.elements?.isSome then .error (.notOffered delta.kind "get")
    else .error (.noMembers delta.kind)

/-! ### in the journal -/

open Journal

/-- The entry about a merge. -/
def mergeEntry (baseKeys deltaKeys : List Value) : Entry :=
  .info "MERGE" "filters merged" [("base_keys", .list baseKeys), ("delta_keys", .list deltaKeys)]

/-- The merge of payloads of any shape. -/
def merged (base delta : Value) : Traced Fields := do
  let filters ← liftExcept (mergeValues base delta)
  let keys (v : Value) := (v.orElse (.object [])).sortedElements
  Traced.note (mergeEntry (← liftExcept (keys base)) (← liftExcept (keys delta)))
  return filters

end Outfitter.Filters
