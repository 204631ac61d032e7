import Outfitter.Value.Demand

/-!
A sentence that sums up the filters.
-/

namespace Outfitter.Dialogue

/-- What is said when there is nothing to sum up. -/
def fallback : String :=
  "Here are some options you might like."

/-- The element as a text. -/
def textAt (index : Nat) : Value → Except Fault String
  | .str s => .ok s
  | v => .error (.notJoinedAt index v.kind)

/-- The texts that a value lists, with a separator between them. -/
def joinTexts (separator : String) (v : Value) : Except Fault String :=
  match v.elements? with
  | some elements => do
    let texts ← elements.zipIdx.mapM fun (e, i) => textAt i e
    return separator.intercalate texts
  | none => .error .notJoined

/-- The first elements of a list or text. -/
def firstElements (count : Nat) : Value → Except Fault Value
  | .list items => .ok (.list (items.take count))
  | .str s => .ok (.str (String.ofList (s.toList.take count)))
  | .object _ => .error (.notLookedUp "slice")
  | v => .error (.notIndexed v.kind)

/-- An amount of money, without a fraction that says nothing. -/
def money (v : Value) : Except Fault String :=
  match v with
  | .float x =>
    match x.toInt? with
    | some n => .ok s!"${n}"
    | none => .ok s!"${x.text}"
  | v => v.writtenText.map ("$" ++ ·)

/-- The part of the sentence for a field, if the field says something. -/
def part (filters : Value) (key : String) (say : Value → Except Fault String) :
    Except Fault (List String) :=
  let v := filters.get key
  if v.isGiven then (say v).map ([·]) else .ok []

/-- The price bounds. -/
def pricePart (price : Value) : Except Fault (List String) := do
  match price.get "min", price.get "max" with
  | .null, .null => return []
  | .null, most => return ["under " ++ (← money most)]
  | least, .null => return ["over " ++ (← money least)]
  | least, most => return ["between " ++ (← money least) ++ "–" ++ (← money most)]

/-- The price bounds of filters, whose price has to be an object if it says something. -/
def pricePartOf (filters : Value) : Except Fault (List String) :=
  match filters.get "price" with
  | price@(.object _) => pricePart price
  | v => if v.isGiven then .error (.notOffered v.kind "get") else .ok []

/-- The parts of the sentence. -/
def parts (filters : Value) : Except Fault (List String) := do
  let categories ← part filters "include_categories" (joinTexts ", ")
  let occasion ← part filters "occasion" fun v => (joinTexts "/" v).map ("for " ++ ·)
  let season ← part filters "season" fun v => (joinTexts "/" v).map ("in " ++ ·)
  let colors ← part filters "colors" fun v => do
    return "colors: " ++ (← joinTexts ", " (← firstElements 4 v))
  let price ← pricePartOf filters
  return categories ++ occasion ++ season ++ colors ++ price

/-- The sentence that sums up the filters. -/
def summary (filters : Value) : Except Fault String := do
  match ← parts filters with
  | [] => return fallback
  | said => return "Here are picks " ++ " ".intercalate said ++ "."

/-- The sentence for filters of any shape, which have to be an object. -/
def summaryOf (v : Value) : Except Fault String :=
  match v with
  | .object _ => summary v
  | v => .error (.notOffered v.kind "get")

end Outfitter.Dialogue
