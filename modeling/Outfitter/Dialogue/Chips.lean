import Outfitter.Dialogue.Slots
import Outfitter.Taxonomy.Vocabulary
import Outfitter.Text.Clean
import Outfitter.Value.Demand

/-!
Suggestions: categories that go with those chosen, and chips for what is still open.
-/

namespace Outfitter.Dialogue

/-- Categories with those that complement them. The first one present decides. -/
def complementRules : List (String × List String) :=
  [("tops", ["pants", "skirts", "accessories"]),
    ("dresses", ["shoes", "accessories", "outerwear"]),
    ("pants", ["tops", "accessories"]),
    ("skirts", ["tops", "accessories"]),
    ("shoes", ["accessories"])]

/-- What complements any other choice. -/
def defaultComplements : List String :=
  ["accessories"]

/-- The complements of some categories. -/
def complementsOf (categories : List Value) : List String :=
  ((complementRules.find? fun (category, _) => (Value.str category).isIn categories).map
    (·.2)).getD defaultComplements

/-- Lists and objects cannot be looked up. -/
def checkLookedUp : Value → Except Fault Unit
  | v@(.list _) | v@(.object _) => .error (.notLookedUp v.kind.name)
  | _ => .ok ()

/-- The complements of categories that come in any shape. -/
def complements (categories : Value) : Except Fault (List String) := do
  let elements ← categories.demandOptionalElements
  elements.forM checkLookedUp
  return complementsOf elements

/-- How many chips are offered at most. -/
def maxChips : Nat :=
  8

/-- The chips that are equal up to case to none before them. -/
def distinctChips (chips : List String) : List String :=
  chips.foldl (fun kept chip =>
    let lower (s : String) := Text.lower s.toList
    if kept.any fun k => lower k == lower chip then kept else kept ++ [chip]) []

/-- The chips for filters, with a complement to show if there is one. -/
def chips (filters : Value) (complement : Option String) : List String :=
  let unlessFilled (path : List String) (offered : List String) :=
    if isFilledAt filters path then [] else offered
  (distinctChips (
    unlessFilled ["price", "max"] ["Under $50", "Under $100", "Under $150", "Under $200"] ++
    unlessFilled ["season"] ["Spring", "Summer", "Fall", "Winter"] ++
    unlessFilled ["colors"] ["Black", "Navy", "Beige", "Pastel"] ++
    (complement.map ("Show " ++ ·)).toList ++
    unlessFilled ["include_categories"] Taxonomy.categoryChips)).take maxChips

/-- The first of some complements that come in any shape. -/
def firstComplement (complements : Value) : Except Fault (Option String) :=
  if complements.isGiven then
    match complements with
    | .list (v :: _) => v.writtenText.map some
    | .str s => .ok (s.toList.head?.map fun c => c.toString)
    | .object _ => .error (.unknownKey (.int 0))
    | v => .error (.notIndexed v.kind)
  else .ok none

end Outfitter.Dialogue
