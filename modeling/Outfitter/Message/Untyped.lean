import Outfitter.Message.Extraction
import Outfitter.Value.Demand

/-!
Messages and lists of brands that come in any shape.
-/

namespace Outfitter.Message

/-- The brand names among some elements; elements that say nothing are passed over. -/
def brandNames : List Value → Except Fault (List String)
  | [] => .ok []
  | v :: vs => do
    if v.isGiven then
      return (← v.demandText "strip") :: (← brandNames vs)
    else brandNames vs

/-- The brands that a value lists. -/
def brandsOf (v : Value) : Except Fault (List String) := do
  brandNames (← v.demandOptionalElements)

/-- The element is looked for in a message: it says something, and it is not blank. -/
def isLookedFor (v : Value) : Bool :=
  v.isGiven && !(v.string?.any fun s => (Text.trim s.toList).isEmpty)

/-- The brands in a value that should be a text. If it is none, this shows when the first brand is
looked for in it. -/
def brandsIn (text known : Value) : Except Fault (List String) := do
  let elements ← known.demandOptionalElements
  match text with
  | .str s => return brands s.toList (← brandNames elements)
  | v =>
    let _ ← brandNames ((elements.find? isLookedFor).toList)
    .error (.notSearched v.kind)

/-- Some element is the text. For a text itself, some stretch of it is. -/
def lists (v : Value) (text : String) : Except Fault Bool :=
  match v with
  | .str s => .ok (Text.hasInfix text.toList s.toList)
  | v =>
    match v.elements? with
    | some elements => .ok ((Value.str text).isIn elements)
    | none => .error (.noMembers v.kind)

/-- The intent of a value that should be a text, when the occasions come in any shape. -/
def intentIn (text occasions : Value) : Except Fault Intent := do
  let wedding ← lists occasions "wedding"
  return intentOf (← text.demandSearchable) (if wedding then ["wedding"] else [])

end Outfitter.Message
