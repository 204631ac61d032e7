import Outfitter.Value

/-!
Leaving out what says nothing: null, the empty text, and lists and objects in which nothing is left.
Zero and false do say something.
-/

namespace Outfitter.Value

/-- Null, and the empty text, list and object. -/
def isVacuous : Value → Bool
  | null => true
  | str s => s.isEmpty
  | list items => items.isEmpty
  | object fields => fields.isEmpty
  | _ => false

mutual

/-- The value without anything vacuous inside. -/
def prune : Value → Value
  | list items => list (pruneItems items)
  | object fields => object (pruneFields fields)
  | v => v

def pruneItems : List Value → List Value
  | [] => []
  | v :: vs => if (prune v).isVacuous then pruneItems vs else prune v :: pruneItems vs

def pruneFields : List (Key × Value) → List (Key × Value)
  | [] => []
  | (k, v) :: rest =>
    if (prune v).isVacuous then pruneFields rest else (k, prune v) :: pruneFields rest

end

end Outfitter.Value
