import Outfitter.Json.Printer
import Outfitter.Number.Numeral

/-!
Values as they are after they have been written and read again.

Another program is only sent finite numbers: what is infinite or no number arrives as null. A store keeps
all numbers; in it every field is known by a text. A whole number with too many digits cannot be written
for either.
-/

namespace Outfitter.Value

mutual

def exchanged : Value → Value
  | float .nan | float (.infinite _) => null
  | list items => list (exchangedItems items)
  | object fields => object (exchangedFields fields)
  | v => v

def exchangedItems : List Value → List Value
  | [] => []
  | v :: vs => exchanged v :: exchangedItems vs

def exchangedFields : List (Key × Value) → List (Key × Value)
  | [] => []
  | (k, v) :: rest => (k, exchanged v) :: exchangedFields rest

end

mutual

/-- Every number in the value is finite. -/
def isFinite : Value → Bool
  | float .nan | float (.infinite _) => false
  | list items => areFinite items
  | object fields => haveFinite fields
  | _ => true

def areFinite : List Value → Bool
  | [] => true
  | v :: vs => isFinite v && areFinite vs

def haveFinite : List (Key × Value) → Bool
  | [] => true
  | (_, v) :: rest => isFinite v && haveFinite rest

end

mutual

/-- No whole number in the value has too many digits. -/
def isWritable : Value → Bool
  | int n => Numeral.isShort n
  | list items => areWritable items
  | object fields => haveWritable fields
  | _ => true

def areWritable : List Value → Bool
  | [] => true
  | v :: vs => isWritable v && areWritable vs

def haveWritable : List (Key × Value) → Bool
  | [] => true
  | (_, v) :: rest => isWritable v && haveWritable rest

end

end Outfitter.Value

namespace Outfitter

def Key.isText : Key → Bool
  | text _ => true
  | _ => false

/-- The fields as a store keeps them, under the names of their keys. Of two keys with one name the later
value counts. -/
def Fields.kept (fields : Fields) : Fields :=
  if fields.all fun (k, _) => k.isText then fields
  else Fields.ofPairs (fields.map fun (k, v) => (.text (Json.name k), v))

end Outfitter
