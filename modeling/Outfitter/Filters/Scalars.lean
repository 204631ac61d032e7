import Outfitter.Number.Numeral
import Outfitter.Number.Quantity
import Outfitter.Text.Clean
import Outfitter.Value.Literal

/-!
Reading parameters: lists, numbers, truth values and identifiers from what a request may bring. Nothing
here fails; what cannot be read is absent.
-/

namespace Outfitter.Filters

open Text

/-- The pieces of a text between commas, trimmed, without the empty ones. -/
def splitList (text : String) : List String :=
  ((splitAt ',' text.toList).map trim).filterMap fun piece =>
    if piece.isEmpty then none else some (String.ofList piece)

mutual

/-- The texts that a value lists: the pieces of a text between commas, and those of every item of a
list. -/
def listed : Value → List String
  | .null => []
  | .list items => listedItems items
  | v => splitList v.text

def listedItems : List Value → List String
  | [] => []
  | v :: vs => listed v ++ listedItems vs

end

mutual

/-- The number that a value writes. Of a list, the last item counts. -/
def quantity? : Value → Option Quantity
  | .int n => Quantity.ofDouble? (Double.ofInt n)
  | .float x => Quantity.ofDouble? x
  | .str s => (Numeral.double? (String.ofList (trim s.toList))).bind Quantity.ofDouble?
  | .list items => lastQuantity? items
  | _ => none

def lastQuantity? : List Value → Option Quantity
  | [] => none
  | [v] => quantity? v
  | _ :: vs => lastQuantity? vs

end

mutual

/-- The truth value that a value writes. Of a list, the last item counts. -/
def truth? : Value → Option Bool
  | .null => none
  | .bool b => some b
  | .list items => lastTruth? items
  | v =>
    let text := trimLower v.text
    if text ∈ ["true", "1", "yes"] then some true
    else if text ∈ ["false", "0", "no"] then some false
    else none

def lastTruth? : List Value → Option Bool
  | [] => none
  | [v] => truth? v
  | _ :: vs => lastTruth? vs

end

mutual

/-- The value itself; of a list, the last item, and of lists within lists the innermost one. -/
def innermostLast : Value → Value
  | .list items => innermostLastOf items
  | v => v

def innermostLastOf : List Value → Value
  | [] => .null
  | [v] => innermostLast v
  | _ :: vs => innermostLastOf vs

end

def isHexDigit (c : Char) : Bool :=
  c.isDigit || ('a' ≤ c && c ≤ 'f') || ('A' ≤ c && c ≤ 'F')

/-- The identifier in the catalog that a value writes: twenty-four hexadecimal digits. -/
def objectId? (v : Value) : Option String :=
  let text := trim v.text.toList
  if text.length = 24 && text.all isHexDigit then some (String.ofList (text.map Char.toLower)) else none

/-- The identifiers that a value lists, each once. -/
def objectIds (v : Value) : List String :=
  ((listed v).filterMap fun s => objectId? (.str s)).foldl
    (fun ids id => if id ∈ ids then ids else ids ++ [id]) []

/-! ### sorting and pages -/

/-- An order of the results. -/
inductive SortOrder where
  | relevance
  | priceAscending
  | priceDescending
  | newest
  deriving DecidableEq

namespace SortOrder

def all : List SortOrder :=
  [relevance, priceAscending, priceDescending, newest]

def name : SortOrder → String
  | relevance => "relevance"
  | priceAscending => "price_asc"
  | priceDescending => "price_desc"
  | newest => "newest"

def ofName? (name : String) : Option SortOrder :=
  all.find? (·.name == name)

/-- The order when none is asked for. -/
def byDefault (hasQuery : Bool) : SortOrder :=
  if hasQuery then relevance else newest

end SortOrder

/-- The value that counts when a parameter was given several times. -/
def lastGiven (v : Value) : Value :=
  match v with
  | .list items => items.getLast?.getD (.str "")
  | v => v.orElse (.str "")

/-- The order that a value names. -/
def sortOrder (v : Value) (hasQuery : Bool) : SortOrder :=
  (SortOrder.ofName? (trimLower (lastGiven v).text)).getD (SortOrder.byDefault hasQuery)

def defaultLimit : Nat :=
  24

def maxLimit : Nat :=
  100

/-- The whole part of a number that is one at least. -/
def positive? (v : Value) : Option Nat := do
  let q ← quantity? v
  if 1 ≤ q.floor then some q.floor.toNat else none

/-- The page that a value names. -/
def page (v : Value) : Nat :=
  (positive? v).getD 1

/-- The size of a page that a value names. -/
def limit (v : Value) : Nat :=
  match positive? v with
  | some n => min n maxLimit
  | none => defaultLimit

end Outfitter.Filters
