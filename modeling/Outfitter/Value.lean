import Outfitter.Keyed
import Outfitter.Number.Double

/-!
Dynamic values: what requests, filter payloads, stored sessions and log entries are made of.

Whole numbers and doubles are told apart, and the fields of an object keep their order. `Value.same`
compares by value: a whole number, a double and a truth value are equal if they count the same, and the
order of the fields does not matter.

Nearly all fields are known by a text. Only fields that were made from pairs may have another scalar for
a key.
-/

namespace Outfitter

/-- What a field is known by. -/
inductive Key where
  | text (s : String)
  | null
  | bool (b : Bool)
  | int (n : Int)
  | float (x : Double)
  deriving DecidableEq

instance : Coe String Key :=
  ⟨.text⟩

inductive Value where
  | null
  | bool (b : Bool)
  | int (n : Int)
  | float (x : Double)
  | str (s : String)
  | list (items : List Value)
  | object (fields : List (Key × Value))
  deriving Inhabited

/-- The fields of an object in the order in which they were first set. -/
abbrev Fields :=
  List (Key × Value)

namespace Fields

/-- The value of a field, if there is such a field. -/
def get? (fields : Fields) (key : Key) : Option Value :=
  List.lookup key fields

/-- The value of a field, null if there is none. -/
def value (fields : Fields) (key : Key) : Value :=
  (get? fields key).getD .null

def has (fields : Fields) (key : Key) : Bool :=
  (get? fields key).isSome

/-- The fields with a field set. -/
def put (fields : Fields) (key : Key) (value : Value) : Fields :=
  Keyed.put fields key value

def without (fields : Fields) (key : Key) : Fields :=
  Keyed.without fields key

/-- The fields of a list of pairs; of two with one key the later value stays, in the earlier place. -/
def ofPairs (pairs : List (Key × Value)) : Fields :=
  pairs.foldl (fun fields (k, v) => fields.put k v) []

/-- Fields that are known by texts. -/
def ofNamed (named : List (String × Value)) : Fields :=
  named.map fun (name, v) => (.text name, v)

/-- The field if there is a value for it. -/
def ofOption (key : Key) (v : Option Value) : Fields :=
  (v.map (key, ·)).toList

def keys (fields : Fields) : List Key :=
  fields.map (·.1)

end Fields

/-- The key as a value. -/
def Key.toValue : Key → Value
  | text s => .str s
  | null => .null
  | bool b => .bool b
  | int n => .int n
  | float x => .float x

namespace Value

/-- A scalar as a key; lists and objects are none. -/
def key? : Value → Option Key
  | null => some .null
  | bool b => some (.bool b)
  | int n => some (.int n)
  | float x => some (.float x)
  | str s => some (.text s)
  | _ => none

/-- The value of a truth value or whole number as a whole number. -/
def asInt? : Value → Option Int
  | bool b => some (if b then 1 else 0)
  | int n => some n
  | _ => none

/-- The double counts as much as the whole number. -/
def sameNumber (x : Double) (n : Int) : Bool :=
  x.toInt? == some n

mutual

/-- Equality by value. -/
def same : Value → Value → Bool
  | null, null => true
  | str s, str t => s == t
  | list items, list others => sameItems items others
  | object fields, object others => fields.length == others.length && sameFields fields others
  | float x, float y => x.same y
  | float x, bool b => sameNumber x (if b then 1 else 0)
  | float x, int n => sameNumber x n
  | bool b, float x => sameNumber x (if b then 1 else 0)
  | int n, float x => sameNumber x n
  | bool b, bool c => b == c
  | bool b, int n => n == (if b then 1 else 0)
  | int n, bool b => n == (if b then 1 else 0)
  | int n, int m => n == m
  | _, _ => false

def sameItems : List Value → List Value → Bool
  | [], [] => true
  | v :: vs, w :: ws => same v w && sameItems vs ws
  | _, _ => false

/-- Every field of the first has its like in the second. -/
def sameFields : List (Key × Value) → List (Key × Value) → Bool
  | [], _ => true
  | (k, v) :: rest, others =>
    (match others.lookup k with
      | some w => same v w
      | none => false) && sameFields rest others

end

/-- The value is one of the items, by value. -/
def isIn (v : Value) (items : List Value) : Bool :=
  items.any (v.same ·)

/-- The items without those equal to an earlier one. -/
def distinct (items : List Value) : List Value :=
  items.foldl (fun kept v => if v.isIn kept then kept else kept ++ [v]) []

/-- The value says something: it is not null, false, zero or empty. -/
def isGiven : Value → Bool
  | null => false
  | bool b => b
  | int n => n != 0
  | float x => !x.isZero
  | str s => !s.isEmpty
  | list items => !items.isEmpty
  | object fields => !fields.isEmpty

/-- Null or the empty text: a parameter that was left blank. -/
def isLeftBlank : Value → Bool
  | null => true
  | str s => s.isEmpty
  | _ => false

/-- The first value if it says something, else the second. -/
def orElse (v w : Value) : Value :=
  if v.isGiven then v else w

def ofStrings (texts : List String) : Value :=
  list (texts.map str)

def string? : Value → Option String
  | str s => some s
  | _ => none

def fields? : Value → Option Fields
  | object fields => some fields
  | _ => none

/-- The field of an object; null where there is none, and of what is no object. -/
def get (v : Value) (key : Key) : Value :=
  match v with
  | object fields => Fields.value fields key
  | _ => null

/-- What a loop over the value goes through: the items of a list, the characters of a text, the keys
of an object. -/
def elements? : Value → Option (List Value)
  | list items => some items
  | str s => some (s.toList.map fun c => str c.toString)
  | object fields => some (fields.map fun (k, _) => k.toValue)
  | _ => none

end Value

/-- The one of some keys that counts the same as a key, else the key itself. -/
def Key.among (keys : List Key) (key : Key) : Key :=
  (keys.find? fun k => k.toValue.same key.toValue).getD key

end Outfitter
