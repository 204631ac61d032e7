import Outfitter.Value
import Outfitter.Number.Shortest
import Outfitter.Text.Quoted

/-!
Values as plain text. A text stands for itself; everything else is written as a literal, in which texts
are quoted.
-/

namespace Outfitter

/-- A key as a literal. -/
def Key.literal : Key → List Char
  | text s => Text.quoted s.toList
  | null => "None".toList
  | bool true => "True".toList
  | bool false => "False".toList
  | int n => (toString n).toList
  | float x => x.text.toList

/-- A key as text: a text as it is, and any other scalar as a literal. -/
def Key.shown : Key → String
  | text s => s
  | k => String.ofList k.literal

namespace Value

/-- The pieces with a comma and a space between any two of them. -/
def commaSeparated (pieces : List (List Char)) : List Char :=
  [',', ' '].intercalate pieces

mutual

/-- The value as a literal. -/
def literal : Value → List Char
  | null => Key.literal .null
  | bool b => Key.literal (.bool b)
  | int n => Key.literal (.int n)
  | float x => Key.literal (.float x)
  | str s => Key.literal (.text s)
  | list items => '[' :: commaSeparated (itemLiterals items) ++ [']']
  | object fields => '\x7b' :: commaSeparated (fieldLiterals fields) ++ ['\x7d']

def itemLiterals : List Value → List (List Char)
  | [] => []
  | v :: vs => literal v :: itemLiterals vs

def fieldLiterals : List (Key × Value) → List (List Char)
  | [] => []
  | (k, v) :: rest => (k.literal ++ ':' :: ' ' :: literal v) :: fieldLiterals rest

end

/-- The value as text: a text as it is, and anything else as a literal. -/
def text : Value → String
  | str s => s
  | v => String.ofList v.literal

end Value

end Outfitter
