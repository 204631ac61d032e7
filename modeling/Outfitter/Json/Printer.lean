import Outfitter.Value
import Outfitter.Number.Shortest
import Outfitter.Text.Quoted

/-!
Writing values as JSON text, on one line and with the fields in their order.
-/

namespace Outfitter.Json

/-- What is written between two items and behind a name, whether all characters beyond ASCII are
written by their code units, and the layout of doubles. -/
structure Style where
  comma : String
  colon : String
  asciiOnly : Bool
  doubles : Double.Layout

/-- A space after every comma and colon, and characters as they are. -/
def spaced : Style :=
  ⟨", ", ": ", false, .wide⟩

/-- No spaces, and ASCII only. -/
def compact : Style :=
  ⟨",", ":", true, .wide⟩

/-- No character more than is needed. -/
def shortest : Style :=
  ⟨",", ":", false, .narrow⟩

/-- A code unit as an escape. -/
def unitEscape (unit : Nat) : List Char :=
  '\\' :: 'u' :: Text.hex 4 unit

/-- One character of a string. -/
def Style.char (style : Style) (c : Char) : List Char :=
  if c == '"' || c == '\\' then ['\\', c]
  else if c == '\n' then ['\\', 'n']
  else if c == '\r' then ['\\', 'r']
  else if c == '\t' then ['\\', 't']
  else if c == '\x08' then ['\\', 'b']
  else if c == '\x0c' then ['\\', 'f']
  else if c.toNat < 0x20 then unitEscape c.toNat
  else if style.asciiOnly && 0x7E < c.toNat then
    if c.toNat < 0x10000 then unitEscape c.toNat
    else
      let n := c.toNat - 0x10000
      unitEscape (0xD800 + n / 0x400) ++ unitEscape (0xDC00 + n % 0x400)
  else [c]

def Style.string (style : Style) (s : String) : List Char :=
  '"' :: s.toList.flatMap style.char ++ ['"']

def Style.double (style : Style) : Double → String
  | .finite x => String.ofList (x.textIn style.doubles)
  | .infinite negative => if negative then "-Infinity" else "Infinity"
  | .nan => "NaN"

/-- The pieces with the comma of the style between any two of them. -/
def Style.separated (style : Style) (pieces : List (List Char)) : List Char :=
  style.comma.toList.intercalate pieces

/-- The name under which a key is written; only a text is written as it is. -/
def name : Key → String
  | .text s => s
  | .null => "null"
  | .bool true => "true"
  | .bool false => "false"
  | .int n => toString n
  | .float x => spaced.double x

mutual

def Style.value (style : Style) : Value → List Char
  | .null => "null".toList
  | .bool true => "true".toList
  | .bool false => "false".toList
  | .int n => (toString n).toList
  | .float x => (style.double x).toList
  | .str s => style.string s
  | .list items => '[' :: style.separated (style.items items) ++ [']']
  | .object fields => '\x7b' :: style.separated (style.fields fields) ++ ['\x7d']

def Style.items (style : Style) : List Value → List (List Char)
  | [] => []
  | v :: vs => style.value v :: style.items vs

def Style.fields (style : Style) : List (Key × Value) → List (List Char)
  | [] => []
  | (k, v) :: rest => (style.string (name k) ++ style.colon.toList ++ style.value v) :: style.fields rest

end

/-- The value as JSON text. -/
def write (style : Style) (v : Value) : String :=
  String.ofList (style.value v)

end Outfitter.Json
