import Outfitter.Text.LetterCase
import Outfitter.Value.Literal

/-!
What of some data is shown: no secrets, no long texts, no long lists. Lists are shown as they are or not
at all.
-/

namespace Outfitter.Journal

open Text

/-- The names of secrets. -/
def secretNames : List String :=
  ["token", "api_key", "authorization", "password", "secret"]

/-- The name is that of a secret, in any case. -/
def isSecret (name : String) : Bool :=
  secretNames.contains (String.ofList (lower name.toList))

/-- What is shown of a secret. -/
def redacted : Value :=
  .str "***REDACTED***"

/-- How many characters of a text and items of a list are shown. -/
def textBound : Int :=
  100

def itemBound : Nat :=
  8

/-- The beginning of a text up to a bound; a bound below zero leaves out the end. -/
def beginning (bound : Int) (text : List Char) : List Char :=
  text.take (if bound < 0 then text.length + bound else bound).toNat

mutual

/-- What is shown of a value. -/
def shown (bound : Int) : Value → Value
  | .str s =>
    if bound < s.length then .str (String.ofList (beginning bound s.toList) ++ "...") else .str s
  | .list items => if itemBound < items.length then .str s!"[{items.length} items]" else .list items
  | .object fields => .object (shownFields bound fields)
  | v => v

/-- What is shown of some fields. -/
def shownFields (bound : Int) : List (Key × Value) → List (Key × Value)
  | [] => []
  | (k, v) :: rest =>
    (k, if isSecret k.shown then redacted else shown bound v) :: shownFields bound rest

end

end Outfitter.Journal
