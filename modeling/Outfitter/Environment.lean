import Outfitter.Number.Numeral
import Outfitter.Text.LetterCase

/-!
Environment variables: texts under names, from which settings are read.
-/

namespace Outfitter

open Text

abbrev Environment :=
  List (String × String)

namespace Environment

/-- Words that say yes. -/
def yes : List (List Char) :=
  ["true".toList, "1".toList, "yes".toList, "on".toList]

/-- The variable says yes, in any case. -/
def flag (e : Environment) (name : String) (default : Bool) : Bool :=
  match e.lookup name with
  | some text => lower text.toList ∈ yes
  | none => default

/-- The whole number that the variable writes; the default if it writes none. -/
def number (e : Environment) (name : String) (default : Int) : Int :=
  match e.lookup name with
  | some text => (Numeral.integer text).toOption.getD default
  | none => default

/-- The text of the first of some variables that is not empty. -/
def nonempty? (e : Environment) (name : String) : Option String :=
  (e.lookup name).filter fun text => !text.isEmpty

/-- The variable of a name in any case; of several the last one counts. -/
def anyCase? (e : Environment) (name : String) : Option String :=
  e.reverse.findSome? fun (k, text) =>
    if lower k.toList = lower name.toList then some text else none

end Environment

end Outfitter
