import Outfitter.Text.Blank
import Outfitter.Value

/-!
Slots of the filters: whether one is filled, which ones an event needs, and how to ask for them.
-/

namespace Outfitter.Dialogue

/-- Something is there: it is not null and not empty. -/
def isFilled : Value → Bool
  | .null => false
  | .str s => !s.isEmpty
  | .list items => !items.isEmpty
  | .object fields => !fields.isEmpty
  | _ => true

/-- What the value holds under a chain of keys is filled. -/
def isFilledAt (v : Value) : List String → Bool
  | [] => isFilled v
  | key :: keys =>
    match v with
    | .object fields =>
      match Fields.get? fields key with
      | some inner => isFilledAt inner keys
      | none => false
    | _ => false

/-- What the value holds under a dotted path is filled. -/
def isFilledAtPath (v : Value) (path : String) : Bool :=
  isFilledAt v ((Text.splitAt '.' path.toList).map String.ofList)

/-- What an event look has to know. -/
inductive Slot where
  | season
  | colors
  | maxPrice
  deriving DecidableEq

namespace Slot

/-- The slots in the order in which they are asked for. -/
def required : List Slot :=
  [season, colors, maxPrice]

/-- Where the slot is in the filters. -/
def path : Slot → List String
  | season => ["season"]
  | colors => ["colors"]
  | maxPrice => ["price", "max"]

def name (slot : Slot) : String :=
  ".".intercalate slot.path

def question : Slot → String
  | season => "Is the event in spring, summer, fall, or winter?"
  | colors => "Any preferred colors (or colors to avoid)?"
  | maxPrice => "Do you have a maximum budget?"

def isFilledIn (slot : Slot) (filters : Fields) : Bool :=
  isFilledAt (.object filters) slot.path

end Slot

/-- The slots that an event look still lacks. -/
def missingSlots (filters : Fields) : List Slot :=
  Slot.required.filter fun slot => !slot.isFilledIn filters

end Outfitter.Dialogue
