import Outfitter.Clock
import Outfitter.Journal.Entry
import Outfitter.Journal.Redaction
import Outfitter.Json.Exchange

/-!
Entries as lines of text: the time, the turn, the stage with its icon, and the message with the data
behind it. A fault takes a line of its own. An entry whose data hold too long a number has no lines.
-/

namespace Outfitter.Journal

/-- The icons of stages. -/
def icons : List (String × String) :=
  [("EXTRACT", "🔎"), ("MERGE", "🧩"), ("PLAN", "💬"), ("COMPILE", "🛠️"), ("SESSION", "💾"),
    ("CATALOG", "🗂️"), ("API", "🌐"), ("ERROR", "❌")]

def iconOf (stage : String) : String :=
  (icons.lookup stage).getD "📋"

/-- The text with blanks behind it, up to a width. -/
def padded (width : Nat) (text : String) : String :=
  text ++ String.ofList (List.replicate (width - text.length) ' ')

/-- What stands in the place of the turn for an entry that belongs to none. -/
def noTurn : String :=
  "no-trace"

namespace Entry

/-- What is shown of the data. -/
def shownData (e : Entry) : Value :=
  .object (shownFields textBound e.data)

/-- The entry can be written. -/
def isWritable (e : Entry) : Bool :=
  e.shownData.isWritable

/-- The message and what is shown of the data. -/
def body (e : Entry) : String :=
  if e.data.isEmpty then e.message
  else e.message ++ " | " ++ Json.write Json.spaced e.shownData

/-- The lines of an entry. -/
def lines (e : Entry) : List String :=
  let turn := String.ofList ((e.turn.getD noTurn).toList.take 8)
  s!"{Clock.timeOfDay} │ {turn} │ {iconOf e.stage} {padded 8 e.stage} │ {e.body}" ::
    (e.fault.map fun f => s!"exc {f.name}: {f.message}").toList

end Entry

/-- The lines of some entries. -/
def lines (entries : List Entry) : List String :=
  entries.flatMap Entry.lines

end Outfitter.Journal
