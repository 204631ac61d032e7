import Outfitter.Journal.Trace
import Outfitter.Message.Extraction
import Outfitter.Message.Untyped

/-!
Reading a message with an entry in the journal.
-/

namespace Outfitter.Message

open Journal

namespace Intent

def toValue (intent : Intent) : Value :=
  .object [("is_event_flow", .bool intent.isEventFlow), ("wants_outfit", .bool intent.wantsOutfit)]

end Intent

/-- The entry about what a message says. -/
def Extraction.entry (e : Extraction) : Entry :=
  .info "EXTRACT" "filters extracted"
    [("filters", .object e.filters), ("intent", e.intent.toValue)]

/-- What a message says. Nothing is noted of a blank one. -/
def extracted (text : List Char) (known : Except Fault (List String)) : Traced Extraction := do
  let e ← liftExcept (extractWith text known)
  unless (Text.clean text).isEmpty do
    Traced.note e.entry
  return e

/-- What a message of any shape says, when the brands come in any shape. -/
def extractedFrom (text known : Value) : Traced Extraction := do
  let text ← liftExcept (text.demandOptionalText "lower")
  extracted text.toList (brandsOf known)

end Outfitter.Message
