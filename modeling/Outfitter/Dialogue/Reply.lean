import Outfitter.Dialogue.Chips
import Outfitter.Dialogue.Summary
import Outfitter.Filters.Merge
import Outfitter.Message.Extraction

/-!
The reply to a message.

A reset wipes the filters. Otherwise the filters of the message are merged into the active ones. An
event look asks for what it still lacks, and holds the filters back until it has it; any other message
is answered by a summary.
-/

namespace Outfitter.Dialogue

open Text Message

structure Reply where
  message : String
  filters : Fields
  applyFilters : Bool
  missing : List String
  complements : List String
  quickReplies : List String
  cleared : Bool

/-- The words of a reset. -/
def resetPhrase : Pattern :=
  Pattern.whole (Pattern.all [
    Pattern.any [Pattern.letters "clear".toList, Pattern.letters "reset".toList], Pattern.blanks 1,
    Pattern.any [Pattern.letters "filters".toList, Pattern.letters "all".toList]])

def isReset (text : List Char) : Bool :=
  resetPhrase.foundIn text

namespace Reply

/-- The reply to a reset. -/
def afterReset : Reply where
  message := "Okay, I cleared all filters. What are you looking for now?"
  filters := []
  applyFilters := true
  missing := []
  complements := []
  quickReplies := Taxonomy.categoryChips
  cleared := true

/-- What is said before the questions about an event. -/
def eventOpening : String :=
  "Got it, an event look. To tailor picks, a few details:"

/-- The questions about an event. -/
def questions (missing : List Slot) : String :=
  eventOpening ++ " " ++ " ".intercalate (missing.map Slot.question)

/-- The complements of what is chosen; if nothing is, an outfit still gets some. -/
def complementsFor (text : List Char) (filters : Fields) : Except Fault (List String) :=
  let categories := Fields.value filters "include_categories"
  if categories.isGiven then Dialogue.complements categories
  else .ok (if outfitWord.foundIn text then defaultComplements else [])

/-- The reply to a text of this intent, when these are the merged filters. -/
def ofMerged (text : List Char) (intent : Intent) (filters : Fields) : Except Fault Reply := do
  let missing := if intent.isEventFlow then missingSlots filters else []
  let message ← if missing.isEmpty then summary (.object filters) else pure (questions missing)
  let complements ← complementsFor text filters
  return {
    message
    filters
    applyFilters := missing.isEmpty
    missing := missing.map Slot.name
    complements
    quickReplies := chips (.object filters) complements.head?
    cleared := false }

end Reply

/-- The reply to a message with these active filters, when this is what the message says. -/
def plan (text : String) (active : Fields) (extraction : Except Fault Extraction) :
    Except Fault Reply := do
  let trimmed := trim text.toList
  if isReset trimmed then return Reply.afterReset
  let e ← extraction
  Reply.ofMerged trimmed e.intent (Filters.merge active e.filters)

/-- The reply to a message with these active filters, when these brands are known. -/
def reply (text : String) (active : Fields) (known : List String) : Except Fault Reply :=
  plan text active (extractWith (trim text.toList) (.ok known))

end Outfitter.Dialogue
