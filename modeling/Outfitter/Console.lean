import Outfitter.Dialogue.Traced
import Outfitter.Json.Printer

/-!
A conversation at a console: the filters are carried from one line to the next until the user takes
leave.
-/

namespace Outfitter.Console

open Journal Text

/-- What is printed first. -/
def banner : String :=
  "Stylist Filter Assistant\n" ++ String.ofList (List.replicate 50 '=') ++
    "\nType 'exit' to quit, 'clear filters' to start over\n\n"

/-- What is printed before a line is read. -/
def prompt : String :=
  "\nUser: "

def farewell : String :=
  "Goodbye!\n"

/-- The words by which the user takes leave. -/
def leaveWords : List (List Char) :=
  ["exit".toList, "quit".toList, "bye".toList]

/-- A line by which the user takes leave. -/
def isLeave (line : String) : Bool :=
  leaveWords.contains (lower line.toList)

/-- What is printed about a reply: the message, the suggestions, and the filters to apply. -/
def shownReply (r : Dialogue.Reply) : String :=
  s!"Assistant: {r.message}\n" ++
    (if r.quickReplies.isEmpty then ""
      else "  Suggestions: " ++ " | ".intercalate r.quickReplies ++ "\n") ++
    (if r.applyFilters then s!"  Filters: {Json.write Json.spaced (.object r.filters)}\n" else "")

/-- What is printed after a line, and the filters from then on. A blank line is passed over. -/
def answer (filters : Fields) (line : String) : Traced (String × Fields) := do
  if (trim line.toList).isEmpty then return ("", filters)
  let r ← Dialogue.replied (.str line) (.object filters) (.list [])
  return (shownReply r, r.filters)

/-- How a conversation ends. -/
inductive Ending where
  /-- The user took leave. -/
  | left
  /-- There are no more lines. -/
  | cut
  /-- A line could not be answered. -/
  | broken (fault : Fault)

/-- What is printed from the next prompt on, when the user types these lines. -/
def converse (filters : Fields) : List String → Traced (String × Ending)
  | [] => pure (prompt, .cut)
  | line :: lines => do
    if isLeave line then return (prompt ++ farewell, .left)
    match ← (answer filters line).observe with
    | .error f => return (prompt, .broken f)
    | .ok (printed, filters) =>
      let (rest, ending) ← converse filters lines
      return (prompt ++ printed ++ rest, ending)

/-- All that is printed when the user types these lines. -/
def session (lines : List String) : Traced (String × Ending) := do
  let (printed, ending) ← converse [] lines
  return (banner ++ printed, ending)

end Outfitter.Console
