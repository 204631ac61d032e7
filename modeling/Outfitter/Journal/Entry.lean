import Outfitter.Fault

/-!
Entries of the journal.

An entry tells what a stage does, with data, and with the fault that it is about if there is one. It
belongs to the turn in which it is made. When nobody debugs, only the requests of turns, the summaries of
latency and the errors are kept.
-/

namespace Outfitter.Journal

/-- The weight of what is worth knowing. -/
def infoLevel : Int :=
  20

/-- The weight of what went wrong. -/
def errorLevel : Int :=
  40

structure Entry where
  stage : String
  message : String
  data : Fields
  level : Int
  /-- The identifier of the turn. -/
  turn : Option String
  fault : Option Fault

namespace Entry

/-- An entry outside of any turn. -/
def info (stage message : String) (data : Fields) : Entry :=
  ⟨stage, message, data, infoLevel, none, none⟩

/-- An entry about a fault. -/
def failure (stage message : String) (data : Fields) (fault : Fault) : Entry :=
  ⟨stage, message, data, errorLevel, none, some fault⟩

/-- An entry about an error, and about the fault behind it if one is known. -/
def error (stage message : String) (fault : Option Fault) : Entry :=
  let message := "❌ " ++ message
  match fault with
  | none => ⟨stage, message, [], errorLevel, none, none⟩
  | some f => .failure stage message [("error", .str f.message), ("error_type", .str f.name)] f

/-- The request that begins a turn. -/
def request (text session source : Value) : Entry :=
  .info "API" "TURN_REQUEST" [("text", text), ("session", session), ("source", source)]

/-- The entry as one of a turn, unless it belongs to one already. -/
def inTurn (id : String) (e : Entry) : Entry :=
  { e with turn := e.turn.or (some id) }

/-- What an entry that is always kept starts with. -/
def lastingMessages : List String :=
  ["TURN_REQUEST", "LATENCY_SUMMARY"]

/-- The entry is kept. -/
def isKept (debugging : Bool) (e : Entry) : Bool :=
  debugging || errorLevel ≤ e.level || lastingMessages.any (·.isPrefixOf e.message)

end Entry

end Outfitter.Journal
