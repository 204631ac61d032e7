import Outfitter.Clock
import Outfitter.Journal.Line
import Outfitter.Text.Quoted

/-!
Tracing: turns, the stages within them, and the entries that both leave in the journal.

A turn has a trace of its own, which is the current one until the turn ends. A stage that ends, by a
fault or not, is recorded in the trace that was current when it began. `Traced` is a computation that may
fail and leaves its marks either way. It fails too when an entry that is kept cannot be written, and does so
even for an entry that is too light for the journal: its line is made first.
-/

namespace Outfitter.Journal

/-- How a stage ended. -/
inductive StageEnd where
  | well
  | failed (reason : String)
  /-- It was given up. -/
  | cut

/-- What is recorded of a stage. -/
structure StageRecord where
  stage : String
  description : String
  ending : StageEnd

/-- What is recorded of a turn. -/
structure Trace where
  id : String
  text : Value
  session : Value
  stages : List StageRecord

/-- What is said of the end of a stage. -/
def StageEnd.toFields : StageEnd → Fields
  | well => [("elapsed_ms", .int 0), ("success", .bool true)]
  | failed reason => [("elapsed_ms", .int 0), ("success", .bool false), ("error", .str reason)]
  | cut => []

/-- The record of a stage as a value. -/
def StageRecord.toValue (r : StageRecord) : Value :=
  .object <| ("stage", .str r.stage) :: ("description", .str r.description) ::
    ("start_time", .str Clock.moment) :: r.ending.toFields

/-- The trace as a value. -/
def Trace.toValue (t : Trace) : Value :=
  .object [("trace_id", .str t.id), ("text", t.text), ("session_id", t.session),
    ("total_ms", .int 0), ("stages", .list (t.stages.map StageRecord.toValue))]

/-- The identifier of the turn that begins after `n` others. -/
def turnId (n : Nat) : String :=
  String.ofList (Text.hex 8 (n + 1)) ++ "-0000-0000-0000-000000000000"

structure Context where
  /-- Somebody debugs, so that more entries are kept. -/
  debugging : Bool
  /-- The weight of the least level that is written. -/
  threshold : Int
  /-- The trace of the turn that is going on. -/
  current : Option Trace
  /-- The number of turns begun so far. -/
  begun : Nat
  /-- The traces of the turns that have ended. -/
  ended : List Trace
  /-- The entries that are written. -/
  entries : List Entry

namespace Context

/-- Nothing has happened, and information is written. -/
def initial (debugging : Bool) : Context :=
  ⟨debugging, infoLevel, none, 0, [], []⟩

/-- The identifier of the turn that is going on. -/
def turn? (c : Context) : Option String :=
  c.current.map (·.id)

/-- The entry as one of the turn that is going on. -/
def owned (c : Context) (e : Entry) : Entry :=
  (c.turn?.map e.inTurn).getD e

/-- The context after an entry that is kept: it is written unless it is too light. -/
def push (c : Context) (e : Entry) : Context :=
  if c.threshold ≤ e.level then { c with entries := c.entries ++ [c.owned e] } else c

/-- The context with a record of a stage, in the trace of the turn under which the stage began. -/
def credit (c : Context) (owner : Option String) (r : StageRecord) : Context :=
  { c with current := c.current.map fun t =>
      if owner = some t.id then { t with stages := t.stages ++ [r] } else t }

end Context

/-- A computation that may fail, and leaves its marks either way. -/
abbrev Traced :=
  ExceptT Fault (StateM Context)

namespace Traced

variable {α : Type}

/-- The outcome of a computation, and its marks. -/
def runFrom (x : Traced α) (c : Context) : Except Fault α × Context :=
  x.run c

/-- The outcome of a computation as a value; the computation that gives it does not fail. -/
def observe (x : Traced α) : Traced (Except Fault α) :=
  ExceptT.mk (Except.ok <$> x.run)

/-- An entry in the journal, if it is kept. -/
def note (e : Entry) : Traced Unit := do
  if e.isKept (← get).debugging then
    if e.isWritable then modify (·.push e) else throw .tooLongToWrite

/-! ### stages -/

def stageStarts (stage description : String) : Traced Unit :=
  note (.info stage s!"▶ START: {description}" [])

/-- The end of a stage, recorded for the turn under which it began. -/
def record (owner : Option String) (stage description : String) (ending : StageEnd) : Traced Unit :=
  modify (·.credit owner ⟨stage, description, ending⟩)

/-- The end of a stage that began under a turn, or outside of any. -/
def stageEnds (owner : Option String) (stage description : String) : Option Fault → Traced Unit
  | none => do
    note (.info stage s!"✓ END: {description} (0ms)" [])
    record owner stage description .well
  | some f => do
    note (.failure stage s!"✗ FAILED: {description} - {f.message}" [] f)
    record owner stage description (.failed f.message)

/-- The fault of an outcome. -/
def faultOf : Except Fault α → Option Fault
  | .ok _ => none
  | .error f => some f

/-- A computation as a stage that is recorded for a turn. -/
def stageOf (owner : Option String) (stage description : String) (x : Traced α) : Traced α := do
  stageStarts stage description
  let outcome ← x.observe
  stageEnds owner stage description (faultOf outcome)
  liftExcept outcome

/-- A computation as a stage of the turn that is going on when it begins. -/
def inStage (stage description : String) (x : Traced α) : Traced α := do
  x.stageOf (← get).turn? stage description

/-! ### turns -/

/-- The beginning of a turn, whose trace becomes the current one. -/
def turnStarts (text session source : Value) : Traced Unit := do
  modify fun c => { c with current := some ⟨turnId c.begun, text, session, []⟩, begun := c.begun + 1 }
  note (.request text session source)

/-- The end of a turn; `before` becomes the current trace again. -/
def turnEnds (before : Option Trace) : Traced Unit := do
  let stages := (((← get).current.map Trace.stages).getD []).length
  note (.info "API" "turn complete (0ms)" [("total_stages", .int stages)])
  modify fun c => { c with current := before, ended := c.ended ++ c.current.toList }

/-- A computation as a turn. -/
def inTurn (text session source : Value) (x : Traced α) : Traced α := do
  let before := (← get).current
  turnStarts text session source
  let outcome ← x.observe
  turnEnds before
  liftExcept outcome

end Traced

end Outfitter.Journal
