import Outfitter.Assistant.Locks
import Outfitter.Assistant.Turn

/-!
Calls of the assistant, their answers, and the points at which a call may stand still while others go on.
-/

namespace Outfitter.Assistant

/-- What is asked of the assistant. Identifiers of sessions, the text of a message and the filters given with
it may be of any shape; null stands for no filters. -/
inductive Call where
  /-- That there be a store. -/
  | prepare
  | create
  | read (id : Value)
  | delete (id : Value)
  | message (id text filters : Value)
  | health

/-- How the store is. -/
inductive Health where
  | ok (sessions : Nat)
  | unavailable
  | failing (complaint : String)

/-- What is said of a store that is not available. -/
def Health.unavailableReason : String :=
  "session store not connected"

inductive Answer where
  | prepared
  | created (session : Session)
  | read (session : Option Session)
  | deleted (existed : Bool)
  | replied (turn : Turn)
  | health (h : Health)

/-- Where a call stands. A call stands before it begins, before an operation of a store that it has
chosen, while it waits for a lock, and when it has finished or been given up. -/
inductive Point where
  | arrived
  /-- It gets in touch with a server, to make a store of it. -/
  | connecting
  | creating (store : Nat) (session : Session)
  | reading (store : Nat)
  | counting (store : Nat)
  | waiting (use : Locks.Use)
  | deleting (use : Locks.Use) (store : Nat)
  | loading (use : Locks.Use) (store : Nat)
  | saving (use : Locks.Use) (store : Nat) (turn : Turn)
  | finished (outcome : Except Fault Answer)
  | givenUp

/-- A call on its way. -/
structure Task where
  /-- The number by which the locks know the call. -/
  number : Nat
  call : Call
  point : Point
  /-- The trace of the turn in which the call was made. -/
  outer : Option Journal.Trace
  /-- The trace of the turn that goes on in the call now. -/
  current : Option Journal.Trace
  /-- The identifier of the turn under which the stage of the session began that is under way. -/
  owner : Option String

namespace Task

def outcome? (t : Task) : Option (Except Fault Answer) :=
  match t.point with
  | .finished outcome => some outcome
  | _ => none

/-- A call that has just been made in a turn, or outside of any. -/
def ofCall (number : Nat) (outer : Option Journal.Trace) (call : Call) : Task :=
  ⟨number, call, .arrived, outer, outer, none⟩

end Task

end Outfitter.Assistant
