import Outfitter.Assistant.Step

/-!
Calls that are given up.

A call may be given up wherever it stands. It does no more of what it was about to do, but what it has
begun is brought to an end: the stage, the turn, and the use of the lock. A call that has been handed a
lock for which it waited hands it on.
-/

namespace Outfitter.Assistant

open Journal

namespace Act

/-- The call no longer waits for a lock. The one to which the lock goes then is woken. -/
def withdraw (use : Locks.Use) : Act Unit :=
  modify fun w =>
    let before := w.assistant.locks
    let locks := before.withdraw use w.task.number
    { w with
      assistant := { w.assistant with locks := locks }
      woken := w.woken ++ if before.holds use.lock w.task.number then (locks.lock use.lock).holder.toList
        else [] }

/-- The turn that goes on in the call is cut in a stage of the session. -/
def cutTurn (description : String) : Act Unit := do
  let task := (← get).task
  let _ ← perform do
    Traced.record task.owner "SESSION" description .cut
    Traced.turnEnds task.outer

end Act

/-- A call is given up. Nothing is left to give up of one that has finished. -/
def giveUp : Act Unit := do
  match (← get).task.point with
  | .finished _ => return
  | .waiting use => Act.withdraw use
  | .deleting use _ => Act.leave use
  | .loading use _ =>
    Act.cutTurn "load"
    Act.leave use
  | .saving use _ _ =>
    Act.cutTurn "save"
    Act.leave use
  | _ => pure ()
  Act.goTo .givenUp

/-- A call at work after it has been given up. -/
def Work.cancel (w : Work) : Work :=
  (StateT.run giveUp w).2

end Outfitter.Assistant
