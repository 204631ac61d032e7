import Outfitter.Assistant.Step

/-!
Rounds: calls that are made at once.

The calls take turns in the order in which they become ready. A call goes on until it has to wait. One
that waits for a server is ready again behind the others; one that waits for a lock is ready when it is
woken.
-/

namespace Outfitter.Assistant

/-- How a call goes on. -/
inductive Pace where
  | goesOn
  | yields
  | rests
  deriving DecidableEq

/-- How a call goes on from a point. -/
def pace (a : Assistant) : Point → Pace
  | .arrived => .goesOn
  | .connecting => .yields
  | .creating n _ | .reading n | .counting n | .deleting _ n | .loading _ n | .saving _ n _ =>
    if (a.stores[n]?.map Store.waits).getD false then .yields else .goesOn
  | .waiting _ | .finished _ | .givenUp => .rests

/-- A step of a call, and more steps until it has to wait. No call takes more than four steps without
waiting, so `fuel` may be four. -/
def Work.goOn (w : Work) (fuel : Nat) : Work :=
  let w := w.next
  match fuel, pace w.assistant w.task.point with
  | fuel + 1, .goesOn => w.goOn fuel
  | _, _ => w

/-- Calls that have been made and are not forgotten, and the places of those that are ready. -/
structure Round where
  assistant : Assistant
  tasks : List Task
  ready : List Nat

namespace Round

/-- All calls are ready, in the order in which they are made. -/
def ofCalls (a : Assistant) (calls : List Call) : Round :=
  ⟨a, calls.zipIdx.map fun (call, n) => .ofCall n a.journal.current call, List.range calls.length⟩

/-- The call at a place goes on. -/
def advance (r : Round) (n : Nat) : Round :=
  match r.tasks[n]? with
  | none => r
  | some t =>
    let w := (Work.mk r.assistant t []).goOn 4
    let again := if pace w.assistant w.task.point = .yields then [n] else []
    ⟨w.assistant, r.tasks.set n w.task, r.ready ++ w.woken ++ again⟩

/-- The calls take turns until none is ready. A call becomes ready five times at most: when it is made,
when it waits for a lock, and at three operations of a server; `fuel` is the sum over all calls. -/
def settle (r : Round) : (fuel : Nat) → Round
  | 0 => r
  | fuel + 1 =>
    match r.ready with
    | [] => r
    | n :: ready => (advance { r with ready := ready } n).settle fuel

/-- The outcomes of the calls that have finished, in the order in which they were made. -/
def outcomes (r : Round) : List (Except Fault Answer) :=
  r.tasks.filterMap Task.outcome?

end Round

/-- Calls that are made at once: their outcomes, and the assistant after all of them. -/
def callAll (a : Assistant) (calls : List Call) : List (Except Fault Answer) × Assistant :=
  let r := (Round.ofCalls a calls).settle (5 * calls.length)
  (r.outcomes, r.assistant)

/-- The outcome of one call, if it finishes, and the assistant after it. -/
def call (a : Assistant) (c : Call) : Option (Except Fault Answer) × Assistant :=
  let (outcomes, a) := a.callAll [c]
  (outcomes.head?, a)

end Outfitter.Assistant
