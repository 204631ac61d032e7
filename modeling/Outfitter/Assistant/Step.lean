import Outfitter.Assistant.Call
import Outfitter.Assistant.Locks
import Outfitter.Journal.Latency
import Outfitter.Store

/-!
The assistant, and the steps of a call.

The assistant makes its store when the first call comes. A call goes from point to point; each step does
one operation of a store and all that follows up to the next point. Turns of one session are kept apart
by the lock of the session.
-/

namespace Outfitter

open Journal

/-- The store that an assistant makes. -/
inductive Assistant.Setup where
  | memory
  /-- A client of a server; a table in memory if the server cannot be reached. -/
  | server (config : Store.Config)

/-- What the calls of an assistant share. -/
structure Assistant where
  /-- The brands that are known, of any shape. -/
  known : List Value
  setup : Assistant.Setup
  /-- All stores that were ever made. -/
  stores : List (Store Session)
  /-- The place of the store in use. -/
  current : Nat
  /-- There is a store in use. -/
  isReady : Bool
  /-- The servers are down. -/
  down : Bool
  locks : Assistant.Locks
  /-- The number of session identifiers generated so far. -/
  generated : Nat
  journal : Context

namespace Assistant

/-- An assistant that has yet to make its store. -/
def unready (journal : Context) (known : List Value) (setup : Setup) : Assistant :=
  ⟨known, setup, [], 0, false, false, .none, 0, journal⟩

/-- An assistant with a store of its own. -/
def withStore (journal : Context) (known : List Value) (store : Store Session) : Assistant :=
  ⟨known, .memory, [store], 0, true, false, .none, 0, journal⟩

/-- The store in use. -/
def store? (a : Assistant) : Option (Store Session) :=
  if a.isReady then a.stores[a.current]? else none

/-- The assistant with a new store in use. -/
def install (a : Assistant) (s : Store Session) : Assistant :=
  { a with stores := a.stores ++ [s], current := a.stores.length, isReady := true }

/-- A call at work: what the calls share, the call, and the calls that it has woken. -/
structure Work where
  assistant : Assistant
  task : Task
  woken : List Nat

/-- A part of a step. -/
abbrev Act :=
  StateM Work

namespace Act

variable {α : Type}

/-- A computation with its marks, in the turn that goes on in the call. -/
def perform (x : Traced α) : Act (Except Fault α) := do
  let w ← get
  let journal := w.assistant.journal
  let (outcome, after) := x.runFrom { journal with current := w.task.current }
  set { w with
    assistant := { w.assistant with journal := { after with current := journal.current } }
    task := { w.task with current := after.current } }
  return outcome

/-- An operation of a store. -/
def useStore (n : Nat) (operation : Bool → Store Session → Store.Effect Session α) :
    Act (Except Fault α) := do
  let w ← get
  match w.assistant.stores[n]? with
  | none => return .error .noStore
  | some s =>
    let effect := operation w.assistant.down s
    set { w with
      assistant := { w.assistant with stores := w.assistant.stores.set n effect.store } }
    let _ ← perform (effect.entries.forM Traced.note)
    return effect.outcome

def goTo (p : Point) : Act Unit :=
  modify fun w => { w with task := { w.task with point := p } }

/-- The call stands at a point within a stage that has just begun. -/
def stayAt (p : Point) : Act Unit :=
  modify fun w => { w with
    task := { w.task with point := p, owner := w.task.current.map (·.id) } }

def finish (outcome : Except Fault Answer) : Act Unit :=
  goTo (.finished outcome)

/-- A new session; without an identifier of its own it gets the next one. -/
def newSession (id : Value) : Act Session := do
  let w ← get
  let (session, generated) := Session.fresh id w.assistant.generated
  set { w with assistant := { w.assistant with generated := generated } }
  return session

/-! ### locks -/

/-- The call enters; with its use of the lock comes whether it has the lock at once. -/
def enter (session : Key) : Act (Locks.Use × Bool) := do
  let w ← get
  let (use, locks) := w.assistant.locks.enter session w.task.number
  set { w with assistant := { w.assistant with locks := locks } }
  return (use, locks.holds use.lock w.task.number)

/-- The call, which has the lock, leaves and wakes the next one. -/
def leave (use : Locks.Use) : Act Unit :=
  modify fun w =>
    let locks := w.assistant.locks.leave use
    { w with
      assistant := { w.assistant with locks := locks }
      woken := w.woken ++ (locks.lock use.lock).holder.toList }

end Act

/-! ### steps -/

/-- The entry about a turn that has been answered. -/
def Turn.latencyEntry (t : Turn) : Entry :=
  latency "SESSION" (.str "assistant_service.handle_message") 0
    [("meta", .object [("apply_filters", .bool t.reply.applyFilters),
      ("cleared", .bool t.reply.cleared)])]

/-- The end of a turn in a session. -/
def endTurn (use : Locks.Use) (outcome : Except Fault Turn) : Act Unit := do
  let _ ← Act.perform (Traced.turnEnds (← get).task.outer)
  Act.leave use
  if let .ok turn := outcome then
    let _ ← Act.perform (Traced.note turn.latencyEntry)
  Act.finish (outcome.map .replied)

/-- What a call about a session does first with the lock. -/
def begin (use : Locks.Use) : Act Unit := do
  let w ← get
  match w.task.call with
  | .message id text _ =>
    let _ ← Act.perform do
      Traced.turnStarts text id (.str "session")
      Traced.stageStarts "SESSION" "load"
    Act.stayAt (.loading use w.assistant.current)
  | _ => Act.goTo (.deleting use w.assistant.current)

/-- The call takes the lock of its session, or waits for it. The identifier has to be a scalar. -/
def enterSession (id : Value) : Act Unit :=
  match id.key? with
  | some session => do
    let (use, taken) ← Act.enter session
    if taken then begin use else Act.goTo (.waiting use)
  | none => Act.finish (.error (.notLookedUp id.kind.name))

/-- What a call does first when there is a store in use. -/
def proceed : Act Unit := do
  let w ← get
  let n := w.assistant.current
  match w.task.call with
  | .prepare => Act.finish (.ok .prepared)
  | .create => Act.goTo (.creating n (← Act.newSession .null))
  | .read _ => Act.goTo (.reading n)
  | .delete id => enterSession id
  | .message id _ _ => enterSession id
  | .health =>
    if (w.assistant.stores[n]?.map Store.isAvailable).getD false then Act.goTo (.counting n)
    else Act.finish (.ok (.health .unavailable))

/-- Making sure that there is a store in use. Only the store in memory is there at once. -/
def arrive : Act Unit := do
  let a := (← get).assistant
  if a.isReady then proceed
  else
    match a.setup with
    | .memory =>
      modify fun w => { w with assistant := w.assistant.install (.memory []) }
      proceed
    | .server _ => Act.goTo .connecting

/-- Getting in touch with the server. -/
def connect : Act Unit := do
  let a := (← get).assistant
  match a.setup with
  | .server config =>
    let effect := Store.connect a.down (.client config .none)
    let _ ← Act.perform (effect.entries.forM Traced.note)
    let store := match effect.outcome with
      | .ok true => effect.store
      | _ => .memory []
    modify fun w => { w with assistant := w.assistant.install store }
    proceed
  | .memory => proceed

/-- What calls are made with: the operations of stores on the records of sessions, and the way in which a
message is read when some brands are known. -/
structure Tools where
  get : Bool → Value → Store Session → Store.Effect Session (Option Session)
  put : Bool → Value → Session → Store Session → Store.Effect Session Bool
  delete : Bool → Value → Store Session → Store.Effect Session Bool
  read : Value → Value → Traced Message.Extraction

/-- The tools that calls are made with. -/
def Tools.own : Tools :=
  ⟨Store.get, Store.put, Store.delete, Message.extractedFrom⟩

/-- The message is read in the session that has been found, or in a new one, and the reply planned. -/
def planTurn (tools : Tools) (id text given : Value) (found : Except Fault (Option Session)) :
    Act (Except Fault Turn) := do
  let session ← match found with
    | .ok none => .ok <$> Act.newSession id
    | .ok (some s) => pure (.ok s)
    | .error f => pure (.error f)
  let w ← get
  let known := w.assistant.known
  Act.perform do
    Traced.stageEnds w.task.owner "SESSION" "load" (Traced.faultOf session)
    let turn ← Turn.planBy (tools.read text (.list known)) known (← liftExcept session) text given
    Traced.stageStarts "SESSION" "save"
    return turn

/-- How the store is, from its count of sessions. -/
def healthOf : Except Fault Nat → Health
  | .ok n => .ok n
  | .error f => .failing (String.ofList (f.message.toList.take 100))

/-- One step of a call with some tools. A call that has finished does nothing. -/
def stepWith (tools : Tools) : Act Unit := do
  let t := (← get).task
  match t.point, t.call with
  | .arrived, _ => arrive
  | .connecting, _ => connect
  | .creating n session, _ =>
    let outcome ← Act.useStore n fun down => tools.put down session.id session
    Act.finish (outcome.map fun _ => .created session)
  | .reading n, .read id =>
    let outcome ← Act.useStore n fun down => tools.get down id
    Act.finish (outcome.map .read)
  | .counting n, _ =>
    let outcome ← Act.useStore n Store.count
    Act.finish (.ok (.health (healthOf outcome)))
  | .waiting use, _ => begin use
  | .deleting use n, .delete id =>
    let outcome ← Act.useStore n fun down => tools.delete down id
    Act.leave use
    Act.finish (outcome.map .deleted)
  | .loading use n, .message id text given =>
    let found ← Act.useStore n fun down => tools.get down id
    match ← planTurn tools id text given found with
    | .ok turn => Act.stayAt (.saving use (← get).assistant.current turn)
    | .error f => endTurn use (.error f)
  | .saving use n turn, .message id _ _ =>
    let outcome ← Act.useStore n fun down => tools.put down id turn.session
    let _ ← Act.perform (Traced.stageEnds (← get).task.owner "SESSION" "save" (Traced.faultOf outcome))
    endTurn use (outcome.map fun _ => turn)
  | _, _ => pure ()

/-- One step of a call. -/
def step : Act Unit :=
  stepWith .own

/-- A call at work after one step. -/
def Work.next (w : Work) : Work :=
  (StateT.run step w).2

end Assistant

end Outfitter
