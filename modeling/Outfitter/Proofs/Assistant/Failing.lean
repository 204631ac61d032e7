import Outfitter.Proofs.Assistant.Traces
import Outfitter.Proofs.Store.Found

/-!
Steps in which something is raised.

An operation of a store may raise a fault, and so may the reading of a message. `Raises` lists the points of
calls at which this can happen. At each of them the fault is what the call comes to, the lock of the session
is given back, the trace of the caller goes on, and nothing else changes (`Raises.next`); only an identifier
may have been generated for a session that comes to nothing.
-/

namespace Outfitter.Assistant

open Journal

/-! ### what is raised -/

/-- An operation of a store raises a fault, and keeps the store as it is. It may note something. -/
def RaisesAt {α : Type} (a : Assistant) (n : Nat)
    (operation : Bool → Store Session → Store.Effect Session α) (f : Fault) : Prop :=
  ∃ s, a.stores[n]? = some s ∧ (operation a.down s).outcome = .error f ∧ (operation a.down s).store = s

/-- In its next step with these tools, the call meets a fault: an operation of a store raises it, or the
reading of the message. -/
inductive Raises (tools : Tools) (a : Assistant) (t : Task) (f : Fault) : Prop where
  | creating {n : Nat} {session : Session} (h : t.point = .creating n session)
    (hf : a.RaisesAt n (fun down => tools.put down session.id session) f)
  | deleting {use : Locks.Use} {n : Nat} {id : Value} (h : t.point = .deleting use n)
    (hc : t.call = .delete id) (hf : a.RaisesAt n (fun down => tools.delete down id) f)
  | loading {use : Locks.Use} {n : Nat} {id text given : Value} (h : t.point = .loading use n)
    (hc : t.call = .message id text given) (hf : a.RaisesAt n (fun down => tools.get down id) f)
  /-- The session has been loaded, and nothing can be made of the message, which is no reset. -/
  | reading {use : Locks.Use} {n : Nat} {id text given : Value} {s : Store Session} {found : Option Session}
    (h : t.point = .loading use n) (hc : t.call = .message id text given) (hs : a.stores[n]? = some s)
    (hg : (tools.get a.down id s).outcome = .ok found) (hk : (tools.get a.down id s).store = s)
    (hr : Dialogue.isResetOf text = .ok false)
    (hf : (tools.read text (.list a.known)).outcomeWhen a.journal.debugging = .error f)
  | saving {use : Locks.Use} {n : Nat} {turn : Turn} {id text given : Value}
    (h : t.point = .saving use n turn) (hc : t.call = .message id text given)
    (hf : a.RaisesAt n (fun down => tools.put down id turn.session) f)

/-- The assistant when a call at this point has left what it has locked. -/
def released (a : Assistant) (p : Point) : Assistant :=
  match p.use? with
  | some use => a.left use
  | none => a

/-! ### what becomes of it -/

/-- An operation that keeps its store changes nothing. -/
theorem used_of_kept {α : Type} {a : Assistant} {n : Nat} {s : Store Session}
    {operation : Bool → Store Session → Store.Effect Session α} (hs : a.stores[n]? = some s)
    (hk : (operation a.down s).store = s) : a.used n operation = ((operation a.down s).outcome, a) := by
  obtain ⟨hn, rfl⟩ := List.getElem?_eq_some_iff.mp hs
  unfold used
  rw [hs]
  dsimp only
  rw [hk, List.set_getElem_self]

/-- A record that is looked at stays as it is. -/
theorem used_get (a : Assistant) (n : Nat) (id : Value) : (a.used n fun down => Store.get down id).2 = a := by
  cases hs : a.stores[n]? with
  | none =>
    unfold used
    rw [hs]
  | some s => rw [used_of_kept hs (Store.get_store ..)]

theorem used_of_raised {α : Type} {a : Assistant} {n : Nat} {f : Fault}
    {operation : Bool → Store Session → Store.Effect Session α} (h : a.RaisesAt n operation f) :
    a.used n operation = (.error f, a) := by
  obtain ⟨s, hs, ho, hk⟩ := h
  rw [used_of_kept hs hk, ho]

/-- A turn fails with the fault that its message meets when it is read. -/
theorem Turn.outcomeWhen_planBy_of_fault {reading : Traced Message.Extraction} (h : Traced.Steady reading)
    {text : Value} (hr : Dialogue.isResetOf text = .ok false) {d : Bool} {f : Fault}
    (hf : reading.outcomeWhen d = .error f) (known : List Value) (session : Session) (given : Value) :
    (planBy reading known session text given).outcomeWhen d = .error f := by
  have hextract : (extractBy reading text).outcomeWhen d = .error f := by
    unfold extractBy
    rw [hr]
    show (some <$> Traced.inStage "EXTRACT" "extract_filters" reading).outcomeWhen d = .error f
    rw [map_eq_pure_bind, Traced.outcomeWhen_bind (h.inStage ..) fun e => Traced.steady_pure (some e),
      Traced.outcomeWhen_inStage h, hf]
    rfl
  unfold planBy
  rw [Traced.outcomeWhen_bind (steady_extractBy h text) fun e => (steady_planReply ..).bind fun r =>
    Traced.steady_pure _, hextract]
  rfl

section Step

variable {tools : Tools} {w : Work} {f : Fault}

/-- A message that comes to a fault before it has been planned. -/
theorem takes_loading_of_fault (ht : tools.AreCalm) (use : Locks.Use) {n : Nat} {id : Value}
    (text given : Value) {found : Except Fault (Option Session)}
    (hu : w.assistant.used n (fun down => tools.get down id) = (found, w.assistant))
    (hf : ((w.assistant.sessionFor id found).1 >>= fun s =>
      (Turn.planBy (tools.read text (.list w.assistant.known)) w.assistant.known s text given).outcomeWhen
        w.assistant.journal.debugging) = .error f) :
    Act.Takes (do
      let found ← Act.useStore n fun down => tools.get down id
      match ← planTurn tools id text given found with
      | .ok turn => Act.stayAt (.saving use (← get).assistant.current turn)
      | .error f => endTurn use (.error f)) w ()
      ((w.assistant.sessionFor id found).2.left use) (.finished (.error f)) := by
  refine Act.Takes.afterUse fun m hm => ?_
  rw [hu]
  have hplan := takes_planTurn id given found (w := w.moved w.assistant w.task.point m) (ht.steady text _)
  have hmarked := sessionFor_marked w.assistant id found m.journal
  rw [show (w.moved w.assistant w.task.point m).assistant = { w.assistant with journal := m.journal } from rfl,
    hmarked, show m.journal.debugging = _ from hm.debugging, hf] at hplan
  exact hplan.bind fun m' hm' => takes_endTurn use (.error f) _

/-- **A step that meets a fault comes to it**: nothing has changed but for the lock that is given back. -/
theorem Raises.takes (ht : tools.AreCalm) (h : Raises tools w.assistant w.task f) :
    ∃ generated, Act.Takes (stepWith tools) w ()
      ({ w.assistant with generated := generated }.released w.task.point) (.finished (.error f)) := by
  obtain ⟨a, ⟨number, call, point, outer, current, owner⟩, woken⟩ := w
  cases h with
  | @creating n session h hf =>
    obtain rfl : point = _ := h
    refine ⟨a.generated, Act.Takes.as (do
      let outcome ← Act.useStore n fun down => tools.put down session.id session
      Act.finish (outcome.map fun _ => .created session)) (Act.Takes.afterUse fun m hm => ?_) rfl⟩
    rw [used_of_raised hf]
    exact Act.takes_goTo ..
  | @deleting use n id h hc hf =>
    obtain rfl : point = _ := h
    obtain rfl : call = _ := hc
    refine ⟨a.generated, Act.Takes.as (do
      let outcome ← Act.useStore n fun down => tools.delete down id
      Act.leave use
      Act.finish (outcome.map .deleted)) (Act.Takes.afterUse fun m hm => ?_) rfl⟩
    rw [used_of_raised hf]
    exact (Act.takes_leave use _).bind fun m' hm' => Act.takes_goTo ..
  | @loading use n id text given h hc hf =>
    obtain rfl : point = _ := h
    obtain rfl : call = _ := hc
    exact ⟨a.generated, (takes_loading_of_fault ht use text given (used_of_raised hf) rfl).as _ rfl⟩
  | @reading use n id text given s found h hc hs hg hk hr hf =>
    obtain rfl : point = _ := h
    obtain rfl : call = _ := hc
    have hu : a.used n (fun down => tools.get down id) = (.ok found, a) := by rw [used_of_kept hs hk, hg]
    have hfault := fun session =>
      Turn.outcomeWhen_planBy_of_fault (ht.steady ..) hr hf a.known session given
    have hloading := takes_loading_of_fault ht use text given (f := f)
      (w := ⟨a, ⟨number, .message id text given, .loading use n, outer, current, owner⟩, woken⟩) hu
    cases found with
    | none => exact ⟨(Session.fresh id a.generated).2, (hloading (hfault _)).as _ rfl⟩
    | some session => exact ⟨a.generated, (hloading (hfault session)).as _ rfl⟩
  | @saving use n turn id text given h hc hf =>
    obtain rfl : point = _ := h
    obtain rfl : call = _ := hc
    refine ⟨a.generated, Act.Takes.as (do
      let outcome ← Act.useStore n fun down => tools.put down id turn.session
      let _ ← Act.perform (Traced.stageEnds (← get).task.owner "SESSION" "save" (Traced.faultOf outcome))
      endTurn use (outcome.map fun _ => turn)) (Act.Takes.afterUse fun m hm => ?_) rfl⟩
    rw [used_of_raised hf]
    exact Act.Takes.get_bind <| (Act.takes_perform (Traced.steady_stageEnds ..) _).bind fun m' hm' =>
      takes_endTurn use (.error f) _

/-- The trace of the caller goes on in the call then. -/
theorem Raises.next (ht : tools.AreCalm) (h : Raises tools w.assistant w.task f) (hw : w.task.IsTraced) :
    ∃ generated, ∃ m : Marks, m.Fits w ∧ m.current = w.task.outer ∧ ((stepWith tools).run w).2 =
      w.moved ({ w.assistant with generated := generated }.released w.task.point) (.finished (.error f)) m := by
  obtain ⟨generated, m, hm, hrun⟩ := h.takes ht
  have htraced := isTraced_stepWith ht hw
  rw [hrun] at htraced
  exact ⟨generated, m, hm, htraced, by rw [hrun]⟩

end Step

end Outfitter.Assistant
