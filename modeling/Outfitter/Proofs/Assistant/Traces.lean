import Outfitter.Proofs.Assistant.Crowd

/-!
Whose trace goes on in a call.

A message has a trace of its own while its session has been locked for it: without records before the session
is loaded, and with few of them before it is saved. At any other point, and above all when it has come to its
end, the trace of its caller goes on in a call again (`Crowd.areTraced_run`). A step with tools of any kind
keeps this, as long as a message is read without a change of the trace.
-/

namespace Outfitter.Assistant

open Journal Journal.Traced

/-- The trace that goes on in the call belongs to the point where it stands. -/
def Task.IsTraced (t : Task) : Prop :=
  match t.point with
  | .loading .. => Few 0 t.current
  | .saving .. => Few 3 t.current
  | _ => t.current = t.outer

/-- A message is read with them in the same way whatever has been journaled, and the trace stays as it is. -/
structure Tools.AreCalm (tools : Tools) : Prop where
  steady : ∀ text known, Steady (tools.read text known)
  quiet : ∀ text known, Quiet (tools.read text known)

theorem areCalm_own : Tools.own.AreCalm :=
  ⟨Turn.steady_extractedFrom, Turn.quiet_extractedFrom⟩

/-! ### parts of steps -/

namespace Act

variable {α β : Type} {w : Work}

theorem task_perform (x : Traced α) (w : Work) : ((perform x).run w).2.task =
    { w.task with current := (x.runFrom { w.assistant.journal with current := w.task.current }).2.current } :=
  rfl

/-- A computation that leaves the trace as it is leaves the call as it is. -/
theorem task_perform_of_quiet {x : Traced α} (hx : Quiet x) (w : Work) :
    ((perform x).run w).2.task = w.task := by
  rw [task_perform, hx]

theorem quiet_notes (entries : List Entry) : Quiet (entries.forM note) := by
  induction entries with
  | nil => exact quiet_pure ()
  | cons e rest ih => exact (quiet_note e).bind fun _ => ih

theorem run_useStore (n : Nat) (operation : Bool → Store Session → Store.Effect Session α) (w : Work) :
    (useStore n operation).run w = (match w.assistant.stores[n]? with
      | none => pure (.error .noStore)
      | some s => do
        set { w with assistant := { w.assistant with
          stores := w.assistant.stores.set n (operation w.assistant.down s).store } }
        let _ ← perform ((operation w.assistant.down s).entries.forM Traced.note)
        return (operation w.assistant.down s).outcome : Act (Except Fault α)).run w :=
  rfl

/-- An operation of a store leaves the call as it is. -/
theorem task_useStore (n : Nat) (operation : Bool → Store Session → Store.Effect Session α) (w : Work) :
    ((useStore n operation).run w).2.task = w.task := by
  rw [run_useStore]
  cases w.assistant.stores[n]? with
  | none => rfl
  | some s => exact task_perform_of_quiet (quiet_notes (operation w.assistant.down s).entries) _

/-- What follows on an operation of a store finds the call as it was. -/
theorem isTraced_afterUse {n : Nat} {operation : Bool → Store Session → Store.Effect Session α}
    {f : Except Fault α → Act Unit}
    (hf : ∀ r (w' : Work), w'.task = w.task → ((f r).run w').2.task.IsTraced) :
    ((useStore n operation >>= f).run w).2.task.IsTraced := by
  rw [StateT.run_bind]
  exact hf _ _ (task_useStore n operation w)

end Act

variable {w : Work}

theorem run_begin (use : Locks.Use) (w : Work) : (begin use).run w = (match w.task.call with
    | .message id text _ => do
      let _ ← Act.perform do
        Traced.turnStarts text id (.str "session")
        Traced.stageStarts "SESSION" "load"
      Act.stayAt (.loading use w.assistant.current)
    | _ => Act.goTo (.deleting use w.assistant.current) : Act Unit).run w :=
  rfl

/-- The session of a message has been locked, and its trace has begun. -/
theorem isTraced_begin (use : Locks.Use) (h : w.task.current = w.task.outer) :
    ((begin use).run w).2.task.IsTraced := by
  rw [run_begin]
  cases w.task.call with
  | message id text given =>
    -- the trace is a new one even where the entry about the request cannot be written
    have hturn : ∀ c : Context, Few 0 ((turnStarts text id (.str "session")).runFrom c).2.current :=
      fun c => ⟨_, (quiet_note _ _).trans rfl, Nat.le_refl 0⟩
    have hstarts : ∀ c : Context, Few 0 ((do
        turnStarts text id (.str "session")
        stageStarts "SESSION" "load" : Traced Unit).runFrom c).2.current := by
      intro c
      have hc := hturn c
      rw [runFrom_bind]
      rcases hr : (turnStarts text id (.str "session")).runFrom c with ⟨r, c'⟩
      rw [hr] at hc
      cases r with
      | error f => exact hc
      | ok u => exact (quiet_note _).grows c' 0 hc
    exact hstarts _
  | _ => exact h

theorem isTraced_enterSession (id : Value) (h : w.task.current = w.task.outer) :
    ((enterSession id).run w).2.task.IsTraced := by
  unfold enterSession
  cases id.key? with
  | none => exact h
  | some session =>
    have hentered : ((Act.enter session).run w).2.task = w.task := rfl
    show (StateT.run (Act.enter session >>= fun e =>
      if e.2 then begin e.1 else Act.goTo (.waiting e.1)) w).2.task.IsTraced
    rw [StateT.run_bind]
    generalize (Act.enter session).run w = r at hentered
    rw [← hentered] at h
    show (StateT.run (if r.1.2 then begin r.1.1 else Act.goTo (.waiting r.1.1)) r.2).2.task.IsTraced
    split
    · exact isTraced_begin _ h
    · exact h

theorem isTraced_proceed (h : w.task.current = w.task.outer) : (proceed.run w).2.task.IsTraced := by
  rw [run_proceed]
  cases w.task.call with
  | create | prepare | read => exact h
  | delete id | message id => exact isTraced_enterSession id h
  | health =>
    dsimp only
    split <;> exact h

theorem isTraced_arrive (h : w.task.current = w.task.outer) : (arrive.run w).2.task.IsTraced := by
  rw [run_arrive]
  split
  · exact isTraced_proceed h
  · cases w.assistant.setup with
    | memory => exact isTraced_proceed (w := { w with assistant := w.assistant.install (.memory []) }) h
    | server config => exact h

theorem run_connect (w : Work) : connect.run w = (match w.assistant.setup with
    | .server config => do
      let _ ← Act.perform
        ((Store.connect (ρ := Session) w.assistant.down (.client config .none)).entries.forM note)
      modify fun v => { v with assistant := v.assistant.install (reached w.assistant.down config) }
      proceed
    | .memory => proceed : Act Unit).run w := by
  unfold connect
  rw [StateT.run_bind, StateT.run_get]
  cases hs : w.assistant.setup with
  | memory => simp only [pure_bind, hs]
  | server config =>
    simp only [pure_bind, hs]
    exact connect_outcome w.assistant.down config ▸ rfl

theorem isTraced_connect (h : w.task.current = w.task.outer) : (connect.run w).2.task.IsTraced := by
  rw [run_connect]
  cases w.assistant.setup with
  | memory => exact isTraced_proceed h
  | server config =>
    have hnoted := Act.task_perform_of_quiet
      (Act.quiet_notes (Store.connect (ρ := Session) w.assistant.down (.client config .none)).entries) w
    rw [← hnoted] at h
    exact isTraced_proceed (w := { ((Act.perform
      ((Store.connect (ρ := Session) w.assistant.down (.client config .none)).entries.forM note)).run w).2 with
        assistant := _ }) h

/-- A turn that is planned leaves three records: of the loading, the reading and the planning. -/
theorem few_planTurn {tools : Tools} (ht : tools.AreCalm) (id text given : Value)
    (found : Except Fault (Option Session)) (h : Few 0 w.task.current) :
    ∃ current, Few 3 current ∧
      ((planTurn tools id text given found).run w).2.task = { w.task with current := current } := by
  have hgrows : ∀ (session : Except Fault Session) (known : List Value), Grows 3 (do
      Traced.stageEnds w.task.owner "SESSION" "load" (Traced.faultOf session)
      let turn ← Turn.planBy (tools.read text (.list known)) known (← liftExcept session) text given
      Traced.stageStarts "SESSION" "save"
      return turn) := fun session known =>
    (grows_stageEnds _ _ _ _).bind fun _ => (quiet_liftExcept session).grows.bind fun s =>
      (Turn.grows_planBy (ht.quiet _ _) known s text given).bind fun turn =>
        (quiet_note _).grows.bind fun _ => (quiet_pure turn).grows
  match found with
  | .ok none => exact ⟨_, hgrows (.ok (Session.fresh id w.assistant.generated).1) _ _ 0 h, rfl⟩
  | .ok (some s) => exact ⟨_, hgrows (.ok s) _ _ 0 h, rfl⟩
  | .error f => exact ⟨_, hgrows (.error f) _ _ 0 h, rfl⟩

theorem run_endTurn (use : Locks.Use) (outcome : Except Fault Turn) (w : Work) :
    (endTurn use outcome).run w = (do
      Act.leave use
      if let .ok turn := outcome then
        let _ ← Act.perform (Traced.note turn.latencyEntry)
      Act.finish (outcome.map .replied) : Act Unit).run ((Act.perform (turnEnds w.task.outer)).run w).2 :=
  rfl

/-- The trace of the caller goes on in a message again when its turn has ended. -/
theorem isTraced_endTurn (use : Locks.Use) (outcome : Except Fault Turn)
    (h : Few maxRecords w.task.current) : ((endTurn use outcome).run w).2.task.IsTraced := by
  have hends : ((Act.perform (turnEnds w.task.outer)).run w).2.task =
      { w.task with current := w.task.outer } := by
    rw [Act.task_perform, current_turnEnds w.task.outer h]
  rw [run_endTurn]
  generalize ((Act.perform (turnEnds w.task.outer)).run w).2 = w₁ at hends
  have htraced : w₁.task.current = w₁.task.outer := by rw [hends]
  cases outcome with
  | error f => exact htraced
  | ok turn =>
    have hnoted := Act.task_perform_of_quiet (quiet_note turn.latencyEntry) ((Act.leave use).run w₁).2
    show Task.IsTraced { ((Act.perform (note turn.latencyEntry)).run ((Act.leave use).run w₁).2).2.task with
      point := .finished (.ok (.replied turn)) }
    rw [hnoted]
    exact htraced

/-! ### steps of calls -/

/-- What is done with a call, when the call and its point are known. -/
theorem Act.isTraced_as {x : Act Unit} (body : Act Unit) (h : (body.run w).2.task.IsTraced)
    (hs : x.run w = body.run w) : (x.run w).2.task.IsTraced := by
  rw [hs]
  exact h

/-- The turn of a message is planned, and goes on unless the planning fails. -/
theorem isTraced_load {tools : Tools} (ht : tools.AreCalm) (use : Locks.Use) (n : Nat) (id text given : Value)
    (h : Few 0 w.task.current) : ((do
      let found ← Act.useStore n fun down => tools.get down id
      match ← planTurn tools id text given found with
      | .ok turn => Act.stayAt (.saving use (← get).assistant.current turn)
      | .error f => endTurn use (.error f) : Act Unit).run w).2.task.IsTraced := by
  refine Act.isTraced_afterUse fun found w' hw => ?_
  obtain ⟨current', hfew, htask⟩ := few_planTurn ht id text given found (w := w') (by rw [hw]; exact h)
  rw [StateT.run_bind]
  generalize (planTurn tools id text given found).run w' = r at htask
  obtain ⟨planned, w₂⟩ := r
  have hfew₂ : Few 3 w₂.task.current := by
    rw [show w₂.task = _ from htask]
    exact hfew
  cases planned with
  | ok turn => exact hfew₂
  | error f => exact isTraced_endTurn use (.error f) (hfew₂.mono (Nat.le_succ 3))

/-- **A step keeps whose trace goes on in a call**, whatever the operations of stores come to. -/
theorem isTraced_stepWith {tools : Tools} (ht : tools.AreCalm) (h : w.task.IsTraced) :
    ((stepWith tools).run w).2.task.IsTraced := by
  obtain ⟨a, ⟨number, call, point, outer, current, owner⟩, woken⟩ := w
  -- an operation of a store finishes the call, and leaves its trace
  have hfinish : ∀ {v : Work} (o : Except Fault Answer), v.task.current = v.task.outer →
      ((Act.finish o).run v).2.task.IsTraced := fun o h => h
  cases point with
  | arrived => exact isTraced_arrive (w := ⟨a, ⟨number, call, .arrived, outer, current, owner⟩, woken⟩) h
  | connecting => exact isTraced_connect (w := ⟨a, ⟨number, call, .connecting, outer, current, owner⟩, woken⟩) h
  | waiting use => exact isTraced_begin (w := ⟨a, ⟨number, call, .waiting use, outer, current, owner⟩, woken⟩) use h
  | creating n session =>
    refine Act.isTraced_as (do
      let outcome ← Act.useStore n fun down => tools.put down session.id session
      Act.finish (outcome.map fun _ => .created session)) ?_ rfl
    exact Act.isTraced_afterUse fun r w' hw => hfinish _ (by rw [hw]; exact h)
  | counting n =>
    refine Act.isTraced_as (do
      let outcome ← Act.useStore n Store.count
      Act.finish (.ok (.health (healthOf outcome)))) ?_ rfl
    exact Act.isTraced_afterUse fun r w' hw => hfinish _ (by rw [hw]; exact h)
  | reading n =>
    cases call with
    | read id =>
      refine Act.isTraced_as (do
        let outcome ← Act.useStore n fun down => tools.get down id
        Act.finish (outcome.map .read)) ?_ rfl
      exact Act.isTraced_afterUse fun r w' hw => hfinish _ (by rw [hw]; exact h)
    | _ => exact h
  | deleting use n =>
    cases call with
    | delete id =>
      refine Act.isTraced_as (do
        let outcome ← Act.useStore n fun down => tools.delete down id
        Act.leave use
        Act.finish (outcome.map .deleted)) ?_ rfl
      refine Act.isTraced_afterUse fun r w' hw => ?_
      exact hfinish (v := ((Act.leave use).run w').2) (r.map .deleted)
        (show w'.task.current = w'.task.outer by rw [hw]; exact h)
    | _ => exact h
  | loading use n =>
    cases call with
    | message id text given =>
      exact Act.isTraced_as _ (isTraced_load ht use n id text given h) rfl
    | _ => exact h
  | saving use n turn =>
    cases call with
    | message id text given =>
      refine Act.isTraced_as (do
        let outcome ← Act.useStore n fun down => tools.put down id turn.session
        let _ ← Act.perform (Traced.stageEnds (← get).task.owner "SESSION" "save" (Traced.faultOf outcome))
        endTurn use (outcome.map fun _ => turn)) ?_ rfl
      refine Act.isTraced_afterUse fun outcome w' hw => ?_
      have hfew : Few maxRecords
          ((Act.perform (stageEnds w'.task.owner "SESSION" "save" (faultOf outcome))).run w').2.task.current :=
        grows_stageEnds _ _ _ _ _ 3 (by rw [hw]; exact h)
      exact isTraced_endTurn use (outcome.map fun _ => turn) hfew
    | _ => exact h
  | finished outcome => exact h
  | givenUp => exact h

/-- The turn of a message that is given up is brought to its end. -/
theorem task_cutTurn (description : String) (h : Few 3 w.task.current) :
    ((Act.cutTurn description).run w).2.task = { w.task with current := w.task.outer } := by
  have hget : ((Act.cutTurn description).run w).2.task = { w.task with current :=
      ((turnEnds w.task.outer).runFrom ((record w.task.owner "SESSION" description .cut).runFrom
        { w.assistant.journal with current := w.task.current }).2).2.current } := rfl
  rw [hget, current_turnEnds _ (grows_record _ _ _ _ _ 3 h)]

theorem isTraced_cut (description : String) (use : Locks.Use) (h : Few 3 w.task.current) :
    ((do
      Act.cutTurn description
      Act.leave use
      Act.goTo .givenUp : Act Unit).run w).2.task.IsTraced := by
  have hcut := task_cutTurn description h
  rw [StateT.run_bind]
  generalize (Act.cutTurn description).run w = r at hcut
  show r.2.task.current = r.2.task.outer
  rw [hcut]

/-- A call that is given up has come to its end too. -/
theorem isTraced_giveUp (h : w.task.IsTraced) : (giveUp.run w).2.task.IsTraced := by
  obtain ⟨a, ⟨number, call, point, outer, current, owner⟩, woken⟩ := w
  cases point with
  | loading use n => exact Act.isTraced_as _ (isTraced_cut "load" use (Few.mono h (Nat.zero_le 3))) rfl
  | saving use n turn => exact Act.isTraced_as _ (isTraced_cut "save" use h) rfl
  | _ => exact h

/-! ### every run -/

namespace Crowd

/-- The trace that goes on in every call belongs to the point where the call stands. -/
def AreTraced (c : Crowd) : Prop :=
  ∀ t ∈ c.tasks, t.IsTraced

theorem areTraced_ofCalls (a : Assistant) (calls : List Call) : (ofCalls a calls).AreTraced := by
  intro t ht
  obtain ⟨_, -, rfl⟩ := List.mem_map.mp ht
  rfl

theorem AreTraced.next {c : Crowd} (h : c.AreTraced) (m : Move) : (c.next m).AreTraced := by
  have hafter : ∀ {n : Nat} {w : Work}, w.task.IsTraced → (c.after n w).AreTraced := by
    intro n w hw t ht
    rcases List.mem_or_eq_of_mem_set ht with ht | rfl
    · exact h t ht
    · exact hw
  cases m with
  | goesOn n =>
    cases ht : c.tasks[n]? with
    | none => simpa only [Crowd.next, ht] using h
    | some t =>
      simp only [Crowd.next, ht]
      split
      · have htraced := h t (List.mem_of_getElem? ht)
        exact hafter (isTraced_stepWith areCalm_own (w := ⟨c.assistant, t, []⟩) htraced)
      · exact h
  | givesUp n =>
    cases ht : c.tasks[n]? with
    | none => simpa only [Crowd.next, ht] using h
    | some t =>
      simp only [Crowd.next, ht]
      exact hafter (isTraced_giveUp (w := ⟨c.assistant, t, []⟩) (h t (List.mem_of_getElem? ht)))
  | servers down => exact h

/-- **The trace that goes on in a call belongs to its point throughout every run**: when the call has come to
its end, it is that of the caller. -/
theorem areTraced_run (a : Assistant) (calls : List Call) (moves : List Move) :
    ((ofCalls a calls).run moves).AreTraced :=
  run_induction (areTraced_ofCalls a calls) (fun _ m h => h.next m) moves

end Crowd

end Outfitter.Assistant
