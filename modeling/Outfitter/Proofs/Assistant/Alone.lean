import Outfitter.Assistant.Round
import Outfitter.Proofs.Assistant.Advance

/-!
A call that is alone goes on to its end.

A call that has to wait for a server is ready again as soon as all others are, so when there are no others
it makes no difference whether the store in use is in memory or at a server (`call_of_leads`).
-/

namespace Outfitter.Assistant

open Journal

/-! ### whom a step wakes -/

/-- The part of a step wakes nobody. -/
def Act.Calm {α : Type} (x : Act α) : Prop :=
  ∀ w, (x.run w).2.woken = w.woken

namespace Act

variable {α β : Type}

theorem calm_pure (v : α) : Calm (pure v) :=
  fun _ => rfl

theorem calm_get : Calm get :=
  fun _ => rfl

theorem calm_perform (x : Traced α) : Calm (perform x) :=
  fun _ => rfl

theorem calm_goTo (p : Point) : Calm (goTo p) :=
  fun _ => rfl

theorem calm_stayAt (p : Point) : Calm (stayAt p) :=
  fun _ => rfl

theorem calm_newSession (id : Value) : Calm (newSession id) :=
  fun _ => rfl

theorem calm_enter (session : Key) : Calm (enter session) :=
  fun _ => rfl

theorem Calm.bind {x : Act α} {f : α → Act β} (hx : Calm x) (hf : ∀ v, Calm (f v)) : Calm (x >>= f) := by
  intro w
  rw [StateT.run_bind]
  exact (hf _ _).trans (hx w)

theorem calm_useStore (n : Nat) (operation : Bool → Store Session → Store.Effect Session α) :
    Calm (useStore n operation) := by
  -- what is set depends on the work that is there, so it does not come apart into calm parts
  have hget : ∀ f : Work → Act (Except Fault α), (∀ w, ((f w).run w).2.woken = w.woken) → Calm (get >>= f) :=
    fun _ h => h
  refine hget _ fun w => ?_
  cases w.assistant.stores[n]? <;> rfl

end Act

theorem calm_begin (use : Locks.Use) : Act.Calm (begin use) := by
  refine Act.calm_get.bind fun w => ?_
  cases w.task.call with
  | message => exact (Act.calm_perform _).bind fun _ => Act.calm_stayAt _
  | _ => exact Act.calm_goTo _

theorem calm_enterSession (id : Value) : Act.Calm (enterSession id) := by
  unfold enterSession
  cases id.key? with
  | none => exact Act.calm_goTo _
  | some session =>
    refine (Act.calm_enter session).bind fun ⟨use, taken⟩ => ?_
    cases taken with
    | true => exact calm_begin use
    | false => exact Act.calm_goTo _

theorem calm_proceed : Act.Calm proceed := by
  refine Act.calm_get.bind fun w => ?_
  cases w.task.call with
  | create => exact (Act.calm_newSession _).bind fun _ => Act.calm_goTo _
  | delete id | message id _ _ => exact calm_enterSession id
  | health =>
    dsimp only
    split <;> exact Act.calm_goTo _
  | prepare | read => exact Act.calm_goTo _

theorem calm_install (s : Store Session) :
    Act.Calm (modify fun w : Work => { w with assistant := w.assistant.install s }) :=
  fun _ => rfl

theorem calm_arrive : Act.Calm arrive := by
  refine Act.calm_get.bind fun w => ?_
  dsimp only
  split
  · exact calm_proceed
  · cases w.assistant.setup with
    | memory => exact (calm_install _).bind fun _ => calm_proceed
    | server config => exact Act.calm_goTo _

theorem calm_connect : Act.Calm connect := by
  refine Act.calm_get.bind fun w => ?_
  dsimp only
  cases w.assistant.setup with
  | memory => exact calm_proceed
  | server config =>
    exact (Act.calm_perform _).bind fun _ => (calm_install _).bind fun _ => calm_proceed

theorem calm_planTurn (tools : Tools) (id text given : Value) (found : Except Fault (Option Session)) :
    Act.Calm (planTurn tools id text given found) := by
  have hplan : ∀ session, Act.Calm (do
      let w ← get
      let known := w.assistant.known
      Act.perform do
        Traced.stageEnds w.task.owner "SESSION" "load" (Traced.faultOf session)
        let turn ← Turn.planBy (tools.read text (.list known)) known (← liftExcept session) text given
        Traced.stageStarts "SESSION" "save"
        return turn) := fun session => Act.calm_get.bind fun w => Act.calm_perform _
  have hnew : Act.Calm (Except.ok <$> Act.newSession id : Act (Except Fault Session)) := fun _ => rfl
  unfold planTurn
  match found with
  | .ok none => exact hnew.bind hplan
  | .ok (some s) => exact (Act.calm_pure _).bind hplan
  | .error f => exact (Act.calm_pure _).bind hplan

/-- The part of a step that ends a call may wake others. -/
def Act.CalmUntilEnd (x : Act Unit) : Prop :=
  ∀ w, (x.run w).2.woken = w.woken ∨ ∃ o, (x.run w).2.task.point = .finished o

theorem Act.Calm.untilEnd {x : Act Unit} (h : Act.Calm x) : Act.CalmUntilEnd x :=
  fun w => .inl (h w)

theorem Act.Calm.then {α : Type} {x : Act α} {f : α → Act Unit} (hx : Act.Calm x)
    (hf : ∀ v, Act.CalmUntilEnd (f v)) : Act.CalmUntilEnd (x >>= f) := by
  intro w
  rw [StateT.run_bind]
  exact (hf _ _).imp_left fun h => h.trans (hx w)

theorem Act.calmUntilEnd_of_finish {α : Type} (x : Act α) (o : α → Except Fault Answer) :
    Act.CalmUntilEnd (x >>= fun v => Act.finish (o v)) :=
  fun _ => .inr ⟨_, rfl⟩

theorem calmUntilEnd_endTurn (use : Locks.Use) (outcome : Except Fault Turn) :
    Act.CalmUntilEnd (endTurn use outcome) := by
  intro w
  cases outcome <;> exact .inr ⟨_, rfl⟩

/-- Only a step that ends a call wakes another one. -/
theorem next_woken (w : Work) : w.next.woken = w.woken ∨ ∃ o, w.next.task.point = .finished o := by
  have hstep : Act.CalmUntilEnd step := by
    refine Act.calm_get.then fun w => ?_
    dsimp only
    split
    · exact calm_arrive.untilEnd
    · exact calm_connect.untilEnd
    · exact Act.calmUntilEnd_of_finish _ _
    · exact Act.calmUntilEnd_of_finish _ _
    · exact Act.calmUntilEnd_of_finish _ _
    · exact (calm_begin _).untilEnd
    · exact fun w => .inr ⟨_, rfl⟩
    · refine (Act.calm_useStore _ _).then fun found => (calm_planTurn _ _ _ _ found).then fun turn => ?_
      cases turn with
      | ok turn => exact (Act.calm_get.bind fun w => Act.calm_stayAt _).untilEnd
      | error f => exact calmUntilEnd_endTurn _ _
    · exact (Act.calm_useStore _ _).then fun outcome => Act.calm_get.then fun w =>
        (Act.calm_perform _).then fun _ => calmUntilEnd_endTurn _ _
    · exact (Act.calm_pure ()).untilEnd
  exact hstep w

/-! ### to the end of a call -/

/-- How a call goes on that stands before an operation of the store in use. -/
def storePace (a : Assistant) : Pace :=
  if (a.stores[a.current]?.map Store.waits).getD false then .yields else .goesOn

theorem storePace_ne_rests (a : Assistant) : a.storePace ≠ .rests := by
  unfold storePace
  split <;> exact nofun

/-- The call is at its end after one step and this many more at the most. Between two steps it goes on at
this pace. -/
inductive Leads (q : Pace) : Nat → Work → Work → Prop where
  | ends {w : Work} {o : Except Fault Answer} (h : w.next.task.point = .finished o) (n : Nat) :
    Leads q n w w.next
  | goes {w w' : Work} {n : Nat} (hp : pace w.next.assistant w.next.task.point = q)
    (h : Leads q n w.next w') : Leads q (n + 1) w w'

variable {w w' : Work} {n fuel : Nat}

theorem goOn_of_stop (h : pace w.next.assistant w.next.task.point ≠ .goesOn) (fuel : Nat) :
    w.goOn fuel = w.next := by
  unfold Work.goOn
  cases fuel with
  | zero => rfl
  | succ fuel =>
    cases hp : pace w.next.assistant w.next.task.point with
    | goesOn => exact absurd hp h
    | yields | rests => simp only [hp]

theorem goOn_of_goesOn (h : pace w.next.assistant w.next.task.point = .goesOn) (fuel : Nat) :
    w.goOn (fuel + 1) = w.next.goOn fuel := by
  rw [Work.goOn]
  simp only [h]

/-- A call that need not wait goes on to its end at once. -/
theorem goOn_of_leads (h : Leads .goesOn n w w') (hn : n ≤ fuel) : w.goOn fuel = w' := by
  induction h generalizing fuel with
  | ends h => exact goOn_of_stop (by rw [h]; exact nofun) fuel
  | goes hp _ ih =>
    obtain ⟨fuel, rfl⟩ := Nat.exists_eq_succ_of_ne_zero (Nat.ne_of_gt (Nat.lt_of_lt_of_le (Nat.succ_pos _) hn))
    rw [goOn_of_goesOn hp]
    exact ih (Nat.le_of_succ_le_succ hn)

/-- A call that has finished stays as it is, whenever its turn comes. -/
theorem goOn_of_finished {o : Except Fault Answer} (hp : w.task.point = .finished o) :
    ∃ m : Marks, m.Fits w ∧ w.goOn 4 = w.moved w.assistant (.finished o) m := by
  obtain ⟨a, p, ha, m, hm, hn⟩ := next_advances w
  obtain ⟨rfl, rfl⟩ := ha.of_finished hp
  exact ⟨m, hm, by rw [goOn_of_stop (by rw [hn]; exact nofun), hn]⟩

namespace Round

/-- The call is the only one, and has come to this; the journal may have gone on. -/
structure IsDone (r : Round) (o : Except Fault Answer) (a : Assistant) : Prop where
  outcomes : r.outcomes = [o]
  assistant : ∃ j : Context, j.debugging = a.journal.debugging ∧ r.assistant = { a with journal := j }

theorem settle_nil {r : Round} (h : r.ready = []) (fuel : Nat) : r.settle fuel = r := by
  cases fuel with
  | zero => rfl
  | succ fuel =>
    unfold settle
    rw [h]

theorem settle_cons {r : Round} {n : Nat} {ready : List Nat} (h : r.ready = n :: ready)
    (fuel : Nat) : r.settle (fuel + 1) = (advance { r with ready := ready } n).settle fuel := by
  rw [settle, h]

theorem settle_of_finished (a : Assistant) {t : Task} {o : Except Fault Answer}
    (hp : t.point = .finished o) (ready : List Nat) (fuel : Nat) :
    ((Round.mk a [t] ready).settle fuel).IsDone o a := by
  have hrest : ∀ ready, (Round.mk a [t] ready).IsDone o a := by
    refine fun ready => ⟨?_, a.journal, rfl, rfl⟩
    unfold Round.outcomes
    rw [List.filterMap_cons, Task.outcome?, hp]
    rfl
  induction fuel generalizing a t ready with
  | zero => exact hrest ready
  | succ fuel ih =>
    cases ready with
    | nil =>
      rw [settle_nil rfl]
      exact hrest []
    | cons n ready =>
      rw [settle_cons rfl]
      unfold advance
      cases n with
      | zero =>
        obtain ⟨m, hm, hgoOn⟩ := goOn_of_finished (w := ⟨a, t, []⟩) hp
        simp only [List.getElem?_cons_zero, List.set_cons_zero, hgoOn]
        have hih := ih { a with journal := m.journal }
          (t := { t with point := .finished o, current := m.current, owner := m.owner }) rfl
        obtain ⟨ho, j, hj, ha⟩ := hih _ fun ready => ⟨rfl, m.journal, rfl, rfl⟩
        exact ⟨ho, j, hj.trans hm.debugging, ha⟩
      | succ n => exact ih a hp ready hrest

theorem advance_alone (a : Assistant) (t : Task) (hw : (Work.mk a t []).goOn 4 = w) :
    advance ⟨a, [t], []⟩ 0 = ⟨w.assistant, [w.task],
      w.woken ++ if pace w.assistant w.task.point = .yields then [0] else []⟩ := by
  subst hw
  rfl

/-- A call that need not wait is done when it has gone on once. -/
theorem settle_of_goesOn {a : Assistant} {t : Task} {o : Except Fault Answer}
    (h : Leads .goesOn n ⟨a, t, []⟩ w') (hn : n < 5) (ho : w'.task.point = .finished o) (fuel : Nat) :
    ((Round.mk a [t] [0]).settle (fuel + 1)).IsDone o w'.assistant := by
  rw [settle_cons rfl]
  show ((advance ⟨a, [t], []⟩ 0).settle fuel).IsDone o w'.assistant
  rw [advance_alone a t (goOn_of_leads h (Nat.le_of_lt_succ hn))]
  exact settle_of_finished _ ho _ _

/-- A call that waits for a server is done when it has gone on once for each step. -/
theorem settle_of_yields {a : Assistant} {t : Task} {o : Except Fault Answer}
    (h : Leads .yields n ⟨a, t, []⟩ w') (hn : n < fuel) (ho : w'.task.point = .finished o) :
    ((Round.mk a [t] [0]).settle fuel).IsDone o w'.assistant := by
  obtain ⟨fuel, rfl⟩ := Nat.exists_eq_succ_of_ne_zero (Nat.ne_of_gt (Nat.zero_lt_of_lt hn))
  rw [settle_cons rfl]
  show ((advance ⟨a, [t], []⟩ 0).settle fuel).IsDone o w'.assistant
  generalize hw : Work.mk a t [] = w at h
  have hwoken : w.woken = [] := hw ▸ rfl
  induction h generalizing a t fuel with
  | @ends w _ h _ =>
    rw [advance_alone a t (w := w.next) (by rw [hw]; exact goOn_of_stop (by rw [h]; exact nofun) 4)]
    exact settle_of_finished _ ho _ _
  | @goes w w' n hp h ih =>
    obtain ⟨fuel, rfl⟩ := Nat.exists_eq_succ_of_ne_zero (n := fuel) (by omega)
    have hnone : w.next.woken = [] := by
      rcases next_woken w with he | ⟨o', he⟩
      · exact he.trans hwoken
      · rw [he] at hp
        cases hp
    have hadvance : advance ⟨a, [t], []⟩ 0 = ⟨w.next.assistant, [w.next.task], [0]⟩ := by
      rw [advance_alone a t (w := w.next) (by rw [hw]; exact goOn_of_stop (by rw [hp]; exact nofun) 4), hnone,
        if_pos hp]
      rfl
    rw [hadvance, settle_cons rfl]
    exact ih ho fuel (Nat.lt_of_succ_lt_succ hn) (by rw [← hnone]) hnone

end Round

/-- **A call on an assistant that nobody else calls** comes to what its steps come to, whether it has to wait
between them or not. -/
theorem call_of_leads {a : Assistant} {c : Call} {o : Except Fault Answer} {q : Pace} (hq : q ≠ .rests)
    (h : Leads q n ⟨a, .ofCall 0 a.journal.current c, []⟩ w') (hn : n < 5)
    (ho : w'.task.point = .finished o) : ∃ j : Context, j.debugging = w'.assistant.journal.debugging ∧
      a.call c = (some o, { w'.assistant with journal := j }) := by
  have hdone : ((Round.ofCalls a [c]).settle 5).IsDone o w'.assistant := by
    cases q with
    | yields => exact Round.settle_of_yields h hn ho
    | goesOn => exact Round.settle_of_goesOn h hn ho 4
    | rests => exact absurd rfl hq
  obtain ⟨houtcomes, j, hj, ha⟩ := hdone
  refine ⟨j, hj, ?_⟩
  show (((Round.ofCalls a [c]).settle 5).outcomes.head?, ((Round.ofCalls a [c]).settle 5).assistant) = _
  rw [houtcomes, ha]
  rfl

end Outfitter.Assistant
