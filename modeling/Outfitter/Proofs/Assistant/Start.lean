import Outfitter.Proofs.Assistant.AtOnce
import Outfitter.Proofs.Number.Decimal

/-!
The first calls on an assistant whose server is down.

A call that comes before there is a store tries to reach the server, and then puts a new store in memory
to use, whatever has been put to use meanwhile. So what has been said in a session is kept exactly if no
call is still trying (`turn_found_iff`); a call that is trying may say the same again at the most.
-/

namespace Outfitter.Assistant

open Journal

/-! ### generated identifiers -/

/-- No identifier is generated twice. -/
theorem generatedId_inj {m n : Nat} (h : Session.generatedId m = Session.generatedId n) : m = n := by
  have hhex : Text.hex 8 (m + 1) = Text.hex 8 (n + 1) :=
    List.append_cancel_right (String.ofList_injective h)
  exact Nat.succ.inj (Text.hex_injective hhex)

/-- The identifier is not going to be generated. -/
def NeverGenerates (a : Assistant) (id : String) : Prop :=
  ∀ n, a.generated ≤ n → Session.generatedId n ≠ id

/-! ### rounds in any order -/

namespace Round

/-- The calls at these places go on in this order, each until it has to wait. -/
def follow (r : Round) (picks : List Nat) : Round :=
  picks.foldl advance r

/-- The calls on an assistant that has yet to reach its server, which is down. -/
def first (journal : Context) (known : List Value) (config : Store.Config) (calls : List Call) : Round :=
  ofCalls { unready journal known (.server config) with down := true } calls

theorem follow_append (r : Round) (picks more : List Nat) :
    r.follow (picks ++ more) = (r.follow picks).follow more :=
  List.foldl_append ..

/-- Calls on an assistant whose server is down. None stands still but before it begins and while it tries
to reach the server. -/
structure Starting (e : Setting) (config : Store.Config) (r : Round) : Prop where
  setup : r.assistant.setup = .server config
  down : r.assistant.down = true
  known : r.assistant.known = e.known
  debugging : r.assistant.journal.debugging = e.debugging
  table : r.assistant.locks.table = []
  users : r.assistant.locks.users = []
  rest : r.assistant.isReady = true → AtRest e r.assistant ∧ r.assistant.storePace = .goesOn
  named : ∀ t ∈ r.tasks, t.call.IsNamed
  points : ∀ t ∈ r.tasks, t.point = .arrived ∨ t.point = .connecting ∨ t.point.isFinished = true

/-- The store in use and its records are the same. -/
structure Same (r r' : Round) : Prop where
  record : r'.assistant.record? = r.assistant.record?
  current : r'.assistant.current = r.assistant.current

/-- What it comes to when a call goes on: it stands at this point then. -/
inductive Goes (e : Setting) (r r' : Round) (t : Task) : Point → Prop where
  | rests (h : t.point.isFinished = true) (same : Same r r') : Goes e r r' t t.point
  | tries (h : t.point = .arrived) (hr : r.assistant.isReady = false) (same : Same r r') :
    Goes e r r' t .connecting
  | finds {outcome : Except Fault Answer} (h : t.point = .arrived)
    (hc : r'.assistant.current = r.assistant.current)
    (hd : Done e r.assistant.generated r.assistant.record? t.call outcome r'.assistant.record?)
    (hg : t.call = .create → r.assistant.generated < r'.assistant.generated) :
    Goes e r r' t (.finished outcome)
  /-- It works on a new store. -/
  | makes {outcome : Except Fault Answer} (h : t.point = .connecting)
    (hc : r.assistant.isReady = true → r.assistant.current < r'.assistant.current)
    (hd : Done e r.assistant.generated (fun _ => none) t.call outcome r'.assistant.record?)
    (hg : t.call = .create → r.assistant.generated < r'.assistant.generated) :
    Goes e r r' t (.finished outcome)

variable {e : Setting} {config : Store.Config} {r : Round} {n : Nat} {t : Task}

/-- The call at the place goes on so far, and the others stay where they are. -/
structure Steps (e : Setting) (config : Store.Config) (r r' : Round) (n : Nat) (t t' : Task) : Prop where
  starting : Starting e config r'
  tasks : r'.tasks = r.tasks.set n t'
  call : t'.call = t.call
  generated : r.assistant.generated ≤ r'.assistant.generated
  ready : r.assistant.isReady = true → r'.assistant.isReady = true
  goes : Goes e r r' t t'.point

theorem Starting.set (h : Starting e config r) (ht : t ∈ r.tasks) (a : Assistant) (t' : Task)
    (hs : a.setup = .server config) (hd : a.down = true) (hk : a.known = e.known)
    (hj : a.journal.debugging = e.debugging) (htable : a.locks.table = []) (husers : a.locks.users = [])
    (hrest : a.isReady = true → AtRest e a ∧ a.storePace = .goesOn) (hc : t'.call = t.call)
    (hp : t'.point = .arrived ∨ t'.point = .connecting ∨ t'.point.isFinished = true) (ready : List Nat) :
    Starting e config ⟨a, r.tasks.set n t', ready⟩ := by
  refine ⟨hs, hd, hk, hj, htable, husers, hrest, fun s hmem => ?_, fun s hmem => ?_⟩
  · rcases List.mem_or_eq_of_mem_set hmem with hold | rfl
    · exact h.named s hold
    · rw [hc]
      exact h.named t ht
  · rcases List.mem_or_eq_of_mem_set hmem with hold | rfl
    · exact h.points s hold
    · exact hp

theorem Starting.installed (h : Starting e config r) : AtRest e (r.assistant.install (.memory [])) ∧
    (r.assistant.install (.memory [])).storePace = .goesOn := by
  have hstore : (r.assistant.stores ++ [Store.memory []])[r.assistant.stores.length]? = some (.memory []) :=
    List.getElem?_concat_length ..
  refine ⟨atRest_install h.known h.debugging h.table h.users rfl fun _ => rfl, ?_⟩
  unfold storePace
  show (if (Option.map Store.waits (r.assistant.stores ++ [Store.memory []])[r.assistant.stores.length]?).getD
    false then Pace.yields else .goesOn) = _
  rw [hstore]
  rfl

/-- A call goes on, and nothing else does. -/
theorem advance_eq (ht : r.tasks[n]? = some t) : ∃ ready, r.advance n =
    ⟨((Work.mk r.assistant t []).goOn 4).assistant, r.tasks.set n ((Work.mk r.assistant t []).goOn 4).task, ready⟩ := by
  unfold advance
  rw [ht]
  exact ⟨_, rfl⟩

/-- The call comes to its end with a store that does not let it wait. -/
theorem Starting.steps_of_finishes (h : Starting e config r) (ht : r.tasks[n]? = some t) {a₀ : Assistant}
    {outcome : Except Fault Answer} {w' : Work} (hs : a₀.setup = .server config) (hd : a₀.down = true)
    (hq : a₀.storePace = .goesOn) (hg : r.assistant.generated = a₀.generated)
    (hf : Finishes e a₀ ⟨r.assistant, t, []⟩ w' outcome)
    (hgoes : ∀ r' : Round, r'.assistant = w'.assistant → Goes e r r' t (.finished outcome)) :
    ∃ t', Steps e config r (r.advance n) n t t' := by
  obtain ⟨ready, hadvance⟩ := advance_eq ht
  obtain ⟨hleads, he, -, -⟩ := hf
  rw [hq] at hleads
  rw [hadvance, goOn_of_leads hleads (by decide)]
  refine ⟨w'.task, ?_, rfl, he.call, ?_, fun _ => he.rest.serving.ready, ?_⟩
  · exact h.set (List.mem_of_getElem? ht) w'.assistant w'.task (he.setup.trans hs) (he.down.trans hd)
      he.rest.serving.known he.rest.serving.debugging he.rest.table he.rest.users
      (fun _ => ⟨he.rest, he.storePace.trans hq⟩) he.call (.inr (.inr (by rw [he.point]; rfl))) ready
  · rw [hg]
    exact he.generated
  · rw [he.point]
    exact hgoes _ rfl

/-- The call stops at a point, and has only left its marks. -/
theorem Starting.steps_of_stops (h : Starting e config r) (ht : r.tasks[n]? = some t) {p : Point} {m : Marks}
    (hm : m.journal.debugging = e.debugging)
    (hn : (Work.mk r.assistant t []).next = (Work.mk r.assistant t []).moved r.assistant p m)
    (hq : pace r.assistant p ≠ .goesOn) (hp : p = .connecting ∨ p.isFinished = true)
    (hgoes : ∀ r', Same r r' → Goes e r r' t p) : ∃ t', Steps e config r (r.advance n) n t t' := by
  obtain ⟨ready, hadvance⟩ := advance_eq ht
  rw [hadvance, goOn_of_stop (by rw [hn]; exact hq), hn]
  refine ⟨{ t with point := p, current := m.current, owner := m.owner }, ?_, rfl, rfl, Nat.le_refl _, id,
    hgoes _ ⟨rfl, rfl⟩⟩
  exact h.set (List.mem_of_getElem? ht) { r.assistant with journal := m.journal }
    { t with point := p, current := m.current, owner := m.owner } h.setup h.down h.known hm h.table h.users
    (fun hr => ⟨(h.rest hr).1.marked hm, (h.rest hr).2⟩) rfl (.inr hp) ready

/-- **A call goes on**: a call that comes before there is a store tries to make one, whatever the others do;
any other one comes to its end. -/
theorem Starting.steps (h : Starting e config r) (ht : r.tasks[n]? = some t) :
    ∃ t', Steps e config r (r.advance n) n t t' := by
  have hmem : t ∈ r.tasks := List.mem_of_getElem? ht
  obtain ⟨a, p, ha, m, hm, hn⟩ := next_advances ⟨r.assistant, t, []⟩
  have hdebug : m.journal.debugging = e.debugging := hm.debugging.trans h.debugging
  rcases h.points t hmem with hp | hp | hp
  · rcases ha.of_arrived hp with ⟨hr, hpro⟩ | ⟨-, hs, -⟩ | ⟨hr, -, rfl, rfl⟩
    · obtain ⟨h₀, hq⟩ := h.rest hr
      obtain ⟨o, w', hf⟩ := finishes_of_proceeds h₀ hpro (h.named t hmem) hdebug hn
      refine h.steps_of_finishes ht h.setup h.down hq rfl hf fun r' hr' => ?_
      have hdone := hf.done
      rw [← hr'] at hdone
      exact .finds hp (hr' ▸ hf.ends.current) hdone (hr' ▸ hf.create)
    · cases h.setup.symm.trans hs
    · exact h.steps_of_stops ht hdebug hn nofun (.inl rfl) fun r' hsame => .tries hp hr hsame
  · have hpro := ha.of_connecting hp h.setup
    rw [h.down] at hpro
    obtain ⟨h₀, hq⟩ := h.installed
    obtain ⟨o, w', hf⟩ := finishes_of_proceeds h₀ hpro (h.named t hmem) hdebug hn
    have hsetup : (r.assistant.install (.memory [])).setup = .server config := h.setup
    refine h.steps_of_finishes ht hsetup h.down hq rfl hf fun r' hr' => ?_
    refine .makes hp (fun hr => ?_) ?_ (hr' ▸ hf.create)
    · rw [hr', hf.ends.current]
      obtain ⟨s, hs, -⟩ := (h.rest hr).1.serving.store
      exact (List.getElem?_eq_some_iff.mp hs).1
    · have hdone := hf.done
      rw [record?_install _ fun _ => rfl, ← hr'] at hdone
      exact hdone
  · cases hpoint : t.point with
    | finished o =>
      obtain ⟨rfl, rfl⟩ := ha.of_finished hpoint
      refine h.steps_of_stops ht hdebug hn nofun (.inr rfl) fun r' hsame => ?_
      rw [← hpoint]
      exact .rests hp hsame
    | _ =>
      rw [hpoint] at hp
      cases hp

theorem starting_first (journal : Context) (known : List Value) (config : Store.Config)
    {calls : List Call} (hcalls : ∀ c ∈ calls, c.IsNamed) :
    Starting ⟨journal.debugging, known⟩ config (first journal known config calls) := by
  have htask : ∀ t ∈ (first journal known config calls).tasks, t.call ∈ calls ∧ t.point = .arrived := by
    intro t ht
    obtain ⟨⟨c, n⟩, hc, rfl⟩ := List.mem_map.mp ht
    exact ⟨(List.mem_zipIdx' hc).2 ▸ List.getElem_mem .., rfl⟩
  exact ⟨rfl, rfl, rfl, rfl, rfl, rfl, nofun, fun t ht => hcalls _ (htask t ht).1,
    fun t ht => .inl (htask t ht).2⟩

/-- What every step keeps holds after all steps. -/
theorem Starting.follow (h : Starting e config r) {P : Round → Prop} (hP : P r) (picks : List Nat)
    (hstep : ∀ r r' n t t', n ∈ picks → r.tasks[n]? = some t → P r → Steps e config r r' n t t' → P r') :
    Starting e config (r.follow picks) ∧ P (r.follow picks) := by
  induction picks generalizing r with
  | nil => exact ⟨h, hP⟩
  | cons n picks ih =>
    have hstep' := fun r r' m t t' hm => hstep r r' m t t' (List.mem_cons_of_mem _ hm)
    cases ht : r.tasks[n]? with
    | none =>
      have hsame : r.advance n = r := by
        unfold advance
        rw [ht]
      show Starting e config ((r.advance n).follow picks) ∧ P ((r.advance n).follow picks)
      rw [hsame]
      exact ih h hP hstep'
    | some t =>
      obtain ⟨t', hs⟩ := h.steps ht
      exact ih hs.starting (hstep r _ n t t' (List.mem_cons_self ..) ht hP hs) hstep'

end Round

/-! ### what becomes of a session -/

/-- The session that a call has come to, and the identifier that keeps it. -/
def Task.kept? (t : Task) : Option (String × Session) :=
  match t.point, t.call with
  | .finished (.ok (.created s)), _ => s.id.string?.map fun id => (id, s)
  | .finished (.ok (.replied turn)), .message id _ _ => id.string?.map fun id => (id, turn.session)
  | _, _ => none

/-- The call makes a new session, in which these messages come first. -/
def Call.Restores (e : Setting) (id : String) (messages : List Utterance) (c : Call) : Prop :=
  c.topic? = some id ∧ ∃ s, c.alone e none = some s ∧ messages <+: s.messages

/-- The session is kept, and nothing that was said in it is lost. -/
def Holds (a : Assistant) (id : String) (messages : List Utterance) : Prop :=
  ∃ s, a.record? id = some s ∧ messages <+: s.messages

theorem Holds.ready {a : Assistant} {id : String} {messages : List Utterance} (h : a.Holds id messages) :
    a.isReady = true := by
  obtain ⟨s, hs, -⟩ := h
  unfold record? store? at hs
  cases hr : a.isReady with
  | true => rfl
  | false =>
    rw [hr] at hs
    cases hs

variable {e : Setting} {generated : Nat} {records records' : String → Option Session} {c : Call}
  {outcome : Except Fault Answer} {id : String} {messages : List Utterance}

theorem Done.kept (h : Done e generated records c outcome records') {t : Task} {s : Session}
    (hc : t.call = c) (hp : t.point = .finished outcome) (hk : t.kept? = some (id, s)) :
    records' id = some s := by
  unfold Task.kept? at hk
  rw [hc, hp] at hk
  cases h with
  | created here =>
    obtain ⟨rfl, rfl⟩ := Prod.mk.inj (Option.some.inj hk)
    exact here
  | replied _ _ _ _ _ _ here =>
    obtain ⟨rfl, rfl⟩ := Prod.mk.inj (Option.some.inj hk)
    exact here
  | read | prepared | health | deleted | unwritten | failed => cases hk

/-- A call that does not delete the session adds to it at the most. -/
theorem Done.extends (h : Done e generated records c outcome records') {s : Session}
    (hs : records id = some s) (hd : c ≠ .delete (.str id))
    (hid : Session.generatedId generated ≠ id) :
    ∃ s', records' id = some s' ∧ s.messages <+: s'.messages := by
  cases h with
  | created _ elsewhere => exact ⟨s, (elsewhere id (Ne.symm hid)).trans hs, List.prefix_rfl⟩
  | read | prepared | health | unwritten | failed => exact ⟨s, hs, List.prefix_rfl⟩
  | @deleted other _ _ elsewhere =>
    have hne : id ≠ other := by
      rintro rfl
      exact hd rfl
    exact ⟨s, (elsewhere id hne).trans hs, List.prefix_rfl⟩
  | @replied other text given turn r _ hr _ _ hmessages _ _ here elsewhere =>
    by_cases hne : id = other
    · subst hne
      refine ⟨turn.session, here, ?_⟩
      rw [hmessages, hs]
      exact List.prefix_append ..
    · exact ⟨s, (elsewhere id hne).trans hs, List.prefix_rfl⟩

/-- Where there is no session, only a message for it can restore what was said. -/
theorem Done.restores_iff (h : Done e generated records c outcome records')
    (hnone : ∀ id, records id = none) (hid : Session.generatedId generated ≠ id) :
    (∃ s, records' id = some s ∧ messages <+: s.messages) ↔ c.Restores e id messages := by
  have hlost : records' id = none → ¬ c.Restores e id messages →
      ((∃ s, records' id = some s ∧ messages <+: s.messages) ↔ c.Restores e id messages) := by
    intro hr hc
    refine ⟨fun ⟨s, hs, _⟩ => ?_, fun hres => absurd hres hc⟩
    rw [hr] at hs
    cases hs
  cases h with
  | created _ elsewhere =>
    exact hlost ((elsewhere id (Ne.symm hid)).trans (hnone id)) fun ⟨ht, _⟩ => by cases ht
  | read | prepared | health => exact hlost (hnone id) fun ⟨ht, _⟩ => by cases ht
  | @deleted other _ here elsewhere =>
    refine hlost ?_ fun ⟨_, s, hs, _⟩ => by cases hs
    by_cases hne : id = other
    · rw [hne]
      exact here
    · exact (elsewhere id hne).trans (hnone id)
  | @replied other text given turn r _ hr hw _ hmessages _ _ here elsewhere =>
    by_cases hne : id = other
    · subst hne
      rw [hnone] at hr hw hmessages
      have halone := alone_of_written hr hw
      constructor
      · rintro ⟨s, hs, hprefix⟩
        rw [here] at hs
        obtain rfl := Option.some.inj hs
        exact ⟨rfl, _, halone, hmessages ▸ hprefix⟩
      · rintro ⟨-, s, hs, hprefix⟩
        rw [halone] at hs
        obtain rfl := Option.some.inj hs
        exact ⟨turn.session, here, hmessages ▸ hprefix⟩
    · refine hlost ((elsewhere id hne).trans (hnone id)) fun ⟨ht, _⟩ => hne ?_
      exact (Option.some.inj ht).symm
  | @unwritten other text given r hr hw =>
    refine hlost (hnone id) fun ⟨_, s, hs, _⟩ => ?_
    rw [hnone] at hr hw
    rw [alone_of_unwritten hr hw] at hs
    cases hs
  | @failed other text given f f' hr =>
    refine hlost (hnone id) fun ⟨_, s, hs, _⟩ => ?_
    rw [hnone] at hr
    rw [alone_of_fault hr] at hs
    cases hs

namespace Round

variable {config : Store.Config} {r : Round} {n : Nat} {t : Task}

/-- No call at these places deletes the session. -/
def Spares (r : Round) (id : String) (picks : List Nat) : Prop :=
  ∀ n ∈ picks, ∀ t, r.tasks[n]? = some t → t.call ≠ .delete (.str id)

/-- Nothing that was said in the session can be lost any more, unless the session is deleted. -/
structure Safe (e : Setting) (id : String) (messages : List Utterance) (r : Round) : Prop where
  holds : r.assistant.Holds id messages
  never : r.assistant.NeverGenerates id
  trying : ∀ t ∈ r.tasks, t.point = .connecting → t.call ≠ .delete (.str id) →
    t.call.Restores e id messages

/-- Each step keeps the session safe. -/
theorem Safe.steps {r' : Round} {t' : Task} (h : Safe e id messages r) (ht : r.tasks[n]? = some t)
    (hd : t.call ≠ .delete (.str id)) (hs : Steps e config r r' n t t') : Safe e id messages r' := by
  have hnew : Session.generatedId r.assistant.generated ≠ id := h.never _ (Nat.le_refl _)
  have hmem : t ∈ r.tasks := List.mem_of_getElem? ht
  obtain ⟨s, hs₁, hprefix⟩ := h.holds
  refine ⟨?_, fun m hm => h.never m (Nat.le_trans hs.generated hm), fun u hu hp hcall => ?_⟩
  · have hgoes := hs.goes
    generalize t'.point = q at hgoes
    cases hgoes with
    | rests _ same | tries _ _ same => exact ⟨s, same.record ▸ hs₁, hprefix⟩
    | finds _ _ hdone _ =>
      obtain ⟨s', hs', hmore⟩ := hdone.extends hs₁ hd hnew
      exact ⟨s', hs', hprefix.trans hmore⟩
    | makes hp _ hdone _ =>
      exact (hdone.restores_iff (fun _ => rfl) hnew).mpr (h.trying t hmem hp hd)
  · rw [hs.tasks] at hu
    rcases List.mem_or_eq_of_mem_set hu with hold | rfl
    · exact h.trying u hold hp hcall
    · -- no call begins to try when there is a store
      have hgoes := hs.goes
      rw [hp] at hgoes
      generalize hq : Point.connecting = q at hgoes
      cases hgoes with
      | rests hf =>
        rw [← hq] at hf
        cases hf
      | tries _ hr => cases hr.symm.trans h.holds.ready
      | finds | makes => cases hq

/-- No call at these places deletes the session after a step either. -/
theorem Spares.steps {picks : List Nat} {r' : Round} {t' : Task} (h : r.Spares id picks)
    (hn : n ∈ picks) (ht : r.tasks[n]? = some t) (hs : Steps e config r r' n t t') : r'.Spares id picks := by
  intro m hm u hu
  rw [hs.tasks] at hu
  by_cases hmn : n = m
  · subst hmn
    rw [List.getElem?_set_self', ht] at hu
    obtain rfl : t' = u := Option.some.inj hu
    rw [hs.call]
    exact h n hn t ht
  · rw [List.getElem?_set_ne hmn] at hu
    exact h m hm u hu

theorem Safe.follow {picks : List Nat} (h : Safe e id messages r) (hr : Starting e config r)
    (hp : r.Spares id picks) : Safe e id messages (r.follow picks) :=
  (hr.follow (P := fun r => Safe e id messages r ∧ r.Spares id picks) ⟨h, hp⟩ picks
    fun _ _ n t _ hn ht ⟨hsafe, hspares⟩ hs =>
      ⟨hsafe.steps ht (hspares n hn t ht) hs, hspares.steps hn ht hs⟩).2.1

/-- **What was said in a session is kept exactly if every call that still tries to reach the server says it
again**, or deletes the session. -/
theorem holds_iff (hr : Starting e config r) (h : r.assistant.Holds id messages)
    (hid : r.assistant.NeverGenerates id) :
    (∀ picks, r.Spares id picks → (r.follow picks).assistant.Holds id messages) ↔
      ∀ t ∈ r.tasks, t.point = .connecting → t.call ≠ .delete (.str id) → t.call.Restores e id messages := by
  constructor
  · intro hkeeps t hmem hp hd
    obtain ⟨n, ht⟩ := List.mem_iff_getElem?.mp hmem
    obtain ⟨t', hs⟩ := hr.steps ht
    have hholds : (r.advance n).assistant.Holds id messages := by
      refine hkeeps [n] fun m hm u hu => ?_
      obtain rfl := List.mem_singleton.mp hm
      obtain rfl := Option.some.inj (hu.symm.trans ht)
      exact hd
    have hgoes := hs.goes
    generalize t'.point = q at hgoes
    cases hgoes with
    | rests hf =>
      rw [hp] at hf
      cases hf
    | tries ha | finds ha => cases ha.symm.trans hp
    | makes _ _ hdone _ =>
      exact (hdone.restores_iff (fun _ => rfl) (hid _ (Nat.le_refl _))).mp hholds
  · intro htrying picks hspares
    exact (Safe.follow ⟨h, hid, htrying⟩ hr hspares).holds

/-- The store in use stays the same exactly if no call still tries to reach the server. -/
theorem current_iff (hr : Starting e config r) (hready : r.assistant.isReady = true) :
    (∀ picks, (r.follow picks).assistant.current = r.assistant.current) ↔
      ∀ t ∈ r.tasks, t.point ≠ .connecting := by
  constructor
  · intro hsame t hmem hp
    obtain ⟨n, ht⟩ := List.mem_iff_getElem?.mp hmem
    obtain ⟨t', hs⟩ := hr.steps ht
    have hcurrent : (r.advance n).assistant.current = r.assistant.current := hsame [n]
    have hgoes := hs.goes
    generalize t'.point = q at hgoes
    cases hgoes with
    | rests hf =>
      rw [hp] at hf
      cases hf
    | tries ha | finds ha => cases ha.symm.trans hp
    | makes _ hc => exact absurd hcurrent (Nat.ne_of_gt (hc hready))
  · intro htrying picks
    refine (hr.follow (P := fun r' => r'.assistant.isReady = true ∧
      r'.assistant.current = r.assistant.current ∧ ∀ t ∈ r'.tasks, t.point ≠ .connecting)
      ⟨hready, rfl, htrying⟩ picks ?_).2.2.1
    rintro r₁ r₂ n t t' - ht ⟨hr₁, hsame, hnone⟩ hs
    have hmem : t ∈ r₁.tasks := List.mem_of_getElem? ht
    have hgoes := hs.goes
    have hstays : ∀ {q}, t'.point = q → q ≠ .connecting → ∀ u ∈ r₂.tasks, u.point ≠ .connecting := by
      intro q hq hne u hu
      rw [hs.tasks] at hu
      rcases List.mem_or_eq_of_mem_set hu with hold | rfl
      · exact hnone u hold
      · exact hq ▸ hne
    generalize hq : t'.point = q at hgoes
    cases hgoes with
    | rests hf same =>
      refine ⟨hs.ready hr₁, same.current.trans hsame, hstays hq fun hc => ?_⟩
      rw [hc] at hf
      cases hf
    | tries _ hn => cases hn.symm.trans hr₁
    | finds _ hc => exact ⟨hs.ready hr₁, hc.trans hsame, hstays hq nofun⟩
    | makes hp => exact absurd hp (hnone t hmem)

/-- The call at the place comes to its end when it goes on, and keeps this session. -/
structure Returns (r : Round) (n : Nat) (id : String) (s : Session) : Prop where
  before : ∃ t, r.tasks[n]? = some t ∧ t.point.isFinished = false
  after : ∃ t, (r.advance n).tasks[n]? = some t ∧ t.kept? = some (id, s)

/-- It comes to what it does alone, on some records, and a new session has taken a new identifier. -/
theorem Returns.done {s : Session} (hr : Starting e config r) (h : r.Returns n id s) :
    ∃ (t t' : Task) (outcome : Except Fault Answer) (records : String → Option Session),
      r.tasks[n]? = some t ∧ t'.kept? = some (id, s) ∧ t'.call = t.call ∧
      t'.point = .finished outcome ∧
      Done e r.assistant.generated records t.call outcome (r.advance n).assistant.record? ∧
      (t.call = .create → r.assistant.generated < (r.advance n).assistant.generated) := by
  obtain ⟨t, ht, hnot⟩ := h.before
  obtain ⟨u, hu, hk⟩ := h.after
  obtain ⟨t', hs⟩ := hr.steps ht
  obtain rfl : t' = u := by
    rw [hs.tasks, List.getElem?_set_self', ht] at hu
    exact Option.some.inj hu
  have hgoes := hs.goes
  generalize hq : t'.point = q at hgoes
  cases hgoes with
  | rests hf => cases hf.symm.trans hnot
  | tries =>
    unfold Task.kept? at hk
    rw [hq] at hk
    cases hk
  | finds _ _ hdone hg | makes _ _ hdone hg => exact ⟨t, t', _, _, ht, hk, hs.call, hq, hdone, hg⟩

/-- A session that has just been created is not created again. -/
theorem Returns.never {s : Session} (hr : Starting e config r) (h : r.Returns n id s)
    (hid : ∀ t, r.tasks[n]? = some t → t.call ≠ .create → (r.advance n).assistant.NeverGenerates id) :
    (r.advance n).assistant.NeverGenerates id := by
  obtain ⟨t, t', outcome, records, ht, hk, hcall, hp, hdone, hg⟩ := h.done hr
  by_cases hc : t.call = .create
  · have hlt := hg hc
    rw [hc] at hdone hcall
    unfold Task.kept? at hk
    rw [hcall, hp] at hk
    generalize (r.advance n).assistant.record? = records' at hdone
    cases hdone with
    | created =>
      obtain ⟨rfl, -⟩ := Prod.mk.inj (Option.some.inj hk)
      intro m hm he
      exact Nat.ne_of_gt (Nat.lt_of_lt_of_le hlt hm) (generatedId_inj he)
  · exact hid t ht hc

/-- The session is found, with all that had been said in it. -/
def Finds (a : Assistant) (id : String) (messages : List Utterance) : Prop :=
  ∃ s, (a.call (.read (.str id))).1 = some (.ok (.read (some s))) ∧ messages <+: s.messages

theorem finds_iff {a : Assistant} (h : AtRest e a) : Finds a id messages ↔ a.Holds id messages := by
  obtain ⟨o, ho, -, hdone⟩ := call_done h (c := .read (.str id)) ⟨id, rfl⟩
  have hread : o = .ok (.read (a.record? id)) := by
    generalize (a.call (.read (.str id))).2.record? = records at hdone
    cases hdone
    rfl
  unfold Finds Holds
  rw [ho, hread]
  constructor
  · rintro ⟨s, hs, hprefix⟩
    exact ⟨s, Answer.read.inj (Except.ok.inj (Option.some.inj hs)), hprefix⟩
  · rintro ⟨s, hs, hprefix⟩
    exact ⟨s, by rw [hs], hprefix⟩

/-- **A turn, or a new session, that a call has returned is found from then on exactly if every call that
still tries to reach the server says the same again**, or deletes the session. All calls work on the store
in use from then on exactly if no call still tries. -/
theorem turn_found_iff (journal : Context) (known : List Value) (config : Store.Config)
    {calls : List Call} (hcalls : ∀ c ∈ calls, c.IsNamed) (picks : List Nat) {n : Nat} {id : String}
    {s : Session} (hn : ((first journal known config calls).follow picks).Returns n id s)
    (hid : ∀ t, ((first journal known config calls).follow picks).tasks[n]? = some t → t.call ≠ .create →
      ((first journal known config calls).follow (picks ++ [n])).assistant.NeverGenerates id) :
    let r := (first journal known config calls).follow (picks ++ [n])
    ((∀ more, r.Spares id more → Finds (r.follow more).assistant id s.messages) ↔
      ∀ t ∈ r.tasks, t.point = .connecting → t.call ≠ .delete (.str id) →
        t.call.Restores ⟨journal.debugging, known⟩ id s.messages) ∧
    ((∀ more, (r.follow more).assistant.current = r.assistant.current) ↔
      ∀ t ∈ r.tasks, t.point ≠ .connecting) := by
  intro r
  have hstart := (starting_first journal known config hcalls).follow (P := fun _ => True) trivial
  have hr := (hstart picks fun _ _ _ _ _ _ _ _ _ => trivial).1
  have hr' : Starting ⟨journal.debugging, known⟩ config r :=
    (hstart (picks ++ [n]) fun _ _ _ _ _ _ _ _ _ => trivial).1
  have hadvance : r = ((first journal known config calls).follow picks).advance n := follow_append ..
  have hholds : r.assistant.Holds id s.messages := by
    obtain ⟨t, t', outcome, records, -, hk, hcall, hp, hdone, -⟩ := hn.done hr
    rw [hadvance]
    exact ⟨s, hdone.kept hcall hp hk, List.prefix_rfl⟩
  have hnever : r.assistant.NeverGenerates id := by
    rw [hadvance]
    refine hn.never hr fun t ht hc => ?_
    rw [← hadvance]
    exact hid t ht hc
  have hfinds : ∀ more, Finds (r.follow more).assistant id s.messages ↔
      (r.follow more).assistant.Holds id s.messages := by
    intro more
    obtain ⟨h, hready⟩ := hr'.follow (P := fun r => r.assistant.isReady = true) hholds.ready more
      fun _ _ _ _ _ _ _ hready hs => hs.ready hready
    exact finds_iff (h.rest hready).1
  refine ⟨?_, current_iff hr' hholds.ready⟩
  rw [← holds_iff hr' hholds hnever]
  exact forall_congr' fun more => imp_congr_right fun _ => hfinds more

/-- Messages for two sessions, both of which come before there is a store. -/
def twoAtOnce : List Call :=
  [.message (.str "a") (.str "reset all") .null, .message (.str "b") (.str "reset all") .null]

/-- The second message loses the turn of the first. -/
theorem turn_lost_of_two : ∃ s : Session,
    ((first (.initial false) [] ⟨.null, .null, .null, .null, .null⟩ twoAtOnce).follow [0, 1]).Returns 0
      "a" s ∧
    ¬ ∀ more, ((first (.initial false) [] ⟨.null, .null, .null, .null, .null⟩ twoAtOnce).follow
        [0, 1, 0]).Spares "a" more →
      Finds (((first (.initial false) [] ⟨.null, .null, .null, .null, .null⟩ twoAtOnce).follow
        [0, 1, 0]).follow more).assistant "a" s.messages := by
  have hcalls : ∀ c ∈ twoAtOnce, c.IsNamed := by
    intro c hc
    simp only [twoAtOnce, List.mem_cons, List.not_mem_nil, or_false] at hc
    rcases hc with rfl | rfl <;> exact ⟨_, rfl⟩
  have hbefore : (((first (.initial false) [] ⟨.null, .null, .null, .null, .null⟩ twoAtOnce).follow
      [0, 1]).tasks[0]?.any fun t => !t.point.isFinished) = true := by
    decide +kernel
  have hafter : ((((first (.initial false) [] ⟨.null, .null, .null, .null, .null⟩ twoAtOnce).follow
      [0, 1]).advance 0).tasks[0]?.bind Task.kept?).map (·.1) = some "a" := by
    decide +kernel
  have htries : (((first (.initial false) [] ⟨.null, .null, .null, .null, .null⟩ twoAtOnce).follow
      [0, 1, 0]).tasks[1]?.any fun t => t.point matches .connecting && t.call.topic? == some "b") = true := by
    decide +kernel
  obtain ⟨t, ht, hunfinished⟩ := (Option.any_eq_true ..).mp hbefore
  obtain ⟨⟨id, s⟩, hs, rfl⟩ := Option.map_eq_some_iff.mp hafter
  obtain ⟨t', ht', hk⟩ := Option.bind_eq_some_iff.mp hs
  obtain ⟨u, hu, hut⟩ := (Option.any_eq_true ..).mp htries
  rw [Bool.and_eq_true] at hut
  have hreturns : ((first (.initial false) [] ⟨.null, .null, .null, .null, .null⟩ twoAtOnce).follow
      [0, 1]).Returns 0 "a" s :=
    ⟨⟨t, ht, by simpa using hunfinished⟩, t', ht', hk⟩
  refine ⟨s, hreturns, fun hfound => ?_⟩
  have hrestores := (turn_found_iff (.initial false) [] ⟨.null, .null, .null, .null, .null⟩ hcalls [0, 1]
    hreturns fun _ _ _ _ _ => ?_).1.mp hfound u (List.mem_of_getElem? hu) ?_ ?_
  · have : u.call.topic? = some "b" := eq_of_beq hut.2
    exact absurd (this.symm.trans hrestores.1) (by decide)
  · intro h
    have := congrArg (fun s => s.toList.length) h
    simp [Session.generatedId] at this
  · cases hp : u.point with
    | connecting => rfl
    | _ =>
      rw [hp] at hut
      cases hut.1
  · intro hd
    rw [hd] at hut
    exact absurd hut.2 (by decide)

end Round

end Outfitter.Assistant
