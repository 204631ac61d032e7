import Outfitter.Assistant.Cancel
import Outfitter.Proofs.Assistant.Turn

/-!
What a step of a call may come to.

`Advance a t a' p` lists, one constructor for each kind of step, the assistant and the point of a call
after a step. Nothing is said of the journal. `next_advances` says that the steps of calls at work are of
these kinds, so that whatever holds along every `Advance` holds along every run; `cancel_givesUp` says the
same of calls that are given up.
-/

namespace Outfitter.Assistant

open Journal

/-! ### what the steps are made of -/

/-- What an operation of a store comes to, and the assistant after it. -/
def used {α : Type} (a : Assistant) (n : Nat)
    (operation : Bool → Store Session → Store.Effect Session α) : Except Fault α × Assistant :=
  match a.stores[n]? with
  | none => (.error .noStore, a)
  | some s =>
    ((operation a.down s).outcome, { a with stores := a.stores.set n (operation a.down s).store })

/-- The assistant after the holder of a lock has left. -/
def left (a : Assistant) (use : Locks.Use) : Assistant :=
  { a with locks := a.locks.leave use }

/-- The session of a call that takes a lock. -/
def Call.session? : Call → Option Value
  | .delete id | .message id _ _ => some id
  | _ => none

/-- Where a call stands first when it has the lock. -/
def Call.entrance (c : Call) (use : Locks.Use) (n : Nat) : Point :=
  match c with
  | .message .. => .loading use n
  | _ => .deleting use n

/-- The session in which a message is read: the one that has been found, or a new one. -/
def sessionFor (a : Assistant) (id : Value) (found : Except Fault (Option Session)) :
    Except Fault Session × Assistant :=
  match found with
  | .ok none =>
    (.ok (Session.fresh id a.generated).1, { a with generated := (Session.fresh id a.generated).2 })
  | .ok (some s) => (.ok s, a)
  | .error f => (.error f, a)

/-- An operation of a store changes nothing else. -/
theorem used_eq {α : Type} (a : Assistant) (n : Nat)
    (operation : Bool → Store Session → Store.Effect Session α) :
    (a.used n operation).2 = { a with stores := (a.used n operation).2.stores } := by
  unfold used
  cases a.stores[n]? <;> rfl

/-- A new session takes an identifier, and changes nothing else. -/
theorem sessionFor_eq (a : Assistant) (id : Value) (found : Except Fault (Option Session)) :
    (a.sessionFor id found).2 = { a with generated := (a.sessionFor id found).2.generated } := by
  unfold sessionFor
  split <;> rfl

theorem sessionFor_marked (a : Assistant) (id : Value) (found : Except Fault (Option Session))
    (j : Context) : sessionFor { a with journal := j } id found =
      ((a.sessionFor id found).1, { (a.sessionFor id found).2 with journal := j }) := by
  unfold sessionFor
  split <;> rfl

/-- A call that has finished or been given up, or that does not belong to the point where it stands. -/
def Task.isIdle (t : Task) : Bool :=
  match t.point, t.call with
  | .reading _, .read _ | .deleting .., .delete _ | .loading .., .message .. | .saving .., .message .. => false
  | .reading _, _ | .deleting .., _ | .loading .., _ | .saving .., _ | .finished _, _ | .givenUp, _ => true
  | _, _ => false

/-- The store that comes of an attempt to reach a server. -/
def reached (down : Bool) (config : Store.Config) : Store Session :=
  if down then .memory [] else .client config (.live .empty)

/-- What a call does when there is a store in use. -/
inductive Proceeds (a : Assistant) (t : Task) : Assistant → Point → Prop where
  | prepared (h : t.call = .prepare) : Proceeds a t a (.finished (.ok .prepared))
  | creates (h : t.call = .create) :
    Proceeds a t { a with generated := (Session.fresh .null a.generated).2 }
      (.creating a.current (Session.fresh .null a.generated).1)
  | reads {id : Value} (h : t.call = .read id) : Proceeds a t a (.reading a.current)
  | counts (h : t.call = .health) (ha : (a.stores[a.current]?.map Store.isAvailable).getD false = true) :
    Proceeds a t a (.counting a.current)
  | unavailable (h : t.call = .health)
    (ha : (a.stores[a.current]?.map Store.isAvailable).getD false = false) :
    Proceeds a t a (.finished (.ok (.health .unavailable)))
  | refused {id : Value} (h : t.call.session? = some id) (hk : id.key? = none) :
    Proceeds a t a (.finished (.error (.notLookedUp id.kind.name)))
  /-- It takes the lock at once. -/
  | takes {id : Value} {session : Key} {use : Locks.Use} {locks : Locks} (h : t.call.session? = some id)
    (hk : id.key? = some session) (he : a.locks.enter session t.number = (use, locks))
    (hh : locks.holds use.lock t.number = true) :
    Proceeds a t { a with locks := locks } (t.call.entrance use a.current)
  | queues {id : Value} {session : Key} {use : Locks.Use} {locks : Locks} (h : t.call.session? = some id)
    (hk : id.key? = some session) (he : a.locks.enter session t.number = (use, locks))
    (hh : locks.holds use.lock t.number = false) :
    Proceeds a t { a with locks := locks } (.waiting use)

/-- What a call does then does not depend on the journal. -/
theorem Proceeds.marked {a a' : Assistant} {t t' : Task} {p : Point} (h : Proceeds a t a' p)
    (j : Context) (hc : t'.call = t.call) (hn : t'.number = t.number) :
    Proceeds { a with journal := j } t' { a' with journal := j } p := by
  cases h with
  | prepared h => exact .prepared (hc.trans h)
  | creates h => exact .creates (hc.trans h)
  | reads h => exact .reads (hc.trans h)
  | counts h ha => exact .counts (hc.trans h) ha
  | unavailable h ha => exact .unavailable (hc.trans h) ha
  | refused h hk => exact .refused (hc ▸ h) hk
  | takes h hk he hh =>
    rw [← hc] at h ⊢
    exact .takes h hk (hn ▸ he) (hn ▸ hh)
  | queues h hk he hh => exact .queues (hc ▸ h) hk (hn ▸ he) (hn ▸ hh)

/-- What a step of a call comes to. -/
inductive Advance (a : Assistant) (t : Task) : Assistant → Point → Prop where
  | proceeds {a' : Assistant} {p : Point} (h : t.point = .arrived) (hr : a.isReady = true)
    (hp : Proceeds a t a' p) : Advance a t a' p
  /-- It makes the store in memory. -/
  | makes {a' : Assistant} {p : Point} (h : t.point = .arrived) (hr : a.isReady = false)
    (hs : a.setup = .memory) (hp : Proceeds (a.install (.memory [])) t a' p) : Advance a t a' p
  | connects {config : Store.Config} (h : t.point = .arrived) (hr : a.isReady = false)
    (hs : a.setup = .server config) : Advance a t a .connecting
  /-- It makes a store of the server, or in memory if the server cannot be reached. -/
  | connected {config : Store.Config} {a' : Assistant} {p : Point} (h : t.point = .connecting)
    (hs : a.setup = .server config) (hp : Proceeds (a.install (reached a.down config)) t a' p) :
    Advance a t a' p
  | unconnected {a' : Assistant} {p : Point} (h : t.point = .connecting) (hs : a.setup = .memory)
    (hp : Proceeds a t a' p) : Advance a t a' p
  | created {n : Nat} {session : Session} (h : t.point = .creating n session) :
    Advance a t (a.used n fun down => Store.put down session.id session).2
      (.finished ((a.used n fun down => Store.put down session.id session).1.map fun _ => .created session))
  | found {n : Nat} {id : Value} (h : t.point = .reading n) (hc : t.call = .read id) :
    Advance a t (a.used n fun down => Store.get down id).2
      (.finished ((a.used n fun down => Store.get down id).1.map .read))
  | counted {n : Nat} (h : t.point = .counting n) :
    Advance a t (a.used n Store.count).2 (.finished (.ok (.health (healthOf (a.used n Store.count).1))))
  /-- It takes the lock that it has been handed. -/
  | begins {use : Locks.Use} (h : t.point = .waiting use) :
    Advance a t a (t.call.entrance use a.current)
  | deleted {use : Locks.Use} {n : Nat} {id : Value} (h : t.point = .deleting use n)
    (hc : t.call = .delete id) :
    Advance a t ((a.used n fun down => Store.delete down id).2.left use)
      (.finished ((a.used n fun down => Store.delete down id).1.map .deleted))
  | plans {use : Locks.Use} {n : Nat} {id text given : Value} {found : Except Fault (Option Session)}
    {a₁ a₂ : Assistant} {session : Session} {turn : Turn}
    (h : t.point = .loading use n) (hc : t.call = .message id text given)
    (hu : a.used n (fun down => Store.get down id) = (found, a₁))
    (hf : a₁.sessionFor id found = (.ok session, a₂))
    (hp : (Turn.plan a.known session text given).outcomeWhen a.journal.debugging = .ok turn) :
    Advance a t a₂ (.saving use a.current turn)
  | fails {use : Locks.Use} {n : Nat} {id text given : Value} {found : Except Fault (Option Session)}
    {a₁ a₂ : Assistant} {session : Except Fault Session} {f : Fault}
    (h : t.point = .loading use n) (hc : t.call = .message id text given)
    (hu : a.used n (fun down => Store.get down id) = (found, a₁))
    (hf : a₁.sessionFor id found = (session, a₂))
    (hp : (session >>= fun s => (Turn.plan a.known s text given).outcomeWhen a.journal.debugging) =
      .error f) :
    Advance a t (a₂.left use) (.finished (.error f))
  | saves {use : Locks.Use} {n : Nat} {turn : Turn} {id text given : Value}
    (h : t.point = .saving use n turn) (hc : t.call = .message id text given) :
    Advance a t ((a.used n fun down => Store.put down id turn.session).2.left use)
      (.finished ((a.used n fun down => Store.put down id turn.session).1.map fun _ => .replied turn))
  | rests (h : t.isIdle = true) : Advance a t a t.point

/-! ### steps from a known point -/

namespace Advance

variable {a a' : Assistant} {t : Task} {p : Point} {n : Nat} {use : Locks.Use} {id : Value}

theorem of_creating {session : Session} (ha : Advance a t a' p) (h : t.point = .creating n session) :
    a' = (a.used n fun down => Store.put down session.id session).2 ∧ p = .finished
      ((a.used n fun down => Store.put down session.id session).1.map fun _ => .created session) := by
  cases ha with
  | created ht =>
    obtain ⟨rfl, rfl⟩ := Point.creating.inj (ht.symm.trans h)
    exact ⟨rfl, rfl⟩
  | proceeds ht | makes ht | connects ht | connected ht | unconnected ht | found ht | counted ht
  | begins ht | deleted ht | plans ht | fails ht | saves ht => cases ht.symm.trans h
  | rests hi =>
    unfold Task.isIdle at hi
    rw [h] at hi
    cases hi

theorem of_reading (ha : Advance a t a' p) (h : t.point = .reading n) (hc : t.call = .read id) :
    a' = (a.used n fun down => Store.get down id).2 ∧
      p = .finished ((a.used n fun down => Store.get down id).1.map .read) := by
  cases ha with
  | found ht hc' =>
    obtain rfl := Point.reading.inj (ht.symm.trans h)
    obtain rfl := Call.read.inj (hc'.symm.trans hc)
    exact ⟨rfl, rfl⟩
  | proceeds ht | makes ht | connects ht | connected ht | unconnected ht | created ht | counted ht
  | begins ht | deleted ht | plans ht | fails ht | saves ht => cases ht.symm.trans h
  | rests hi =>
    unfold Task.isIdle at hi
    rw [h, hc] at hi
    cases hi

theorem of_counting (ha : Advance a t a' p) (h : t.point = .counting n) :
    a' = (a.used n Store.count).2 ∧
      p = .finished (.ok (.health (healthOf (a.used n Store.count).1))) := by
  cases ha with
  | counted ht =>
    obtain rfl := Point.counting.inj (ht.symm.trans h)
    exact ⟨rfl, rfl⟩
  | proceeds ht | makes ht | connects ht | connected ht | unconnected ht | created ht | found ht
  | begins ht | deleted ht | plans ht | fails ht | saves ht => cases ht.symm.trans h
  | rests hi =>
    unfold Task.isIdle at hi
    rw [h] at hi
    cases hi

theorem of_deleting (ha : Advance a t a' p) (h : t.point = .deleting use n) (hc : t.call = .delete id) :
    a' = (a.used n fun down => Store.delete down id).2.left use ∧
      p = .finished ((a.used n fun down => Store.delete down id).1.map .deleted) := by
  cases ha with
  | deleted ht hc' =>
    obtain ⟨rfl, rfl⟩ := Point.deleting.inj (ht.symm.trans h)
    obtain rfl := Call.delete.inj (hc'.symm.trans hc)
    exact ⟨rfl, rfl⟩
  | proceeds ht | makes ht | connects ht | connected ht | unconnected ht | created ht | found ht
  | counted ht | begins ht | plans ht | fails ht | saves ht => cases ht.symm.trans h
  | rests hi =>
    unfold Task.isIdle at hi
    rw [h, hc] at hi
    cases hi

/-- The turn of a message that has been loaded is planned, or nothing comes of the message. -/
theorem of_loading {text given : Value} (ha : Advance a t a' p) (h : t.point = .loading use n)
    (hc : t.call = .message id text given) :
    ∃ found a₁ session a₂, a.used n (fun down => Store.get down id) = (found, a₁) ∧
      a₁.sessionFor id found = (session, a₂) ∧
      match session >>= fun s => (Turn.plan a.known s text given).outcomeWhen a.journal.debugging with
      | .ok turn => a' = a₂ ∧ p = .saving use a.current turn
      | .error f => a' = a₂.left use ∧ p = .finished (.error f) := by
  cases ha with
  | @plans use' n' id' text' given' found a₁ a₂ session turn ht hc' hu hf hp =>
    obtain ⟨rfl, rfl⟩ := Point.loading.inj (ht.symm.trans h)
    obtain ⟨rfl, rfl, rfl⟩ := Call.message.inj (hc'.symm.trans hc)
    have hplan : (Except.ok session >>= fun s =>
        (Turn.plan a.known s text' given').outcomeWhen a.journal.debugging) = .ok turn := hp
    refine ⟨_, _, _, _, hu, hf, ?_⟩
    rw [hplan]
    exact ⟨rfl, rfl⟩
  | fails ht hc' hu hf hp =>
    obtain ⟨rfl, rfl⟩ := Point.loading.inj (ht.symm.trans h)
    obtain ⟨rfl, rfl, rfl⟩ := Call.message.inj (hc'.symm.trans hc)
    refine ⟨_, _, _, _, hu, hf, ?_⟩
    rw [hp]
    exact ⟨rfl, rfl⟩
  | proceeds ht | makes ht | connects ht | connected ht | unconnected ht | created ht | found ht
  | counted ht | begins ht | deleted ht | saves ht => cases ht.symm.trans h
  | rests hi =>
    unfold Task.isIdle at hi
    rw [h, hc] at hi
    cases hi

theorem of_saving {text given : Value} {turn : Turn} (ha : Advance a t a' p)
    (h : t.point = .saving use n turn) (hc : t.call = .message id text given) :
    a' = (a.used n fun down => Store.put down id turn.session).2.left use ∧ p = .finished
      ((a.used n fun down => Store.put down id turn.session).1.map fun _ => .replied turn) := by
  cases ha with
  | saves ht hc' =>
    obtain ⟨rfl, rfl, rfl⟩ := Point.saving.inj (ht.symm.trans h)
    obtain ⟨rfl, rfl, rfl⟩ := Call.message.inj (hc'.symm.trans hc)
    exact ⟨rfl, rfl⟩
  | proceeds ht | makes ht | connects ht | connected ht | unconnected ht | created ht | found ht
  | counted ht | begins ht | deleted ht | plans ht | fails ht => cases ht.symm.trans h
  | rests hi =>
    unfold Task.isIdle at hi
    rw [h, hc] at hi
    cases hi

/-- What a call does first. -/
theorem of_arrived (ha : Advance a t a' p) (h : t.point = .arrived) :
    (a.isReady = true ∧ Proceeds a t a' p) ∨
    (a.isReady = false ∧ a.setup = .memory ∧ Proceeds (a.install (.memory [])) t a' p) ∨
    a.isReady = false ∧ (∃ config, a.setup = .server config) ∧ a' = a ∧ p = .connecting := by
  cases ha with
  | proceeds _ hr hp => exact .inl ⟨hr, hp⟩
  | makes _ hr hs hp => exact .inr (.inl ⟨hr, hs, hp⟩)
  | connects _ hr hs => exact .inr (.inr ⟨hr, ⟨_, hs⟩, rfl, rfl⟩)
  | connected ht | unconnected ht | created ht | found ht | counted ht | begins ht | deleted ht
  | plans ht | fails ht | saves ht => cases ht.symm.trans h
  | rests hi =>
    unfold Task.isIdle at hi
    rw [h] at hi
    cases hi

theorem of_connecting {config : Store.Config} (ha : Advance a t a' p) (h : t.point = .connecting)
    (hs : a.setup = .server config) : Proceeds (a.install (reached a.down config)) t a' p := by
  cases ha with
  | connected _ hs' hp =>
    obtain rfl := Setup.server.inj (hs'.symm.trans hs)
    exact hp
  | unconnected _ hs' => cases hs'.symm.trans hs
  | proceeds ht | makes ht | connects ht | created ht | found ht | counted ht | begins ht | deleted ht
  | plans ht | fails ht | saves ht => cases ht.symm.trans h
  | rests hi =>
    unfold Task.isIdle at hi
    rw [h] at hi
    cases hi

theorem of_connecting_memory (ha : Advance a t a' p) (h : t.point = .connecting) (hs : a.setup = .memory) :
    Proceeds a t a' p := by
  cases ha with
  | unconnected _ _ hp => exact hp
  | connected _ hs' => cases hs'.symm.trans hs
  | proceeds ht | makes ht | connects ht | created ht | found ht | counted ht | begins ht | deleted ht
  | plans ht | fails ht | saves ht => cases ht.symm.trans h
  | rests hi =>
    unfold Task.isIdle at hi
    rw [h] at hi
    cases hi

theorem of_waiting (ha : Advance a t a' p) (h : t.point = .waiting use) :
    a' = a ∧ p = t.call.entrance use a.current := by
  cases ha with
  | begins ht =>
    obtain rfl := Point.waiting.inj (ht.symm.trans h)
    exact ⟨rfl, rfl⟩
  | proceeds ht | makes ht | connects ht | connected ht | unconnected ht | created ht | found ht
  | counted ht | deleted ht | plans ht | fails ht | saves ht => cases ht.symm.trans h
  | rests hi =>
    unfold Task.isIdle at hi
    rw [h] at hi
    cases hi

theorem of_idle (ha : Advance a t a' p) (h : t.isIdle = true) : a' = a ∧ p = t.point := by
  unfold Task.isIdle at h
  cases ha with
  | rests => exact ⟨rfl, rfl⟩
  | proceeds ht | makes ht | connects ht | connected ht | unconnected ht | created ht | counted ht
  | begins ht =>
    rw [ht] at h
    cases h
  | found ht hc | deleted ht hc | plans ht hc | fails ht hc | saves ht hc =>
    rw [ht, hc] at h
    cases h

theorem of_finished {o : Except Fault Answer} (ha : Advance a t a' p) (h : t.point = .finished o) :
    a' = a ∧ p = .finished o := by
  cases ha with
  | rests => exact ⟨rfl, h⟩
  | proceeds ht | makes ht | connects ht | connected ht | unconnected ht | created ht | found ht
  | counted ht | begins ht | deleted ht | plans ht | fails ht | saves ht => cases ht.symm.trans h

end Advance

/-! ### a step comes to one thing -/

/-- What a call asks for decides what it does. -/
theorem Proceeds.unique {a a₁ a₂ : Assistant} {t : Task} {p₁ p₂ : Point} (h : Proceeds a t a₁ p₁)
    (h' : Proceeds a t a₂ p₂) : a₁ = a₂ ∧ p₁ = p₂ := by
  -- two kinds apply to one call only if they are the same kind
  cases h <;> cases h' <;> simp_all [Call.session?]

/-- **What the calls share and the point of a call decide what a step comes to.** -/
theorem Advance.unique {a a₁ a₂ : Assistant} {t : Task} {p₁ p₂ : Point} (h : Advance a t a₁ p₁)
    (h' : Advance a t a₂ p₂) : a₁ = a₂ ∧ p₁ = p₂ := by
  cases h with
  | proceeds ht hr hp =>
    rcases h'.of_arrived ht with ⟨-, hq⟩ | ⟨hr', -⟩ | ⟨hr', -⟩
    · exact hp.unique hq
    · cases hr.symm.trans hr'
    · cases hr.symm.trans hr'
  | makes ht hr hs hp =>
    rcases h'.of_arrived ht with ⟨hr', -⟩ | ⟨-, -, hq⟩ | ⟨-, ⟨_, hs'⟩, -⟩
    · cases hr.symm.trans hr'
    · exact hp.unique hq
    · cases hs.symm.trans hs'
  | connects ht hr hs =>
    rcases h'.of_arrived ht with ⟨hr', -⟩ | ⟨-, hs', -⟩ | ⟨-, -, rfl, rfl⟩
    · cases hr.symm.trans hr'
    · cases hs.symm.trans hs'
    · exact ⟨rfl, rfl⟩
  | connected ht hs hp => exact hp.unique (h'.of_connecting ht hs)
  | unconnected ht hs hp => exact hp.unique (h'.of_connecting_memory ht hs)
  | created ht =>
    obtain ⟨rfl, rfl⟩ := h'.of_creating ht
    exact ⟨rfl, rfl⟩
  | found ht hc =>
    obtain ⟨rfl, rfl⟩ := h'.of_reading ht hc
    exact ⟨rfl, rfl⟩
  | counted ht =>
    obtain ⟨rfl, rfl⟩ := h'.of_counting ht
    exact ⟨rfl, rfl⟩
  | begins ht =>
    obtain ⟨rfl, rfl⟩ := h'.of_waiting ht
    exact ⟨rfl, rfl⟩
  | deleted ht hc =>
    obtain ⟨rfl, rfl⟩ := h'.of_deleting ht hc
    exact ⟨rfl, rfl⟩
  | @plans use n id text given found b₁ b₂ session turn ht hc hu hf hp =>
    obtain ⟨_, _, _, _, hu', hf', hq⟩ := h'.of_loading ht hc
    obtain ⟨rfl, rfl⟩ := Prod.mk.inj (hu.symm.trans hu')
    obtain ⟨rfl, rfl⟩ := Prod.mk.inj (hf.symm.trans hf')
    rw [show (Except.ok session >>= fun s => (Turn.plan a.known s text given).outcomeWhen
      a.journal.debugging) = .ok turn from hp] at hq
    exact ⟨hq.1.symm, hq.2.symm⟩
  | fails ht hc hu hf hp =>
    obtain ⟨_, _, _, _, hu', hf', hq⟩ := h'.of_loading ht hc
    obtain ⟨rfl, rfl⟩ := Prod.mk.inj (hu.symm.trans hu')
    obtain ⟨rfl, rfl⟩ := Prod.mk.inj (hf.symm.trans hf')
    rw [hp] at hq
    exact ⟨hq.1.symm, hq.2.symm⟩
  | saves ht hc =>
    obtain ⟨rfl, rfl⟩ := h'.of_saving ht hc
    exact ⟨rfl, rfl⟩
  | rests hi =>
    obtain ⟨rfl, rfl⟩ := h'.of_idle hi
    exact ⟨rfl, rfl⟩

/-! ### what the parts of a step do -/

/-- The marks of a step: the journal after it, the trace that goes on then, the turn whose stage is under way, and
the calls woken. -/
structure Marks where
  journal : Context
  current : Option Trace
  owner : Option String
  woken : List Nat

/-- The marks may be left by a step of this work: it stays as it is whether somebody debugs, and which
trace goes on outside of all calls. -/
structure Marks.Fits (m : Marks) (w : Work) : Prop where
  debugging : m.journal.debugging = w.assistant.journal.debugging
  outside : m.journal.current = w.assistant.journal.current

/-- The work at this point with this assistant, and with these marks. -/
def Work.moved (w : Work) (a : Assistant) (p : Point) (m : Marks) : Work :=
  ⟨{ a with journal := m.journal }, { w.task with point := p, current := m.current, owner := m.owner }, m.woken⟩

/-- The part of a step takes the work to this assistant and point, with this value. -/
def Act.Takes {α : Type} (x : Act α) (w : Work) (v : α) (a : Assistant) (p : Point) : Prop :=
  ∃ m : Marks, m.Fits w ∧ x.run w = (v, w.moved a p m)

/-- Marks that fit after marks that fit. -/
theorem Marks.Fits.trans {m m' : Marks} {w : Work} {a : Assistant} {p : Point} (h : m.Fits w)
    (h' : m'.Fits (w.moved a p m)) : m'.Fits w :=
  ⟨h'.debugging.trans h.debugging, h'.outside.trans h.outside⟩

namespace Act

variable {α β : Type} {w : Work}

theorem takes_pure (v : α) (w : Work) : Takes (pure v) w v w.assistant w.task.point :=
  ⟨⟨w.assistant.journal, w.task.current, w.task.owner, w.woken⟩, ⟨rfl, rfl⟩, rfl⟩

/-- One part after another: the second starts where the first has taken the work. -/
theorem Takes.bind {x : Act α} {f : α → Act β} {v : α} {u : β} {a b : Assistant} {p q : Point}
    (hx : Takes x w v a p) (hf : ∀ m : Marks, m.Fits w → Takes (f v) (w.moved a p m) u b q) :
    Takes (x >>= f) w u b q := by
  obtain ⟨m, hm, hx⟩ := hx
  obtain ⟨m', hm', hf⟩ := hf m hm
  refine ⟨m', hm.trans hm', ?_⟩
  rw [StateT.run_bind, hx]
  exact hf

/-- What is asked of the work itself is told by where it is. -/
theorem Takes.get_bind {f : Work → Act β} {u : β} {b : Assistant} {q : Point}
    (h : Takes (f w) w u b q) : Takes (get >>= f) w u b q := by
  obtain ⟨m, hm, hf⟩ := h
  refine ⟨m, hm, ?_⟩
  rw [StateT.run_bind, StateT.run_get]
  exact hf

/-- The outcome of a computation with its marks, in the turn that goes on in the call. -/
theorem perform_run (x : Traced α) (w : Work) :
    ∃ m : Marks, m.journal.debugging =
        (x.runFrom { w.assistant.journal with current := w.task.current }).2.debugging ∧
      m.journal.current = w.assistant.journal.current ∧
      (perform x).run w = ((x.runFrom { w.assistant.journal with current := w.task.current }).1,
        w.moved w.assistant w.task.point m) := by
  refine ⟨⟨{ (x.runFrom { w.assistant.journal with current := w.task.current }).2 with
      current := w.assistant.journal.current },
    (x.runFrom { w.assistant.journal with current := w.task.current }).2.current, w.task.owner, w.woken⟩,
    rfl, rfl, rfl⟩

theorem exists_takes_perform {x : Traced α} (hx : ∀ c, (x.runFrom c).2.debugging = c.debugging)
    (w : Work) : ∃ v, Takes (perform x) w v w.assistant w.task.point := by
  obtain ⟨m, hm, ho, hr⟩ := perform_run x w
  exact ⟨_, m, ⟨hm.trans (hx _), ho⟩, hr⟩

theorem takes_perform {x : Traced α} (hx : Traced.Steady x) (w : Work) :
    Takes (perform x) w (x.outcomeWhen w.assistant.journal.debugging) w.assistant w.task.point := by
  obtain ⟨m, hm, ho, hr⟩ := perform_run x w
  rw [hx.outcome] at hr
  exact ⟨m, ⟨hm.trans (hx.debugging _), ho⟩, hr⟩

theorem takes_goTo (p : Point) (w : Work) : Takes (goTo p) w () w.assistant p :=
  ⟨⟨w.assistant.journal, w.task.current, w.task.owner, w.woken⟩, ⟨rfl, rfl⟩, rfl⟩

theorem takes_stayAt (p : Point) (w : Work) : Takes (stayAt p) w () w.assistant p :=
  ⟨⟨w.assistant.journal, w.task.current, w.task.current.map (·.id), w.woken⟩, ⟨rfl, rfl⟩, rfl⟩

theorem takes_leave (use : Locks.Use) (w : Work) :
    Takes (leave use) w () (w.assistant.left use) w.task.point :=
  ⟨⟨w.assistant.journal, w.task.current, w.task.owner, _⟩, ⟨rfl, rfl⟩, rfl⟩

theorem takes_newSession (id : Value) (w : Work) :
    Takes (newSession id) w (Session.fresh id w.assistant.generated).1
      { w.assistant with generated := (Session.fresh id w.assistant.generated).2 } w.task.point :=
  ⟨⟨w.assistant.journal, w.task.current, w.task.owner, w.woken⟩, ⟨rfl, rfl⟩, rfl⟩

theorem takes_enter (session : Key) (w : Work) :
    Takes (enter session) w
      ((w.assistant.locks.enter session w.task.number).1,
        (w.assistant.locks.enter session w.task.number).2.holds
          (w.assistant.locks.enter session w.task.number).1.lock w.task.number)
      { w.assistant with locks := (w.assistant.locks.enter session w.task.number).2 } w.task.point :=
  ⟨⟨w.assistant.journal, w.task.current, w.task.owner, w.woken⟩, ⟨rfl, rfl⟩, rfl⟩

theorem takes_useStore (n : Nat) (operation : Bool → Store Session → Store.Effect Session α) (w : Work) :
    Takes (useStore n operation) w (w.assistant.used n operation).1 (w.assistant.used n operation).2
      w.task.point := by
  unfold useStore used
  refine Takes.get_bind ?_
  cases w.assistant.stores[n]? with
  | none => exact takes_pure ..
  | some s =>
    -- the store is set first, and then what the operation notes is written
    obtain ⟨m, hm, hr⟩ := takes_perform (Traced.steady_notes (operation w.assistant.down s).entries)
      { w with assistant := { w.assistant with
        stores := w.assistant.stores.set n (operation w.assistant.down s).store } }
    refine ⟨m, ⟨hm.debugging, hm.outside⟩, ?_⟩
    show (perform _ >>= fun _ => pure _ : Act (Except Fault α)).run _ = _
    rw [StateT.run_bind, hr]
    rfl

end Act

/-! ### what a step does -/

variable {w : Work}

/-- What is done with a call, when the call and its point are known. -/
theorem Act.Takes.as {x : Act Unit} (body : Act Unit) {a : Assistant} {p : Point}
    (h : Act.Takes body w () a p) (hs : x.run w = body.run w) : Act.Takes x w () a p := by
  obtain ⟨m, hm, hr⟩ := h
  exact ⟨m, hm, hs.trans hr⟩

theorem takes_begin (use : Locks.Use) (w : Work) :
    Act.Takes (begin use) w () w.assistant (w.task.call.entrance use w.assistant.current) := by
  refine Act.Takes.get_bind ?_
  unfold Call.entrance
  cases w.task.call with
  | message id text given =>
    refine (Act.takes_perform ((Traced.steady_turnStarts ..).bind fun _ => Traced.steady_stageStarts ..)
      w).bind fun m hm => ?_
    exact Act.takes_stayAt ..
  | _ => exact Act.takes_goTo ..

theorem exists_takes_enterSession {id : Value} (h : w.task.call.session? = some id) :
    ∃ a p, Proceeds w.assistant w.task a p ∧ Act.Takes (enterSession id) w () a p := by
  unfold enterSession
  cases hk : id.key? with
  | none => exact ⟨_, _, .refused h hk, Act.takes_goTo ..⟩
  | some session =>
    cases hh : (w.assistant.locks.enter session w.task.number).2.holds
        (w.assistant.locks.enter session w.task.number).1.lock w.task.number with
    | true =>
      refine ⟨_, _, .takes h hk rfl hh, (Act.takes_enter session w).bind fun m hm => ?_⟩
      rw [hh]
      exact takes_begin ..
    | false =>
      refine ⟨_, _, .queues h hk rfl hh, (Act.takes_enter session w).bind fun m hm => ?_⟩
      rw [hh]
      exact Act.takes_goTo ..

/-- What a call does first when there is a store in use, as it asks for. -/
theorem run_proceed (w : Work) : proceed.run w = (match w.task.call with
    | .prepare => Act.finish (.ok .prepared)
    | .create => do Act.goTo (.creating w.assistant.current (← Act.newSession .null))
    | .read _ => Act.goTo (.reading w.assistant.current)
    | .delete id => enterSession id
    | .message id _ _ => enterSession id
    | .health =>
      if (w.assistant.stores[w.assistant.current]?.map Store.isAvailable).getD false then
        Act.goTo (.counting w.assistant.current)
      else Act.finish (.ok (.health .unavailable)) : Act Unit).run w :=
  rfl

theorem exists_takes_proceed (w : Work) :
    ∃ a p, Proceeds w.assistant w.task a p ∧ Act.Takes proceed w () a p := by
  cases hc : w.task.call with
  | prepare => exact ⟨_, _, .prepared hc, .as _ (by rw [hc]; exact Act.takes_goTo ..) (run_proceed w)⟩
  | create =>
    refine ⟨_, _, .creates hc, .as _ ?_ (run_proceed w)⟩
    rw [hc]
    exact (Act.takes_newSession .null w).bind fun m hm => Act.takes_goTo ..
  | read id => exact ⟨_, _, .reads hc, .as _ (by rw [hc]; exact Act.takes_goTo ..) (run_proceed w)⟩
  | delete id =>
    obtain ⟨a, p, hp, ht⟩ := exists_takes_enterSession (show w.task.call.session? = some id by rw [hc]; rfl)
    exact ⟨a, p, hp, .as _ (by rw [hc]; exact ht) (run_proceed w)⟩
  | message id text given =>
    obtain ⟨a, p, hp, ht⟩ := exists_takes_enterSession (show w.task.call.session? = some id by rw [hc]; rfl)
    exact ⟨a, p, hp, .as _ (by rw [hc]; exact ht) (run_proceed w)⟩
  | health =>
    cases ha : (w.assistant.stores[w.assistant.current]?.map Store.isAvailable).getD false with
    | true => exact ⟨_, _, .counts hc ha, .as _ (by rw [hc, ha]; exact Act.takes_goTo ..) (run_proceed w)⟩
    | false => exact ⟨_, _, .unavailable hc ha, .as _ (by rw [hc, ha]; exact Act.takes_goTo ..) (run_proceed w)⟩

/-- What a call does to have a store in use, as the setup says. -/
theorem run_arrive (w : Work) : arrive.run w = (if w.assistant.isReady then proceed
    else match w.assistant.setup with
      | .memory => do
        modify fun w => { w with assistant := w.assistant.install (.memory []) }
        proceed
      | .server _ => Act.goTo .connecting : Act Unit).run w :=
  rfl

theorem exists_takes_arrive (h : w.task.point = .arrived) :
    ∃ a p, Advance w.assistant w.task a p ∧ Act.Takes arrive w () a p := by
  cases hr : w.assistant.isReady with
  | true =>
    obtain ⟨a, p, hp, ht⟩ := exists_takes_proceed w
    exact ⟨a, p, .proceeds h hr hp, .as _ (by rw [hr]; exact ht) (run_arrive w)⟩
  | false =>
    cases hs : w.assistant.setup with
    | memory =>
      obtain ⟨a, p, hp, m, hm, ht⟩ :=
        exists_takes_proceed { w with assistant := w.assistant.install (.memory []) }
      refine ⟨a, p, .makes h hr hs hp, .as _ ?_ (run_arrive w)⟩
      rw [hr, hs]
      exact ⟨m, ⟨hm.debugging, hm.outside⟩, ht⟩
    | server config =>
      exact ⟨_, _, .connects h hr hs, .as _ (by rw [hr, hs]; exact Act.takes_goTo ..) (run_arrive w)⟩

/-- What comes of an attempt to reach a server. -/
theorem connect_outcome (down : Bool) (config : Store.Config) :
    (match (Store.connect (ρ := Session) down (.client config .none)).outcome with
      | .ok true => (Store.connect down (.client config .none)).store
      | _ => .memory []) = reached down config := by
  cases down <;> rfl

theorem exists_takes_connect (h : w.task.point = .connecting) :
    ∃ a p, Advance w.assistant w.task a p ∧ Act.Takes connect w () a p := by
  cases hs : w.assistant.setup with
  | memory =>
    obtain ⟨a, p, hp, ht⟩ := exists_takes_proceed w
    refine ⟨a, p, .unconnected h hs hp, Act.Takes.get_bind ?_⟩
    simp only [hs]
    exact ht
  | server config =>
    -- what is noted of the attempt does not show in what the call does then
    obtain ⟨m, hm, hr⟩ := Act.takes_perform (Traced.steady_notes
      (Store.connect (ρ := Session) w.assistant.down (.client config .none)).entries) w
    obtain ⟨a, p, hp, m', hm', ht⟩ := exists_takes_proceed
      (w.moved (w.assistant.install (reached w.assistant.down config)) w.task.point m)
    have hp' : Proceeds (w.assistant.install (reached w.assistant.down config)) w.task
        { a with journal := w.assistant.journal } p := hp.marked w.assistant.journal rfl rfl
    refine ⟨_, p, .connected h hs hp', m', hm.trans hm', ?_⟩
    have hconnect : connect.run w = proceed.run
        (w.moved (w.assistant.install (reached w.assistant.down config)) w.task.point m) := by
      rw [← connect_outcome]
      unfold connect
      rw [StateT.run_bind, StateT.run_get]
      simp only [hs, pure_bind]
      rw [StateT.run_bind, hr]
      rfl
    rw [hconnect]
    exact ht

/-- The part of a step in which a turn is planned, with its marks in the journal. -/
theorem outcomeWhen_planStage {reading : Traced Message.Extraction} (hreading : Traced.Steady reading)
    (owner : Option String) (known : List Value) (session : Except Fault Session) (text given : Value) (d : Bool) :
    Traced.Steady (do
      Traced.stageEnds owner "SESSION" "load" (Traced.faultOf session)
      let turn ← Turn.planBy reading known (← liftExcept session) text given
      Traced.stageStarts "SESSION" "save"
      return turn) ∧
    Traced.outcomeWhen d (do
      Traced.stageEnds owner "SESSION" "load" (Traced.faultOf session)
      let turn ← Turn.planBy reading known (← liftExcept session) text given
      Traced.stageStarts "SESSION" "save"
      return turn) = session >>= fun s => (Turn.planBy reading known s text given).outcomeWhen d := by
  have hsave : ∀ turn : Turn, Traced.Steady (do Traced.stageStarts "SESSION" "save"; return turn) :=
    fun turn => (Traced.steady_stageStarts ..).bind fun _ => Traced.steady_pure turn
  have hplan := fun s => (Turn.steady_planBy hreading known s text given).bind hsave
  have hlift := (Traced.steady_liftExcept session).bind hplan
  refine ⟨(Traced.steady_stageEnds ..).bind fun _ => hlift, ?_⟩
  rw [Traced.outcomeWhen_bind (Traced.steady_stageEnds ..) fun _ => hlift, Traced.outcomeWhen_stageEnds]
  refine (Traced.outcomeWhen_bind (Traced.steady_liftExcept session) hplan d).trans ?_
  rw [Traced.outcomeWhen_liftExcept]
  refine bind_congr fun s => ?_
  rw [Traced.outcomeWhen_bind (Turn.steady_planBy hreading ..) hsave]
  cases (Turn.planBy reading known s text given).outcomeWhen d with
  | error f => rfl
  | ok turn =>
    show Traced.outcomeWhen d (do Traced.stageStarts "SESSION" "save"; return turn) = .ok turn
    rw [Traced.outcomeWhen_bind (Traced.steady_stageStarts ..) fun _ => Traced.steady_pure turn,
      Traced.outcomeWhen_stageStarts]
    rfl

theorem takes_planTurn {tools : Tools} (id : Value) {text : Value} (given : Value)
    (found : Except Fault (Option Session)) {w : Work}
    (hread : Traced.Steady (tools.read text (.list w.assistant.known))) :
    Act.Takes (planTurn tools id text given found) w
      ((w.assistant.sessionFor id found).1 >>= fun s =>
        (Turn.planBy (tools.read text (.list w.assistant.known)) w.assistant.known s text given).outcomeWhen
          w.assistant.journal.debugging)
      (w.assistant.sessionFor id found).2 w.task.point := by
  have hplan : ∀ (session : Except Fault Session) (w₁ : Work), w₁.assistant.known = w.assistant.known →
      w₁.assistant.journal.debugging = w.assistant.journal.debugging →
      Act.Takes (do
        let w ← get
        let known := w.assistant.known
        Act.perform do
          Traced.stageEnds w.task.owner "SESSION" "load" (Traced.faultOf session)
          let turn ← Turn.planBy (tools.read text (.list known)) known (← liftExcept session) text given
          Traced.stageStarts "SESSION" "save"
          return turn) w₁
        (session >>= fun s =>
          (Turn.planBy (tools.read text (.list w.assistant.known)) w.assistant.known s text given).outcomeWhen
            w.assistant.journal.debugging)
        w₁.assistant w₁.task.point := by
    intro session w₁ hk hd
    refine Act.Takes.get_bind ?_
    rw [← hk] at hread ⊢
    have ⟨hs, ho⟩ := outcomeWhen_planStage hread w₁.task.owner w₁.assistant.known session text given
      w₁.assistant.journal.debugging
    rw [← hd, ← ho]
    exact Act.takes_perform hs w₁
  unfold planTurn sessionFor
  match found with
  | .ok none =>
    have hnew : Act.Takes (Except.ok <$> Act.newSession id : Act (Except Fault Session)) w
        (.ok (Session.fresh id w.assistant.generated).1)
        { w.assistant with generated := (Session.fresh id w.assistant.generated).2 } w.task.point :=
      ⟨⟨w.assistant.journal, w.task.current, w.task.owner, w.woken⟩, ⟨rfl, rfl⟩, rfl⟩
    refine hnew.bind fun m hm => ?_
    exact hplan _ (w.moved { w.assistant with
      generated := (Session.fresh id w.assistant.generated).2 } w.task.point m) rfl hm.debugging
  | .ok (some s) =>
    exact (Act.takes_pure _ w).bind fun m hm => hplan (.ok s) (w.moved _ _ m) rfl hm.debugging
  | .error f =>
    exact (Act.takes_pure _ w).bind fun m hm => hplan (.error f) (w.moved _ _ m) rfl hm.debugging

theorem takes_endTurn (use : Locks.Use) (outcome : Except Fault Turn) (w : Work) :
    Act.Takes (endTurn use outcome) w () (w.assistant.left use) (.finished (outcome.map .replied)) := by
  refine Act.Takes.get_bind ?_
  obtain ⟨v, hends⟩ := Act.exists_takes_perform (Traced.debugging_turnEnds w.task.outer) w
  refine hends.bind fun m hm => (Act.takes_leave use _).bind fun m' hm' => ?_
  cases outcome with
  | error f => exact Act.takes_goTo ..
  | ok turn =>
    exact (Act.takes_perform (Traced.steady_note turn.latencyEntry) _).bind fun m'' hm'' =>
      Act.takes_goTo ..

/-! ### steps of calls -/

/-- An operation of a store, and one more part that takes the call to a point. -/
theorem Act.Takes.afterUse {α : Type} {n : Nat}
    {operation : Bool → Store Session → Store.Effect Session α} {f : Except Fault α → Act Unit}
    {a : Assistant} {p : Point}
    (hf : ∀ m : Marks, m.Fits w → Act.Takes (f (w.assistant.used n operation).1)
      (w.moved (w.assistant.used n operation).2 w.task.point m) () a p) :
    Act.Takes (Act.useStore n operation >>= f) w () a p :=
  (Act.takes_useStore n operation w).bind hf

/-- The step of a message that has been loaded: the turn is planned. -/
theorem exists_takes_loading {use : Locks.Use} {n : Nat} {id text given : Value}
    (h : w.task.point = .loading use n) (hc : w.task.call = .message id text given) :
    ∃ a p, Advance w.assistant w.task a p ∧ Act.Takes (do
      let found ← Act.useStore n fun down => Store.get down id
      match ← planTurn .own id text given found with
      | .ok turn => Act.stayAt (.saving use (← get).assistant.current turn)
      | .error f => endTurn use (.error f)) w () a p := by
  obtain ⟨found, a₁, hu⟩ : ∃ found a₁, w.assistant.used n (fun down => Store.get down id) = (found, a₁) :=
    ⟨_, _, rfl⟩
  obtain ⟨session, a₂, hf⟩ : ∃ session a₂, a₁.sessionFor id found = (session, a₂) := ⟨_, _, rfl⟩
  have hused : a₁ = { w.assistant with stores := a₁.stores } := by
    have := used_eq w.assistant n fun down => Store.get down id
    rwa [hu] at this
  have hfor : a₂ = { a₁ with generated := a₂.generated } := by
    have := sessionFor_eq a₁ id found
    rwa [hf] at this
  have hplan : ∀ m : Marks, m.Fits w → Act.Takes (planTurn .own id text given found)
      (w.moved a₁ w.task.point m) (session >>= fun s =>
        (Turn.plan w.assistant.known s text given).outcomeWhen w.assistant.journal.debugging)
      a₂ w.task.point := by
    intro m hm
    have := @takes_planTurn .own id text given found (w.moved a₁ w.task.point m)
      (Turn.steady_extractedFrom text _)
    rw [show (w.moved a₁ w.task.point m).assistant = { a₁ with journal := m.journal } from rfl,
      sessionFor_marked, hf, show m.journal.debugging = w.assistant.journal.debugging from hm.debugging] at this
    rw [hused] at this ⊢
    exact this
  cases hp : session >>= fun s =>
      (Turn.plan w.assistant.known s text given).outcomeWhen w.assistant.journal.debugging with
  | ok turn =>
    cases session with
    | error f => cases hp
    | ok s =>
      refine ⟨_, _, .plans h hc hu hf hp, Act.Takes.afterUse fun m hm => ?_⟩
      rw [hu]
      refine (hplan m hm).bind fun m' hm' => ?_
      rw [hp]
      have hcurrent : w.assistant.current = a₂.current := by rw [hfor, hused]
      rw [hcurrent]
      exact Act.Takes.get_bind (Act.takes_stayAt ..)
  | error f =>
    refine ⟨_, _, .fails h hc hu hf hp, Act.Takes.afterUse fun m hm => ?_⟩
    rw [hu]
    refine (hplan m hm).bind fun m' hm' => ?_
    rw [hp]
    exact takes_endTurn ..

theorem takes_saving (use : Locks.Use) (n : Nat) (id : Value) (turn : Turn) (w : Work) :
    Act.Takes (do
      let outcome ← Act.useStore n fun down => Store.put down id turn.session
      let _ ← Act.perform (Traced.stageEnds (← get).task.owner "SESSION" "save" (Traced.faultOf outcome))
      endTurn use (outcome.map fun _ => turn)) w ()
      ((w.assistant.used n fun down => Store.put down id turn.session).2.left use)
      (.finished ((w.assistant.used n fun down => Store.put down id turn.session).1.map
        fun _ => .replied turn)) := by
  refine Act.Takes.afterUse fun m hm => Act.Takes.get_bind ?_
  refine (Act.takes_perform (Traced.steady_stageEnds ..) _).bind fun m' hm' => ?_
  have h := takes_endTurn use (((w.assistant.used n fun down => Store.put down id turn.session).1.map
    fun _ => turn)) ((w.moved (w.assistant.used n fun down => Store.put down id turn.session).2
      w.task.point m).moved (w.moved (w.assistant.used n fun down => Store.put down id turn.session).2
      w.task.point m).assistant w.task.point m')
  cases ho : (w.assistant.used n fun down => Store.put down id turn.session).1 with
  | error f => rw [ho] at h; exact h
  | ok b => rw [ho] at h; exact h

/-- **A step of a call is an advance.** -/
theorem exists_takes_step (w : Work) :
    ∃ a p, Advance w.assistant w.task a p ∧ Act.Takes step w () a p := by
  obtain ⟨a, ⟨number, call, point, outer, current, owner⟩, woken⟩ := w
  cases point with
  | arrived =>
    obtain ⟨a', p, hp, ht⟩ :=
      exists_takes_arrive (w := ⟨a, ⟨number, call, .arrived, outer, current, owner⟩, woken⟩) rfl
    exact ⟨a', p, hp, ht.as _ rfl⟩
  | connecting =>
    obtain ⟨a', p, hp, ht⟩ :=
      exists_takes_connect (w := ⟨a, ⟨number, call, .connecting, outer, current, owner⟩, woken⟩) rfl
    exact ⟨a', p, hp, ht.as _ rfl⟩
  | creating n session =>
    refine ⟨_, _, .created rfl, Act.Takes.as (do
      let outcome ← Act.useStore n fun down => Store.put down session.id session
      Act.finish (outcome.map fun _ => .created session)) ?_ rfl⟩
    exact Act.Takes.afterUse fun m hm => Act.takes_goTo ..
  | reading n =>
    cases call with
    | read id =>
      refine ⟨_, _, .found rfl rfl, Act.Takes.as (do
        let outcome ← Act.useStore n fun down => Store.get down id
        Act.finish (outcome.map .read)) ?_ rfl⟩
      exact Act.Takes.afterUse fun m hm => Act.takes_goTo ..
    | _ => exact ⟨_, _, .rests rfl, (Act.takes_pure () _).as _ rfl⟩
  | counting n =>
    refine ⟨_, _, .counted rfl, Act.Takes.as (do
      let outcome ← Act.useStore n Store.count
      Act.finish (.ok (.health (healthOf outcome)))) ?_ rfl⟩
    exact Act.Takes.afterUse fun m hm => Act.takes_goTo ..
  | waiting use => exact ⟨_, _, .begins rfl, (takes_begin use _).as _ rfl⟩
  | deleting use n =>
    cases call with
    | delete id =>
      refine ⟨_, _, .deleted rfl rfl, Act.Takes.as (do
        let outcome ← Act.useStore n fun down => Store.delete down id
        Act.leave use
        Act.finish (outcome.map .deleted)) ?_ rfl⟩
      exact Act.Takes.afterUse fun m hm => (Act.takes_leave use _).bind fun m' hm' => Act.takes_goTo ..
    | _ => exact ⟨_, _, .rests rfl, (Act.takes_pure () _).as _ rfl⟩
  | loading use n =>
    cases call with
    | message id text given =>
      obtain ⟨a', p, hp, ht⟩ := exists_takes_loading
        (w := ⟨a, ⟨number, .message id text given, .loading use n, outer, current, owner⟩, woken⟩) rfl rfl
      exact ⟨a', p, hp, ht.as _ rfl⟩
    | _ => exact ⟨_, _, .rests rfl, (Act.takes_pure () _).as _ rfl⟩
  | saving use n turn =>
    cases call with
    | message id text given => exact ⟨_, _, .saves rfl rfl, (takes_saving use n id turn _).as _ rfl⟩
    | _ => exact ⟨_, _, .rests rfl, (Act.takes_pure () _).as _ rfl⟩
  | finished outcome => exact ⟨_, _, .rests rfl, (Act.takes_pure () _).as _ rfl⟩
  | givenUp => exact ⟨_, _, .rests rfl, (Act.takes_pure () _).as _ rfl⟩

/-- **The steps of calls at work are advances**, but for their marks. -/
theorem next_advances (w : Work) :
    ∃ a p, Advance w.assistant w.task a p ∧ ∃ m : Marks, m.Fits w ∧ w.next = w.moved a p m := by
  obtain ⟨a, p, ha, m, hm, hr⟩ := exists_takes_step w
  exact ⟨a, p, ha, m, hm, congrArg Prod.snd hr⟩

/-! ### calls that are given up -/

/-- The use of a lock that goes with a point. -/
def Point.use? : Point → Option Locks.Use
  | .waiting use | .deleting use _ | .loading use _ | .saving use _ _ => some use
  | _ => none

/-- A call at this point has the lock of its session. -/
def Point.isInside : Point → Bool
  | .deleting .. | .loading .. | .saving .. => true
  | _ => false

/-- The assistant after a call has been given up. -/
inductive GivesUp (a : Assistant) (t : Task) : Assistant → Point → Prop where
  | finished {outcome : Except Fault Answer} (h : t.point = .finished outcome) :
    GivesUp a t a (.finished outcome)
  | withdraws {use : Locks.Use} (h : t.point = .waiting use) :
    GivesUp a t { a with locks := a.locks.withdraw use t.number } .givenUp
  | leaves {use : Locks.Use} (hi : t.point.isInside = true) (hu : t.point.use? = some use) :
    GivesUp a t (a.left use) .givenUp
  /-- Neither has it the lock of its session, nor does it wait for it. -/
  | stops (hf : t.outcome? = none) (hu : t.point.use? = none) : GivesUp a t a .givenUp

/-- The point of a call decides what giving it up comes to. -/
theorem GivesUp.unique {a a₁ a₂ : Assistant} {t : Task} {p₁ p₂ : Point} (h : GivesUp a t a₁ p₁)
    (h' : GivesUp a t a₂ p₂) : a₁ = a₂ ∧ p₁ = p₂ := by
  cases h <;> cases h' <;> simp_all [Task.outcome?, Point.isInside, Point.use?]

theorem takes_withdraw (use : Locks.Use) (w : Work) :
    Act.Takes (Act.withdraw use) w ()
      { w.assistant with locks := w.assistant.locks.withdraw use w.task.number } w.task.point :=
  ⟨⟨w.assistant.journal, w.task.current, w.task.owner, _⟩, ⟨rfl, rfl⟩, rfl⟩

theorem takes_cutTurn (description : String) (w : Work) :
    Act.Takes (Act.cutTurn description) w () w.assistant w.task.point := by
  refine Act.Takes.get_bind ?_
  obtain ⟨v, h⟩ := Act.exists_takes_perform (x := do
    Traced.record w.task.owner "SESSION" description .cut
    Traced.turnEnds w.task.outer) (fun c => Traced.debugging_bind (fun _ => rfl)
      (fun _ => Traced.debugging_turnEnds _) c) w
  exact h.bind fun m hm => Act.takes_pure () _

theorem exists_takes_giveUp (w : Work) :
    ∃ a p, GivesUp w.assistant w.task a p ∧ Act.Takes giveUp w () a p := by
  obtain ⟨a, ⟨number, call, point, outer, current, owner⟩, woken⟩ := w
  cases point with
  | finished outcome => exact ⟨_, _, .finished rfl, (Act.takes_pure () _).as _ rfl⟩
  | waiting use =>
    refine ⟨_, _, .withdraws rfl, Act.Takes.as (do
      Act.withdraw use
      Act.goTo .givenUp) ?_ rfl⟩
    exact (takes_withdraw use _).bind fun m hm => Act.takes_goTo ..
  | deleting use n =>
    refine ⟨_, _, .leaves rfl rfl, Act.Takes.as (do
      Act.leave use
      Act.goTo .givenUp) ?_ rfl⟩
    exact (Act.takes_leave use _).bind fun m hm => Act.takes_goTo ..
  | loading use n =>
    refine ⟨_, _, .leaves rfl rfl, Act.Takes.as (do
      Act.cutTurn "load"
      Act.leave use
      Act.goTo .givenUp) ?_ rfl⟩
    exact (takes_cutTurn ..).bind fun m hm => (Act.takes_leave use _).bind fun m' hm' => Act.takes_goTo ..
  | saving use n turn =>
    refine ⟨_, _, .leaves rfl rfl, Act.Takes.as (do
      Act.cutTurn "save"
      Act.leave use
      Act.goTo .givenUp) ?_ rfl⟩
    exact (takes_cutTurn ..).bind fun m hm => (Act.takes_leave use _).bind fun m' hm' => Act.takes_goTo ..
  | _ => exact ⟨_, _, .stops rfl rfl, (Act.takes_goTo .givenUp _).as _ rfl⟩

theorem cancel_givesUp (w : Work) :
    ∃ a p, GivesUp w.assistant w.task a p ∧ ∃ m : Marks, m.Fits w ∧ w.cancel = w.moved a p m := by
  obtain ⟨a, p, ha, m, hm, hr⟩ := exists_takes_giveUp w
  exact ⟨a, p, ha, m, hm, congrArg Prod.snd hr⟩

end Outfitter.Assistant
