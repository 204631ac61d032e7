import Outfitter.Proofs.Assistant.LockTables
import Outfitter.Proofs.Assistant.Sequel

/-!
Turns of a session take effect one after the other.

Messages and deletions go on in any interleaving of their steps, on an assistant whose store serves. Each
step keeps `Linear`, which says that the records are `Orderly` in the order in which the calls have taken
their locks. When all have finished, every record is the one that comes of the calls about its session made
one after the other, and every call has the outcome that it has there: `turns_linearizable`.
-/

namespace Outfitter.Assistant

open Journal

/-- The record that the store in use keeps under an identifier. -/
def record? (a : Assistant) (id : String) : Option Session :=
  a.store?.bind fun s => s.find? id

/-- There is a store in use, and it serves. -/
structure Serving (e : Setting) (a : Assistant) : Prop where
  ready : a.isReady = true
  store : ∃ s, a.stores[a.current]? = some s ∧ s.serves a.down = true
  known : a.known = e.known
  debugging : a.journal.debugging = e.debugging

/-- A message for a session, or its deletion; the session is known by a text that is not empty. -/
def Call.IsTurn (c : Call) : Prop :=
  ∃ s : String, s ≠ "" ∧ (c = .delete (.str s) ∨ ∃ text given, c = .message (.str s) text given)

theorem Call.IsTurn.deletes {c : Call} (h : c.IsTurn) {id : Value} (hc : c = .delete id) :
    ∃ s : String, id = .str s := by
  obtain ⟨s, -, he | ⟨text, given, he⟩⟩ := h
  · exact ⟨s, Call.delete.inj (hc.symm.trans he)⟩
  · cases hc.symm.trans he

theorem Call.IsTurn.sends {c : Call} (h : c.IsTurn) {id text given : Value}
    (hc : c = .message id text given) : ∃ s : String, s ≠ "" ∧ id = .str s := by
  obtain ⟨s, hs, he | ⟨text', given', he⟩⟩ := h
  · cases hc.symm.trans he
  · exact ⟨s, hs, (Call.message.inj (hc.symm.trans he)).1⟩

/-- A message or deletion may stand here, when this is the store in use. -/
def Point.isOfTurn (current : Nat) : Point → Bool
  | .arrived | .waiting _ | .finished _ => true
  | .deleting _ n | .loading _ n | .saving _ n _ => n == current
  | _ => false

/-! ### operations of the store in use -/

theorem Serving.record? {e : Setting} {a : Assistant} (h : Serving e a) {s : Store Session}
    (hs : a.stores[a.current]? = some s) (id : String) : a.record? id = s.find? id := by
  unfold Assistant.record? store?
  rw [h.ready, if_pos rfl, hs]
  rfl

theorem used_current {α : Type} (a : Assistant) (n : Nat)
    (operation : Bool → Store Session → Store.Effect Session α) :
    (a.used n operation).2.current = a.current := by
  rw [used_eq]

/-- An operation of the store in use that leaves it serving. -/
theorem Serving.used {e : Setting} {a : Assistant} (h : Serving e a) {α : Type} {s : Store Session}
    (hs : a.stores[a.current]? = some s)
    (operation : Bool → Store Session → Store.Effect Session α)
    (hserves : (operation a.down s).store.serves a.down = true) :
    (a.used a.current operation).1 = (operation a.down s).outcome ∧
      Serving e (a.used a.current operation).2 ∧
      ∀ id, (a.used a.current operation).2.record? id = (operation a.down s).store.find? id := by
  have hused : a.used a.current operation = ((operation a.down s).outcome,
      { a with stores := a.stores.set a.current (operation a.down s).store }) := by
    unfold Assistant.used
    rw [hs]
  have hset : (a.stores.set a.current (operation a.down s).store)[a.current]? =
      some (operation a.down s).store := by
    rw [List.getElem?_set_self', hs]
    rfl
  rw [hused]
  have hserving : Serving e { a with stores := a.stores.set a.current (operation a.down s).store } :=
    ⟨h.ready, ⟨_, hset, hserves⟩, h.known, h.debugging⟩
  exact ⟨rfl, hserving, hserving.record? hset⟩

theorem Serving.get {e : Setting} {a : Assistant} (h : Serving e a) (id : String) :
    (a.used a.current fun down => Store.get down (.str id)).1 = .ok (a.record? id) ∧
      Serving e (a.used a.current fun down => Store.get down (.str id)).2 ∧
      (a.used a.current fun down => Store.get down (.str id)).2.record? = a.record? := by
  obtain ⟨s, hs, hserves⟩ := h.store
  obtain ⟨ho, hstore⟩ := Store.get_of_serves hserves id
  obtain ⟨hu, hserving, hr⟩ := h.used hs (fun down => Store.get down (.str id))
    (by rw [hstore]; exact hserves)
  refine ⟨hu.trans (ho.trans (by rw [h.record? hs])), hserving, funext fun other => ?_⟩
  rw [hr, hstore, h.record? hs]

theorem Serving.put {e : Setting} {a : Assistant} (h : Serving e a) (id : String) {r : Session}
    (hr : r.toValue.isWritable = true) :
    (a.used a.current fun down => Store.put down (.str id) r).1 = .ok true ∧
      Serving e (a.used a.current fun down => Store.put down (.str id) r).2 ∧
      (a.used a.current fun down => Store.put down (.str id) r).2.record? id = some r ∧
      ∀ other, other ≠ id →
        (a.used a.current fun down => Store.put down (.str id) r).2.record? other = a.record? other := by
  obtain ⟨s, hs, hserves⟩ := h.store
  obtain ⟨ho, hch⟩ := Store.put_of_serves hserves id hr
  obtain ⟨hu, hserving, hr⟩ := h.used hs (fun down => Store.put down (.str id) r) hch.serves
  refine ⟨hu.trans ho, hserving, (hr id).trans hch.here, fun other hne => ?_⟩
  rw [hr, hch.elsewhere other hne, h.record? hs]

/-- A session that cannot be written is not kept. -/
theorem Serving.put_unwritable {e : Setting} {a : Assistant} (h : Serving e a) (id : String) {r : Session}
    (hr : ¬ r.toValue.isWritable = true) :
    (a.used a.current fun down => Store.put down (.str id) r).1 = .error .tooLongToWrite ∧
      Serving e (a.used a.current fun down => Store.put down (.str id) r).2 ∧
      (a.used a.current fun down => Store.put down (.str id) r).2.record? = a.record? := by
  obtain ⟨s, hs, hserves⟩ := h.store
  have hput := Store.put_of_unwritable hserves id hr
  obtain ⟨hu, hserving, hrecord⟩ := h.used hs (fun down => Store.put down (.str id) r) (by rw [hput]; exact hserves)
  refine ⟨hu.trans (by rw [hput]), hserving, funext fun other => ?_⟩
  rw [hrecord, hput, h.record? hs]

theorem Serving.delete {e : Setting} {a : Assistant} (h : Serving e a) (id : String) :
    (a.used a.current fun down => Store.delete down (.str id)).1 = .ok (a.record? id).isSome ∧
      Serving e (a.used a.current fun down => Store.delete down (.str id)).2 ∧
      (a.used a.current fun down => Store.delete down (.str id)).2.record? id = none ∧
      ∀ other, other ≠ id →
        (a.used a.current fun down => Store.delete down (.str id)).2.record? other = a.record? other := by
  obtain ⟨s, hs, hserves⟩ := h.store
  obtain ⟨ho, hch⟩ := Store.delete_of_serves hserves id
  obtain ⟨hu, hserving, hr⟩ := h.used hs (fun down => Store.delete down (.str id)) hch.serves
  refine ⟨hu.trans (ho.trans (by rw [h.record? hs])), hserving, (hr id).trans hch.here, fun other hne => ?_⟩
  rw [hr, hch.elsewhere other hne, h.record? hs]

theorem Serving.left {e : Setting} {a : Assistant} (h : Serving e a) {use : Locks.Use} :
    Serving e (a.left use) :=
  ⟨h.ready, h.store, h.known, h.debugging⟩

/-- The session of a message is the one that was found, or a new one under the identifier. -/
theorem sessionFor_text (a : Assistant) {id : String} (hid : id ≠ "") (record : Option Session) :
    a.sessionFor (.str id) (.ok record) = (.ok (sessionOf (.str id) record), a) := by
  have hfresh : Session.fresh (.str id) a.generated = (Session.empty (.str id), a.generated) := by
    refine if_pos ?_
    show (!id.isEmpty) = true
    rw [Bool.not_eq_true', Bool.eq_false_iff, Ne, String.isEmpty_iff]
    exact hid
  cases record with
  | some s => rfl
  | none =>
    unfold sessionFor
    rw [hfresh]
    rfl

/-! ### turns -/

/-- What is planned for a message is what the call alone would save. -/
theorem plans_of_plan {e : Setting} {id text given : Value} {record : Option Session} {turn : Turn}
    (h : (Turn.plan e.known (sessionOf id record) text given).outcomeWhen e.debugging = .ok turn) :
    (Call.message id text given).Plans e record turn := by
  cases hr : e.reply id text given record with
  | error f =>
    obtain ⟨f', hf⟩ := Turn.plan_of_fault hr
    rw [hf] at h
    cases h
  | ok r =>
    obtain ⟨extracted, hp⟩ := Turn.plan_of_replied hr
    rw [hp] at h
    exact ⟨id, text, given, r, extracted, rfl, hr, (Except.ok.inj h).symm⟩

/-- A turn that can be written is what the call alone comes to. -/
theorem Call.Plans.written {e : Setting} {c : Call} {record : Option Session} {turn : Turn}
    (h : c.Plans e record turn) (hw : turn.session.toValue.isWritable = true) :
    c.Answers e record (.ok (.replied turn)) ∧ c.alone e record = some turn.session := by
  obtain ⟨id, text, given, r, extracted, rfl, hr, rfl⟩ := h
  refine ⟨?_, alone_of_written hr hw⟩
  unfold Call.Answers
  dsimp only
  rw [hr]
  dsimp only
  rw [if_pos hw]
  exact ⟨extracted, rfl⟩

/-- Of a turn that cannot be written nothing comes. -/
theorem Call.Plans.unwritten {e : Setting} {c : Call} {record : Option Session} {turn : Turn}
    (h : c.Plans e record turn) (hw : ¬ turn.session.toValue.isWritable = true) :
    c.Answers e record (.error .tooLongToWrite) ∧ c.alone e record = record := by
  obtain ⟨id, text, given, r, extracted, rfl, hr, rfl⟩ := h
  refine ⟨?_, alone_of_unwritten hr hw⟩
  unfold Call.Answers
  dsimp only
  rw [hr]
  dsimp only
  rw [if_neg hw]

/-- Where nothing can be planned for a message, the call alone changes nothing and fails too. -/
theorem answers_of_plan_fault {e : Setting} {id text given : Value} {record : Option Session} {f : Fault}
    (h : (Turn.plan e.known (sessionOf id record) text given).outcomeWhen e.debugging = .error f) :
    (Call.message id text given).Answers e record (.error f) ∧
      (Call.message id text given).alone e record = record := by
  cases hr : e.reply id text given record with
  | ok r =>
    obtain ⟨extracted, hp⟩ := Turn.plan_of_replied hr
    rw [hp] at h
    cases h
  | error f' =>
    refine ⟨?_, alone_of_fault hr⟩
    unfold Call.Answers
    dsimp only
    rw [hr]
    exact ⟨f, rfl⟩

/-! ### crowds -/

namespace Crowd

/-- The call has the lock of its session. -/
def isInside (c : Crowd) (n : Nat) : Bool :=
  c.points[n]?.any Point.isInside

/-- The call, if it takes the lock of its session by its next step. -/
def taker (c : Crowd) (n : Nat) : List Nat :=
  if !c.isInside n && (c.next (.goesOn n)).isInside n then [n] else []

/-- The calls in the order in which they take the locks of their sessions, when they go on in this
order. -/
def takers (c : Crowd) : List Nat → List Nat
  | [] => []
  | n :: picks => c.taker n ++ (c.next (.goesOn n)).takers picks

/-- The crowd after steps of these calls. -/
def goOn (c : Crowd) (picks : List Nat) : Crowd :=
  c.run (picks.map .goesOn)

/-- Messages and deletions on their way, of which these have taken their locks. -/
structure Linear (e : Setting) (calls : List Call) (start : String → Option Session) (c : Crowd)
    (order : List Nat) : Prop where
  fits : c.Fits
  serving : Serving e c.assistant
  task : ∀ (n : Nat) (t : Task), c.tasks[n]? = some t →
    calls[n]? = some t.call ∧ t.point.isOfTurn c.assistant.current = true
  turns : ∀ call ∈ calls, call.IsTurn
  orderly : Orderly e calls start c.assistant.record? c.points order

variable {e : Setting} {calls : List Call} {start : String → Option Session} {c : Crowd} {order : List Nat}

/-- A call uses a lock under the text that its session is known by. -/
theorem Fits.session_eq (h : c.Fits) {n : Nat} {t : Task} {u : Locks.Use} {id : String}
    (ht : c.tasks[n]? = some t) (hid : t.call.topic? = some id) (hu : t.point.use? = some u) :
    u.session = .text id := by
  obtain ⟨v, hv, hnamed⟩ := h.named n t u ht hu
  unfold Call.topic? at hid
  rw [hv] at hid
  cases v with
  | str s =>
    obtain rfl : s = id := Option.some.inj hid
    exact hnamed.of_text
  | _ => cases hid

/-- Calls about one session are not inside together. -/
theorem Fits.alone_inside (h : c.Fits) {i j : Nat} {s t : Task} {id : String} (hs : c.tasks[i]? = some s)
    (ht : c.tasks[j]? = some t) (hsi : s.point.isInside = true) (hti : t.point.isInside = true)
    (hsid : s.call.topic? = some id) (htid : t.call.topic? = some id) : i = j := by
  obtain ⟨u, hu⟩ := Point.exists_use hsi
  obtain ⟨v, hv⟩ := Point.exists_use hti
  refine h.lockTables.exclusive i j s t u v hs ht hsi hti hu hv ?_
  rw [h.session_eq hs hsid hu, h.session_eq ht htid hv]

/-- A point of the crowd is that of a task, whose call is known. -/
theorem Linear.exists_task (h : Linear e calls start c order) {n : Nat} {p : Point} {d : Call}
    (hp : c.points[n]? = some p) (hd : calls[n]? = some d) :
    ∃ t, c.tasks[n]? = some t ∧ t.point = p ∧ t.call = d := by
  unfold points at hp
  rw [List.getElem?_map] at hp
  obtain ⟨t, hn, rfl⟩ := Option.map_eq_some_iff.mp hp
  have hcall := (h.task n t hn).1
  rw [hd] at hcall
  exact ⟨t, hn, rfl, (Option.some.inj hcall).symm⟩

variable {n : Nat} {t : Task} {a : Assistant} {p : Point} {order' : List Nat}

/-- A step takes everything else along. -/
theorem Linear.changes {c' : Crowd} (h : Linear e calls start c order) (hch : Changes c n t a p c')
    (hf : c'.Fits) (hserving : Serving e a) (hcurrent : a.current = c.assistant.current)
    (hp : p.isOfTurn c.assistant.current = true)
    (ho : Orderly e calls start a.record? (c.points.set n p) order') :
    Linear e calls start c' order' := by
  constructor
  · exact hf
  · rw [hch.assistant]
    exact ⟨hserving.ready, hserving.store, hserving.known, hch.debugging.trans h.serving.debugging⟩
  · intro i s hs
    have hcur : c'.assistant.current = c.assistant.current := by rw [hch.assistant, hcurrent]
    rw [hcur]
    rcases hch.task_cases hs with ⟨rfl, -, hc, rfl⟩ | ⟨-, hs⟩
    · rw [hc]
      exact ⟨(h.task i t hch.task).1, hp⟩
    · exact h.task i s hs
  · exact h.turns
  · rw [hch.point, hch.assistant]
    exact ho

theorem Changes.taker (hch : Changes c n t a p (c.next (.goesOn n))) :
    c.taker n = if !t.point.isInside && p.isInside then [n] else [] := by
  have hp : (c.next (.goesOn n)).points[n]? = some p := by
    rw [hch.point, List.getElem?_set_self', hch.old_point]
    rfl
  unfold Crowd.taker isInside
  rw [hp, hch.old_point]
  rfl

/-- The call takes the lock of its session. -/
theorem Linear.takes (h : Linear e calls start c order) {locks : Locks}
    (hch : Changes c n t { c.assistant with locks := locks } p (c.next (.goesOn n)))
    (hi : t.point.isInside = false) (hf : t.point.isFinished = false)
    (hp : ∃ use, p = t.call.entrance use c.assistant.current) :
    Linear e calls start (c.next (.goesOn n)) (order ++ c.taker n) := by
  have hfits := h.fits.next (.goesOn n)
  obtain ⟨use, rfl⟩ := hp
  have hpi := entrance_isInside t.call use c.assistant.current
  have hcall := (h.task n t hch.task).1
  have hofTurn : (t.call.entrance use c.assistant.current).isOfTurn c.assistant.current = true := by
    cases t.call <;> exact beq_self_eq_true _
  have hsaving : ∀ u k turn, t.call.entrance use c.assistant.current ≠ .saving u k turn := by
    intro u k turn
    cases t.call <;> exact nofun
  obtain ⟨id, hid⟩ : ∃ id, t.call.topic? = some id := by
    obtain ⟨s, -, he | ⟨text, given, he⟩⟩ := h.turns t.call (List.mem_of_getElem? hcall)
    · exact ⟨s, by rw [he]; rfl⟩
    · exact ⟨s, by rw [he]; rfl⟩
  rw [hch.taker, hi, hpi]
  refine h.changes hch hfits ⟨h.serving.ready, h.serving.store, h.serving.known, h.serving.debugging⟩ rfl
    hofTurn ?_
  refine h.orderly.enters hch.old_point hi hf hpi hsaving hcall hid fun m q d hq hqi hd hdid => ?_
  -- else two calls about this session would be inside after the step
  obtain ⟨s, hs, rfl, rfl⟩ := h.exists_task hq hd
  have hne : m ≠ n := by
    rintro rfl
    rw [hch.task] at hs
    obtain rfl := Option.some.inj hs
    rw [hi] at hqi
    cases hqi
  obtain ⟨current, owner, htasks⟩ := hch.tasks
  have hs' : (c.next (.goesOn n)).tasks[m]? = some s := by
    rw [htasks, List.getElem?_set_ne (Ne.symm hne)]
    exact hs
  have ht' : (c.next (.goesOn n)).tasks[n]? =
      some { t with point := t.call.entrance use c.assistant.current, current := current, owner := owner } := by
    rw [htasks, List.getElem?_set_self', hch.task]
    rfl
  exact hne (hfits.alone_inside hs' ht' hqi hpi hdid hid)

/-- The call finishes, and the record of its session is as after the call alone. -/
theorem Linear.leaves (h : Linear e calls start c order) {o : Except Fault Answer} {id : String}
    (hch : Changes c n t a (.finished o) (c.next (.goesOn n))) (hi : t.point.isInside = true)
    (hid : t.call.topic? = some id) (hserving : Serving e a) (hcurrent : a.current = c.assistant.current)
    (hhere : a.record? id = t.call.alone e (c.assistant.record? id))
    (helse : ∀ other, other ≠ id → a.record? other = c.assistant.record? other)
    (ho : t.call.Answers e (c.assistant.record? id) o) :
    Linear e calls start (c.next (.goesOn n)) (order ++ c.taker n) := by
  have hcall := (h.task n t hch.task).1
  rw [hch.taker, hi]
  show Linear e calls start _ (order ++ [])
  rw [List.append_nil]
  refine h.changes hch (h.fits.next _) hserving hcurrent rfl ?_
  refine h.orderly.leaves hch.old_point hi hcall hid (fun m q d hne hq hqi hd hdid => ?_) hhere helse ho
  obtain ⟨s, hs, rfl, rfl⟩ := h.exists_task hq hd
  exact hne (h.fits.alone_inside hs hch.task hqi hi hdid hid)

/-- A message finds the record of its session, or is the first in a session of this identifier. Nothing changes
by that. -/
theorem Linear.loads (h : Linear e calls start c order) (hn : c.tasks[n]? = some t) {use : Locks.Use} {k : Nat}
    {id text given : Value} (hp : t.point = .loading use k) (hc : t.call = .message id text given)
    {found : Except Fault (Option Session)} {session : Except Fault Session} {a₁ a₂ : Assistant}
    (hu : c.assistant.used k (fun down => Store.get down id) = (found, a₁))
    (hf : a₁.sessionFor id found = (session, a₂)) :
    ∃ s, id = .str s ∧ session = .ok (sessionOf (.str s) (c.assistant.record? s)) ∧ a₂ = a₁ ∧ Serving e a₁ ∧
      a₁.record? = c.assistant.record? ∧ a₁.current = c.assistant.current := by
  obtain ⟨hcall, hpt⟩ := h.task n t hn
  obtain ⟨s, hs, rfl⟩ := (h.turns t.call (List.mem_of_getElem? hcall)).sends hc
  rw [hp] at hpt
  obtain rfl : k = c.assistant.current := beq_iff_eq.mp hpt
  obtain ⟨ho, hserving, hr⟩ := h.serving.get s
  have hcur := used_current c.assistant c.assistant.current fun down => Store.get down (.str s)
  rw [hu] at ho hserving hr hcur
  obtain rfl : found = _ := ho
  rw [sessionFor_text a₁ hs] at hf
  obtain ⟨rfl, rfl⟩ := Prod.mk.inj hf
  exact ⟨s, rfl, rfl, rfl, hserving, hr, hcur⟩

/-- The call goes on outside the lock of its session. -/
theorem Linear.stays (h : Linear e calls start c order) {locks : Locks}
    (hch : Changes c n t { c.assistant with locks := locks } p (c.next (.goesOn n)))
    (hi : t.point.isInside = false) (hf : t.point.isFinished = false) (hpi : p.isInside = false)
    (hpf : p.isFinished = false) (hp : p.isOfTurn c.assistant.current = true) :
    Linear e calls start (c.next (.goesOn n)) (order ++ c.taker n) := by
  rw [hch.taker, hi, hpi]
  show Linear e calls start _ (order ++ [])
  rw [List.append_nil]
  exact h.changes hch (h.fits.next _)
    ⟨h.serving.ready, h.serving.store, h.serving.known, h.serving.debugging⟩ rfl hp
    (h.orderly.stays hch.old_point hi hf hpi hpf)

/-- The call does not go on. -/
theorem Linear.rests (h : Linear e calls start c order)
    (hch : Changes c n t c.assistant t.point (c.next (.goesOn n))) :
    Linear e calls start (c.next (.goesOn n)) (order ++ c.taker n) := by
  have hsame : c.points.set n t.point = c.points := by
    refine List.ext_getElem? fun i => ?_
    by_cases hi : n = i
    · subst hi
      rw [List.getElem?_set_self', hch.old_point]
      rfl
    · exact List.getElem?_set_ne hi
  rw [hch.taker, Bool.not_and_self]
  show Linear e calls start _ (order ++ [])
  rw [List.append_nil]
  refine h.changes hch (h.fits.next _) h.serving rfl (h.task n t hch.task).2 ?_
  rw [hsame]
  exact h.orderly

/-- The call comes to its session, and takes the lock or waits for it. -/
theorem Linear.proceeds (h : Linear e calls start c order) (hch : Changes c n t a p (c.next (.goesOn n)))
    (ht : t.point = .arrived) (hp : Proceeds c.assistant t a p) :
    Linear e calls start (c.next (.goesOn n)) (order ++ c.taker n) := by
  obtain ⟨s, -, hturn⟩ := h.turns t.call (List.mem_of_getElem? (h.task n t hch.task).1)
  cases hp with
  | takes => exact h.takes hch (by rw [ht]; rfl) (by rw [ht]; rfl) ⟨_, rfl⟩
  | queues => exact h.stays hch (by rw [ht]; rfl) (by rw [ht]; rfl) rfl rfl rfl
  | refused hs hk =>
    rcases hturn with he | ⟨text, given, he⟩
    · rw [he] at hs
      obtain rfl := Option.some.inj hs
      cases hk
    · rw [he] at hs
      obtain rfl := Option.some.inj hs
      cases hk
  | prepared hc | creates hc | reads hc | counts hc | unavailable hc =>
    rcases hturn with he | ⟨text, given, he⟩
    · rw [hc] at he
      cases he
    · rw [hc] at he
      cases he

/-- The session is deleted. -/
theorem Linear.deletes (h : Linear e calls start c order) {use : Locks.Use} {k : Nat} {id : Value}
    (ht : t.point = .deleting use k) (hc : t.call = .delete id)
    (hch : Changes c n t ((c.assistant.used k fun down => Store.delete down id).2.left use)
      (.finished ((c.assistant.used k fun down => Store.delete down id).1.map .deleted)) (c.next (.goesOn n))) :
    Linear e calls start (c.next (.goesOn n)) (order ++ c.taker n) := by
  obtain ⟨hcall, hpt⟩ := h.task n t hch.task
  obtain ⟨s, rfl⟩ := (h.turns t.call (List.mem_of_getElem? hcall)).deletes hc
  rw [ht] at hpt
  obtain rfl : k = c.assistant.current := beq_iff_eq.mp hpt
  obtain ⟨ho, hserving, hhere, helse⟩ := h.serving.delete s
  rw [ho] at hch
  refine h.leaves hch (by rw [ht]; rfl) (by rw [hc]; rfl) hserving.left ?_ ?_ helse ?_
  · exact used_current ..
  · rw [hc]
    exact hhere
  · rw [hc]
    rfl

/-- A turn is planned, which is the one that the call alone would save. -/
theorem Linear.plans (h : Linear e calls start c order) {use : Locks.Use} {k : Nat} {id text given : Value}
    {found : Except Fault (Option Session)} {a₁ a₂ : Assistant} {session : Session} {turn : Turn}
    (ht : t.point = .loading use k) (hc : t.call = .message id text given)
    (hu : c.assistant.used k (fun down => Store.get down id) = (found, a₁))
    (hf : a₁.sessionFor id found = (.ok session, a₂))
    (hp : (Turn.plan c.assistant.known session text given).outcomeWhen c.assistant.journal.debugging = .ok turn)
    (hch : Changes c n t a₂ (.saving use c.assistant.current turn) (c.next (.goesOn n))) :
    Linear e calls start (c.next (.goesOn n)) (order ++ c.taker n) := by
  obtain ⟨s, rfl, hsession, rfl, hserving, hr, hcur⟩ := h.loads hch.task ht hc hu hf
  obtain rfl := Except.ok.inj hsession
  rw [h.serving.known, h.serving.debugging] at hp
  rw [hch.taker, ht]
  show Linear e calls start _ (order ++ [])
  rw [List.append_nil]
  refine h.changes hch (h.fits.next _) hserving hcur (beq_self_eq_true _) ?_
  rw [hr]
  refine h.orderly.works hch.old_point (by rw [ht]; rfl) rfl (h.task n t hch.task).1 ?_
  rintro u k turn' id ⟨⟩ hid
  rw [hc] at hid ⊢
  obtain rfl : s = id := Option.some.inj hid
  exact plans_of_plan hp

/-- Nothing can be planned for the message. -/
theorem Linear.fails (h : Linear e calls start c order) {use : Locks.Use} {k : Nat} {id text given : Value}
    {found : Except Fault (Option Session)} {a₁ a₂ : Assistant} {session : Except Fault Session} {f : Fault}
    (ht : t.point = .loading use k) (hc : t.call = .message id text given)
    (hu : c.assistant.used k (fun down => Store.get down id) = (found, a₁))
    (hf : a₁.sessionFor id found = (session, a₂))
    (hp : (session >>= fun s =>
      (Turn.plan c.assistant.known s text given).outcomeWhen c.assistant.journal.debugging) = .error f)
    (hch : Changes c n t (a₂.left use) (.finished (.error f)) (c.next (.goesOn n))) :
    Linear e calls start (c.next (.goesOn n)) (order ++ c.taker n) := by
  obtain ⟨s, rfl, rfl, rfl, hserving, hr, hcur⟩ := h.loads hch.task ht hc hu hf
  rw [h.serving.known, h.serving.debugging] at hp
  obtain ⟨hanswers, halone⟩ := answers_of_plan_fault hp
  refine h.leaves hch (by rw [ht]; rfl) (by rw [hc]; rfl) hserving.left hcur ?_ ?_ ?_
  · rw [hc, halone]
    exact congrFun hr s
  · exact fun other _ => congrFun hr other
  · rw [hc]
    exact hanswers

/-- The turn that was planned is saved, unless it cannot be written. -/
theorem Linear.saves (h : Linear e calls start c order) {use : Locks.Use} {k : Nat} {turn : Turn}
    {id text given : Value} (ht : t.point = .saving use k turn) (hc : t.call = .message id text given)
    (hch : Changes c n t ((c.assistant.used k fun down => Store.put down id turn.session).2.left use)
      (.finished ((c.assistant.used k fun down => Store.put down id turn.session).1.map fun _ => .replied turn))
      (c.next (.goesOn n))) :
    Linear e calls start (c.next (.goesOn n)) (order ++ c.taker n) := by
  obtain ⟨hcall, hpt⟩ := h.task n t hch.task
  obtain ⟨s, hs, rfl⟩ := (h.turns t.call (List.mem_of_getElem? hcall)).sends hc
  rw [ht] at hpt
  obtain rfl : k = c.assistant.current := beq_iff_eq.mp hpt
  have hplans := h.orderly.saving n use c.assistant.current turn t.call s (ht ▸ hch.old_point) hcall
    (by rw [hc]; rfl)
  by_cases hw : turn.session.toValue.isWritable = true
  · obtain ⟨ho, hserving, hhere, helse⟩ := h.serving.put s hw
    obtain ⟨hanswers, halone⟩ := hplans.written hw
    rw [ho] at hch
    refine h.leaves hch (by rw [ht]; rfl) (by rw [hc]; rfl) hserving.left ?_ ?_ helse hanswers
    · exact used_current ..
    · exact hhere.trans halone.symm
  · obtain ⟨ho, hserving, hrecord⟩ := h.serving.put_unwritable s hw
    obtain ⟨hanswers, halone⟩ := hplans.unwritten hw
    rw [ho] at hch
    refine h.leaves hch (by rw [ht]; rfl) (by rw [hc]; rfl) hserving.left ?_ ?_ ?_ hanswers
    · exact used_current ..
    · exact (congrFun hrecord s).trans halone.symm
    · exact fun other _ => congrFun hrecord other

/-- **A step of a call keeps the records in order.** -/
theorem Linear.step (h : Linear e calls start c order) (n : Nat) :
    Linear e calls start (c.next (.goesOn n)) (order ++ c.taker n) := by
  rcases next_cases c (.goesOn n) with he | ⟨m, t, a, p, hn, hm, ha, hch⟩ | ⟨m, t, a, p, hn, -⟩ |
    ⟨down, hn, -⟩
  · -- nothing happens
    have htaker : c.taker n = [] := by
      unfold taker
      rw [he, Bool.not_and_self]
      rfl
    rw [he, htaker, List.append_nil]
    exact h
  · obtain rfl := Move.goesOn.inj hn
    have hpt := (h.task n t hch.task).2
    cases ha with
    | proceeds ht _ hp => exact h.proceeds hch ht hp
    | makes _ hr | connects _ hr =>
      rw [h.serving.ready] at hr
      cases hr
    | connected ht | unconnected ht | created ht | found ht | counted ht =>
      rw [ht] at hpt
      cases hpt
    | @begins use ht =>
      have hsame : Changes c n t { c.assistant with locks := c.assistant.locks }
        (t.call.entrance use c.assistant.current) (c.next (.goesOn n)) := hch
      exact h.takes hsame (by rw [ht]; rfl) (by rw [ht]; rfl) ⟨_, rfl⟩
    | deleted ht hc => exact h.deletes ht hc hch
    | plans ht hc hu hf hp => exact h.plans ht hc hu hf hp hch
    | fails ht hc hu hf hp => exact h.fails ht hc hu hf hp hch
    | saves ht hc => exact h.saves ht hc hch
    | rests => exact h.rests hch
  · cases hn
  · cases hn

/-- Whatever the order of the steps, the records are in order of the locks taken. -/
theorem Linear.goOn (h : Linear e calls start c order) (picks : List Nat) :
    Linear e calls start (c.goOn picks) (order ++ c.takers picks) := by
  induction picks generalizing c order with
  | nil =>
    show Linear e calls start c (order ++ [])
    rw [List.append_nil]
    exact h
  | cons n picks ih =>
    have := ih (h.step n)
    rw [List.append_assoc] at this
    exact this

/-- Nobody has begun. -/
theorem linear_ofCalls {a : Assistant} {s : Store Session} (hs : a.store? = some s)
    (hserves : s.serves a.down = true) (ht : a.locks.table = []) (hu : a.locks.users = [])
    (hcalls : ∀ call ∈ calls, call.IsTurn) :
    Linear ⟨a.journal.debugging, a.known⟩ calls s.find? (ofCalls a calls) [] := by
  have hready : a.isReady = true := by
    cases hr : a.isReady with
    | true => rfl
    | false =>
      unfold store? at hs
      rw [hr] at hs
      cases hs
  have hstore : a.stores[a.current]? = some s := by
    unfold store? at hs
    rwa [hready, if_pos rfl] at hs
  have hserving : Serving ⟨a.journal.debugging, a.known⟩ a := ⟨hready, ⟨s, hstore, hserves⟩, rfl, rfl⟩
  refine ⟨fits_ofCalls ht hu calls, hserving, fun n t hn => ?_, hcalls, ?_⟩
  · have hpoint := point_ofCalls (List.mem_map_of_mem (List.mem_of_getElem? hn))
    rw [hpoint]
    refine ⟨?_, rfl⟩
    unfold ofCalls at hn
    rw [List.getElem?_map] at hn
    obtain ⟨⟨call, i⟩, hz, rfl⟩ := Option.map_eq_some_iff.mp hn
    rw [List.getElem?_zipIdx] at hz
    obtain ⟨call', hcall, he⟩ := Option.map_eq_some_iff.mp hz
    rw [hcall, show call' = call from congrArg Prod.fst he]
    rfl
  · have : (ofCalls a calls).assistant.record? = s.find? := funext fun id => hserving.record? hstore id
    rw [this]
    exact Orderly.initial fun p hp => point_ofCalls hp

/-- The calls have taken effect one after the other, each once, in this order. -/
structure TakenInOrder (e : Setting) (calls : List Call) (start : String → Option Session) (c : Crowd)
    (order : List Nat) : Prop where
  once : order.Nodup
  all : ∀ n, n ∈ order ↔ n < calls.length
  /-- Every record is the one after the calls about its session. -/
  records : ∀ id, c.assistant.record? id = sequel e calls id (start id) order
  /-- Every call has the outcome that it has after the calls before it. -/
  outcomes : ∀ (n : Nat) (t : Task) (id : String) (outcome : Except Fault Answer),
    c.tasks[n]? = some t → t.call.topic? = some id → t.outcome? = some outcome →
    ∃ before after, order = before ++ n :: after ∧
      t.call.Answers e (sequel e calls id (start id) before) outcome
  /-- A message is a turn of its session, which goes on from the record after the calls before it. -/
  turned : ∀ (n : Nat) (id : String) (text given : Value), calls[n]? = some (.message (.str id) text given) →
    ∃ before after, order = before ++ n :: after ∧
      Turned e (.str id) text given (sequel e calls id (start id) before)
        (sequel e calls id (start id) (before ++ [n]))
  /-- After a deletion there is no record. -/
  deleted : ∀ (n : Nat) (id : String), calls[n]? = some (.delete (.str id)) →
    ∃ before after, order = before ++ n :: after ∧ sequel e calls id (start id) (before ++ [n]) = none

theorem length_next (c : Crowd) (m : Move) : (c.next m).tasks.length = c.tasks.length := by
  rcases next_cases c m with he | ⟨n, t, a, p, -, -, -, hch⟩ | ⟨n, t, a, p, -, -, hch⟩ | ⟨down, -, he⟩
  · rw [he]
  · obtain ⟨current, owner, ht⟩ := hch.tasks
    rw [ht, List.length_set]
  · obtain ⟨current, owner, ht⟩ := hch.tasks
    rw [ht, List.length_set]
  · rw [he]

theorem length_run (c : Crowd) (moves : List Move) : (c.run moves).tasks.length = c.tasks.length := by
  induction moves generalizing c with
  | nil => rfl
  | cons m moves ih => exact (ih (c.next m)).trans (length_next c m)

/-- Every call keeps its place in the crowd. -/
theorem length_points_goOn (a : Assistant) (calls : List Call) (picks : List Nat) :
    ((ofCalls a calls).goOn picks).points.length = calls.length := by
  refine (List.length_map ..).trans ((length_run _ _).trans ?_)
  unfold ofCalls
  rw [List.length_map, List.length_zipIdx]

theorem point_of_outcome? {t : Task} {outcome : Except Fault Answer} (h : t.outcome? = some outcome) :
    t.point = .finished outcome := by
  unfold Task.outcome? at h
  split at h
  · rename_i o hpt
    rw [hpt, Option.some.inj h]
  · cases h

/-- **Messages and deletions take effect one after the other**, in the order in which they take the locks
of their sessions, in whatever order of their steps they come to their ends. -/
theorem turns_linearizable {a : Assistant} {s : Store Session} {calls : List Call}
    (hs : a.store? = some s) (hserves : s.serves a.down = true) (ht : a.locks.table = [])
    (hu : a.locks.users = []) (hcalls : ∀ call ∈ calls, call.IsTurn) (picks : List Nat)
    (hend : ∀ t ∈ ((ofCalls a calls).goOn picks).tasks, t.outcome?.isSome = true) :
    TakenInOrder ⟨a.journal.debugging, a.known⟩ calls s.find? ((ofCalls a calls).goOn picks)
      ((ofCalls a calls).takers picks) := by
  have h := (linear_ofCalls hs hserves ht hu hcalls).goOn picks
  rw [List.nil_append] at h
  have hpoints := length_points_goOn a calls picks
  have hfinished : ∀ (n : Nat) (p : Point), ((ofCalls a calls).goOn picks).points[n]? = some p →
      p.isFinished = true ∧ p.isInside = false := by
    intro n p hp
    obtain ⟨t, ht, rfl⟩ := List.mem_map.mp (List.mem_of_getElem? hp)
    obtain ⟨outcome, ho⟩ := Option.isSome_iff_exists.mp (hend t ht)
    rw [point_of_outcome? ho]
    exact ⟨rfl, rfl⟩
  have hall : ∀ n, n ∈ (ofCalls a calls).takers picks ↔ n < calls.length := by
    intro n
    constructor
    · intro hn
      exact Nat.lt_of_lt_of_eq (h.orderly.known n hn) hpoints
    · intro hn
      obtain ⟨p, hp⟩ : ∃ p, ((ofCalls a calls).goOn picks).points[n]? = some p :=
        ⟨_, List.getElem?_eq_getElem (Nat.lt_of_lt_of_eq hn hpoints.symm)⟩
      exact (h.orderly.placed n p hp).mpr (.inr (hfinished n p hp).1)
  have hplace : ∀ {n : Nat} {call : Call}, calls[n]? = some call →
      ∃ before after, (ofCalls a calls).takers picks = before ++ n :: after := fun hn =>
    List.append_of_mem ((hall _).mpr (List.getElem?_eq_some_iff.mp hn).1)
  constructor
  · exact h.orderly.nodup
  · exact hall
  · intro id
    refine h.orderly.outside id fun n p c hp hi => ?_
    rw [(hfinished n p hp).2] at hi
    cases hi
  · intro n t id outcome hn hid ho
    refine h.orderly.answered n outcome t.call id ?_ (h.task n t hn).1 hid
    unfold points
    rw [List.getElem?_map, hn, ← point_of_outcome? ho]
    rfl
  · intro n id text given hcall
    obtain ⟨before, after, horder⟩ := hplace hcall
    refine ⟨before, after, horder, ?_⟩
    rw [sequel_concat_own hcall rfl]
    exact turned_alone ..
  · intro n id hcall
    obtain ⟨before, after, horder⟩ := hplace hcall
    exact ⟨before, after, horder, sequel_concat_own hcall rfl before⟩

/-- A reset, a deletion that comes in between, and another reset of one session. -/
theorem turns_linearizable_of_three :
    (∀ t ∈ ((ofCalls (.withStore (.initial false) [] (.memory []))
      [.message (.str "a") (.str "reset all") .null, .delete (.str "a"),
        .message (.str "a") (.str " clear filters ") (.object [])]).goOn [0, 1, 2, 0, 0, 1, 1, 2, 2, 2]).tasks,
      t.outcome?.isSome = true) ∧
    TakenInOrder ⟨false, []⟩ [.message (.str "a") (.str "reset all") .null, .delete (.str "a"),
        .message (.str "a") (.str " clear filters ") (.object [])] (Store.find? (.memory []))
      ((ofCalls (.withStore (.initial false) [] (.memory []))
        [.message (.str "a") (.str "reset all") .null, .delete (.str "a"),
          .message (.str "a") (.str " clear filters ") (.object [])]).goOn [0, 1, 2, 0, 0, 1, 1, 2, 2, 2])
      ((ofCalls (.withStore (.initial false) [] (.memory []))
        [.message (.str "a") (.str "reset all") .null, .delete (.str "a"),
          .message (.str "a") (.str " clear filters ") (.object [])]).takers
            [0, 1, 2, 0, 0, 1, 1, 2, 2, 2]) := by
  have hend : ∀ t ∈ ((ofCalls (.withStore (.initial false) [] (.memory []))
      [.message (.str "a") (.str "reset all") .null, .delete (.str "a"),
        .message (.str "a") (.str " clear filters ") (.object [])]).goOn [0, 1, 2, 0, 0, 1, 1, 2, 2, 2]).tasks,
      t.outcome?.isSome = true := by
    decide +kernel
  refine ⟨hend, turns_linearizable rfl rfl rfl rfl ?_ _ hend⟩
  intro call hcall
  have hne : "a" ≠ "" := by decide
  simp only [List.mem_cons, List.not_mem_nil, or_false] at hcall
  rcases hcall with rfl | rfl | rfl
  · exact ⟨"a", hne, .inr ⟨_, _, rfl⟩⟩
  · exact ⟨"a", hne, .inl rfl⟩
  · exact ⟨"a", hne, .inr ⟨_, _, rfl⟩⟩

end Crowd

end Outfitter.Assistant
