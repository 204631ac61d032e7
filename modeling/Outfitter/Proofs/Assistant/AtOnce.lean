import Outfitter.Proofs.Assistant.Alone
import Outfitter.Proofs.Assistant.Linear

/-!
Calls that are made one after the other.

If no call has a lock, a call that goes on from where it finds a store in use goes on to its end
(`finishes_of_proceeds`), and `Done` says what it comes to and what becomes of the records. A call on an
assistant at rest leaves it at rest (`call_done`).
-/

namespace Outfitter.Assistant

open Journal

/-! ### what a call does -/

/-- The identifiers in the call, if there are any, are texts. -/
def Call.IsNamed : Call → Prop
  | .read id | .delete id | .message id _ _ => ∃ s, id = .str s
  | _ => True

/-- What a call comes to when nothing else goes on, and the records after it; so many identifiers were
generated before. -/
inductive Done (e : Setting) (generated : Nat) (records : String → Option Session) :
    Call → Except Fault Answer → (String → Option Session) → Prop where
  | created {records' : String → Option Session}
    (here : records' (Session.generatedId generated) =
      some (Session.empty (.str (Session.generatedId generated))))
    (elsewhere : ∀ id, id ≠ Session.generatedId generated → records' id = records id) :
    Done e generated records .create
      (.ok (.created (Session.empty (.str (Session.generatedId generated))))) records'
  | read {id : String} : Done e generated records (.read (.str id)) (.ok (.read (records id))) records
  | prepared : Done e generated records .prepare (.ok .prepared) records
  | health {h : Health} : Done e generated records .health (.ok (.health h)) records
  | deleted {id : String} {records' : String → Option Session} (here : records' id = none)
    (elsewhere : ∀ other, other ≠ id → records' other = records other) :
    Done e generated records (.delete (.str id)) (.ok (.deleted (records id).isSome)) records'
  | replied {id : String} {text given : Value} {turn : Turn} {r : Dialogue.Reply}
    {records' : String → Option Session}
    (reply : e.reply (.str id) text given (records id) = .ok r)
    (written : (sessionAfter (.str id) text r (records id)).toValue.isWritable = true) (same : turn.reply = r)
    (messages : turn.session.messages = (sessionAfter (.str id) text r (records id)).messages)
    (filters : turn.session.filters = r.filters.kept)
    (extracted : ∃ x, (Turn.extract e.known text).outcomeWhen e.debugging = .ok x ∧
      turn.extracted = (x.map (·.filters)).getD [])
    (here : records' id = some turn.session)
    (elsewhere : ∀ other, other ≠ id → records' other = records other) :
    Done e generated records (.message (.str id) text given) (.ok (.replied turn)) records'
  | unwritten {id : String} {text given : Value} {r : Dialogue.Reply}
    (reply : e.reply (.str id) text given (records id) = .ok r)
    (unwritten : ¬ (sessionAfter (.str id) text r (records id)).toValue.isWritable = true) :
    Done e generated records (.message (.str id) text given) (.error .tooLongToWrite) records
  | failed {id : String} {text given : Value} {f f' : Fault}
    (reply : e.reply (.str id) text given (records id) = .error f) :
    Done e generated records (.message (.str id) text given) (.error f') records

/-! ### assistants at rest -/

/-- Every record can be written, as it was when it was put. -/
def Written (records : String → Option Session) : Prop :=
  ∀ id s, records id = some s → s.toValue.isWritable = true

/-- No call has a lock or waits for one, and the store in use serves what has been put there. -/
structure AtRest (e : Setting) (a : Assistant) : Prop where
  serving : Serving e a
  table : a.locks.table = []
  users : a.locks.users = []
  written : Written a.record?

/-- One call has a lock, and no other one has or waits for any. -/
structure InUse (e : Setting) (a : Assistant) (use : Locks.Use) : Prop where
  serving : Serving e a
  table : a.locks.table = [(use.session, use.lock)]
  users : a.locks.users = [(use.session, 1)]
  written : Written a.record?

/-- All records but one are as they were, and that one can be written if there is one. -/
theorem Written.changed {records records' : String → Option Session} (h : Written records) {id : String}
    (hhere : ∀ s, records' id = some s → s.toValue.isWritable = true)
    (helse : ∀ other, other ≠ id → records' other = records other) : Written records' := by
  intro other s hs
  by_cases ho : other = id
  · exact hhere s (ho ▸ hs)
  · exact h other s ((helse other ho).symm.trans hs)

/-- The assistant goes on with the store in use, whatever has become of its records. -/
structure Keeps (a a' : Assistant) : Prop where
  setup : a'.setup = a.setup
  down : a'.down = a.down
  current : a'.current = a.current
  generated : a.generated ≤ a'.generated
  storePace : a'.storePace = a.storePace

/-- The call finishes with this outcome, and the assistant serves on. -/
structure Ends (e : Setting) (w w' : Work) (outcome : Except Fault Answer) : Prop
    extends Keeps w.assistant w'.assistant where
  point : w'.task.point = .finished outcome
  call : w'.task.call = w.task.call
  rest : AtRest e w'.assistant

theorem Keeps.refl (a : Assistant) : Keeps a a :=
  ⟨rfl, rfl, rfl, Nat.le_refl _, rfl⟩

theorem Keeps.trans {a a' a'' : Assistant} (h : Keeps a a') (h' : Keeps a' a'') : Keeps a a'' :=
  ⟨h'.setup.trans h.setup, h'.down.trans h.down, h'.current.trans h.current,
    Nat.le_trans h.generated h'.generated, h'.storePace.trans h.storePace⟩

/-- An operation of the store in use goes on with it. -/
theorem keeps_used (a : Assistant) {α : Type} {operation : Bool → Store Session → Store.Effect Session α}
    (ho : ∀ s, (operation a.down s).store.waits = s.waits) : Keeps a (a.used a.current operation).2 := by
  unfold used
  cases hs : a.stores[a.current]? with
  | none => exact .refl a
  | some s =>
    refine ⟨rfl, rfl, rfl, Nat.le_refl _, ?_⟩
    unfold storePace
    show (if (Option.map Store.waits (a.stores.set a.current (operation a.down s).store)[a.current]?).getD
      false then Pace.yields else .goesOn) = _
    rw [List.getElem?_set_self', hs]
    show (if (operation a.down s).store.waits then Pace.yields else .goesOn) = if s.waits then _ else _
    rw [ho]

theorem AtRest.marked {e : Setting} {a : Assistant} (h : AtRest e a) {j : Context}
    (hj : j.debugging = e.debugging) : AtRest e { a with journal := j } :=
  ⟨⟨h.serving.ready, h.serving.store, h.serving.known, hj⟩, h.table, h.users, h.written⟩

theorem InUse.marked {e : Setting} {a : Assistant} {use : Locks.Use} (h : InUse e a use) {j : Context}
    (hj : j.debugging = e.debugging) : InUse e { a with journal := j } use :=
  ⟨⟨h.serving.ready, h.serving.store, h.serving.known, hj⟩, h.table, h.users, h.written⟩

/-- The only user of a lock takes it off the table. -/
theorem InUse.left {e : Setting} {a : Assistant} {use : Locks.Use} (h : InUse e a use) :
    AtRest e (a.left use) := by
  have htables : ∀ made : List Lock, ({ a.locks with made := made }.dropUser use.session).table = [] ∧
      ({ a.locks with made := made }.dropUser use.session).users = [] := by
    intro made
    have husers : { a.locks with made := made }.usersOf use.session = 1 := by
      unfold Locks.usersOf
      show (a.locks.users.lookup use.session).getD 0 = 1
      rw [h.users, List.lookup_cons_self]
      rfl
    unfold Locks.dropUser
    rw [husers, if_pos (Nat.le_refl 1)]
    show Keyed.without a.locks.table use.session = [] ∧ Keyed.without a.locks.users use.session = []
    rw [h.table, h.users]
    unfold Keyed.without
    simp
  exact ⟨h.serving.left, (htables _).1, (htables _).2, h.written⟩

/-- The first to enter takes a new lock. -/
theorem AtRest.enter {e : Setting} {a : Assistant} (h : AtRest e a) (k : Key) (call : Nat) :
    (a.locks.enter k call).2.holds (a.locks.enter k call).1.lock call = true ∧
      InUse e { a with locks := (a.locks.enter k call).2 } (a.locks.enter k call).1 := by
  have he := Locks.entered a.locks k call (by rw [h.table]; intro k n hn; cases hn)
  have hnone : a.locks.table.lookup (a.locks.enter k call).1.session = none := by
    rw [h.table]
    rfl
  have hfree : a.locks.lock (a.locks.enter k call).1.lock = Lock.free := by
    rcases he.before with hb | ⟨-, hb⟩
    · rw [hnone] at hb
      cases hb
    · unfold Locks.lock
      rw [hb, List.getElem?_eq_none (Nat.le_refl _)]
      rfl
  refine ⟨?_, ⟨h.serving.ready, h.serving.store, h.serving.known, h.serving.debugging⟩, ?_, ?_, h.written⟩
  · unfold Locks.holds
    rw [he.lock, hfree]
    exact beq_self_eq_true (some call)
  · show (a.locks.enter k call).2.table = _
    unfold Locks.enter Locks.lockOf
    rw [h.table]
    rfl
  · show (a.locks.enter k call).2.users = _
    have husers : (a.locks.lockOf k).2.users = [] := by
      unfold Locks.lockOf
      rw [h.table]
      exact h.users
    unfold Locks.enter
    rw [h.table]
    show Keyed.put (a.locks.lockOf k).2.users k ((a.locks.lockOf k).2.usersOf k + 1) = [(k, 1)]
    unfold Locks.usersOf
    rw [husers]
    rfl

/-! ### from point to point -/

variable {e : Setting} {w : Work} {use : Locks.Use} {id : String}

/-- A step that ends the call, when nobody has a lock after it. -/
theorem ends_of_next {a : Assistant} {outcome : Except Fault Answer} {m : Marks} (hm : m.Fits w)
    (hd : w.assistant.journal.debugging = e.debugging) (hn : w.next = w.moved a (.finished outcome) m)
    (ha : AtRest e a) (hk : Keeps w.assistant a) :
    Ends e w w.next outcome ∧ w.next.assistant.record? = a.record? := by
  rw [hn]
  exact ⟨⟨⟨hk.setup, hk.down, hk.current, hk.generated, hk.storePace⟩, rfl, rfl,
    ha.marked (hm.debugging.trans hd)⟩, rfl⟩

/-- A step that uses the store and ends the call. -/
theorem AtRest.ends_of_used (h : AtRest e w.assistant) {α : Type}
    {operation : Bool → Store Session → Store.Effect Session α} {outcome : Except Fault Answer} {m : Marks}
    (hm : m.Fits w)
    (hn : w.next = w.moved (w.assistant.used w.assistant.current operation).2 (.finished outcome) m)
    (hserving : Serving e (w.assistant.used w.assistant.current operation).2)
    (hwritten : Written (w.assistant.used w.assistant.current operation).2.record?)
    (ho : ∀ s, (operation w.assistant.down s).store.waits = s.waits) : Ends e w w.next outcome ∧
      w.next.assistant.record? = (w.assistant.used w.assistant.current operation).2.record? := by
  have hu := used_eq w.assistant w.assistant.current operation
  refine ends_of_next hm h.serving.debugging hn ⟨hserving, ?_, ?_, hwritten⟩ (keeps_used _ ho)
  · rw [hu]
    exact h.table
  · rw [hu]
    exact h.users

/-- A step that uses the store, lets go of the lock and ends the call. -/
theorem InUse.ends_of_used (h : InUse e w.assistant use) {α : Type}
    {operation : Bool → Store Session → Store.Effect Session α} {outcome : Except Fault Answer} {m : Marks}
    (hm : m.Fits w)
    (hn : w.next = w.moved ((w.assistant.used w.assistant.current operation).2.left use) (.finished outcome) m)
    (hserving : Serving e (w.assistant.used w.assistant.current operation).2)
    (hwritten : Written (w.assistant.used w.assistant.current operation).2.record?)
    (ho : ∀ s, (operation w.assistant.down s).store.waits = s.waits) : Ends e w w.next outcome ∧
      w.next.assistant.record? = (w.assistant.used w.assistant.current operation).2.record? := by
  have hu := used_eq w.assistant w.assistant.current operation
  have hinUse : InUse e (w.assistant.used w.assistant.current operation).2 use := by
    refine ⟨hserving, ?_, ?_, hwritten⟩
    · rw [hu]
      exact h.table
    · rw [hu]
      exact h.users
  have hkeeps := keeps_used w.assistant ho
  exact ends_of_next (a := (w.assistant.used w.assistant.current operation).2.left use) hm
    h.serving.debugging hn hinUse.left
    ⟨hkeeps.setup, hkeeps.down, hkeeps.current, hkeeps.generated, hkeeps.storePace⟩

theorem ends_creating (h : AtRest e w.assistant) {session : Session}
    (hp : w.task.point = .creating w.assistant.current session) (hid : session.id = .str id)
    (hw : session.toValue.isWritable = true) :
    Ends e w w.next (.ok (.created session)) ∧ w.next.assistant.record? id = some session ∧
      ∀ other, other ≠ id → w.next.assistant.record? other = w.assistant.record? other := by
  obtain ⟨a, p, ha, m, hm, hn⟩ := next_advances w
  obtain ⟨rfl, rfl⟩ := ha.of_creating hp
  obtain ⟨ho, hserving, hhere, helse⟩ := h.serving.put id hw
  rw [hid, ho] at hn
  have hwritten := h.written.changed (fun s hs => Option.some.inj (hhere.symm.trans hs) ▸ hw) helse
  obtain ⟨hends, hr⟩ := h.ends_of_used hm hn hserving hwritten fun s => Store.waits_put ..
  rw [hr]
  exact ⟨hends, hhere, helse⟩

theorem ends_reading (h : AtRest e w.assistant) (hp : w.task.point = .reading w.assistant.current)
    (hc : w.task.call = .read (.str id)) : Ends e w w.next (.ok (.read (w.assistant.record? id))) ∧
      w.next.assistant.record? = w.assistant.record? := by
  obtain ⟨a, p, ha, m, hm, hn⟩ := next_advances w
  obtain ⟨rfl, rfl⟩ := ha.of_reading hp hc
  obtain ⟨ho, hserving, hr⟩ := h.serving.get id
  rw [ho] at hn
  obtain ⟨hends, hr'⟩ := h.ends_of_used hm hn hserving (hr ▸ h.written) fun s => Store.waits_get ..
  exact ⟨hends, hr'.trans hr⟩

theorem ends_counting (h : AtRest e w.assistant) (hp : w.task.point = .counting w.assistant.current) :
    ∃ health, Ends e w w.next (.ok (.health health)) ∧
      w.next.assistant.record? = w.assistant.record? := by
  obtain ⟨a, p, ha, m, hm, hn⟩ := next_advances w
  obtain ⟨rfl, rfl⟩ := ha.of_counting hp
  obtain ⟨s, hs, hserves⟩ := h.serving.store
  have hcount := h.serving.used hs Store.count (by rw [Store.count_store]; exact hserves)
  have hrecord : (w.assistant.used w.assistant.current Store.count).2.record? = w.assistant.record? := by
    funext other
    rw [hcount.2.2, h.serving.record? hs, Store.count_store]
  obtain ⟨hends, hr⟩ := h.ends_of_used hm hn hcount.2.1 (hrecord ▸ h.written) fun s => by rw [Store.count_store]
  exact ⟨_, hends, hr.trans hrecord⟩

theorem ends_deleting (h : InUse e w.assistant use)
    (hp : w.task.point = .deleting use w.assistant.current) (hc : w.task.call = .delete (.str id)) :
    Ends e w w.next (.ok (.deleted (w.assistant.record? id).isSome)) ∧
      w.next.assistant.record? id = none ∧
      ∀ other, other ≠ id → w.next.assistant.record? other = w.assistant.record? other := by
  obtain ⟨a, p, ha, m, hm, hn⟩ := next_advances w
  obtain ⟨rfl, rfl⟩ := ha.of_deleting hp hc
  obtain ⟨ho, hserving, hhere, helse⟩ := h.serving.delete id
  rw [ho] at hn
  have hwritten := h.written.changed (fun s hs => nomatch hhere.symm.trans hs) helse
  obtain ⟨hends, hr⟩ := h.ends_of_used hm hn hserving hwritten fun s => Store.waits_delete ..
  rw [hr]
  exact ⟨hends, hhere, helse⟩

theorem ends_saving (h : InUse e w.assistant use) {turn : Turn} {text given : Value}
    (hp : w.task.point = .saving use w.assistant.current turn)
    (hc : w.task.call = .message (.str id) text given) (hw : turn.session.toValue.isWritable = true) :
    Ends e w w.next (.ok (.replied turn)) ∧ w.next.assistant.record? id = some turn.session ∧
      ∀ other, other ≠ id → w.next.assistant.record? other = w.assistant.record? other := by
  obtain ⟨a, p, ha, m, hm, hn⟩ := next_advances w
  obtain ⟨rfl, rfl⟩ := ha.of_saving hp hc
  obtain ⟨ho, hserving, hhere, helse⟩ := h.serving.put id hw
  rw [ho] at hn
  have hwritten := h.written.changed (fun s hs => Option.some.inj (hhere.symm.trans hs) ▸ hw) helse
  obtain ⟨hends, hr⟩ := h.ends_of_used hm hn hserving hwritten fun s => Store.waits_put ..
  rw [hr]
  exact ⟨hends, hhere, helse⟩

/-- A turn that cannot be written is not saved. -/
theorem ends_unwritten (h : InUse e w.assistant use) {turn : Turn} {text given : Value}
    (hp : w.task.point = .saving use w.assistant.current turn)
    (hc : w.task.call = .message (.str id) text given) (hw : ¬ turn.session.toValue.isWritable = true) :
    Ends e w w.next (.error .tooLongToWrite) ∧ w.next.assistant.record? = w.assistant.record? := by
  obtain ⟨a, p, ha, m, hm, hn⟩ := next_advances w
  obtain ⟨rfl, rfl⟩ := ha.of_saving hp hc
  obtain ⟨ho, hserving, hrecord⟩ := h.serving.put_unwritable id hw
  rw [ho] at hn
  obtain ⟨hends, hr⟩ := h.ends_of_used hm hn hserving (hrecord ▸ h.written) fun s => Store.waits_put ..
  exact ⟨hends, hr.trans hrecord⟩

/-- A session can be written if its identifier, what was said and its filters can. -/
theorem isWritable_toValue_iff (s : Session) : s.toValue.isWritable = true ↔
    s.id.isWritable = true ∧ (∀ u ∈ s.messages, u.text.isWritable = true) ∧ Value.haveWritable s.filters = true := by
  have hfields : s.toValue.isWritable = (s.id.isWritable && (true &&
    (Value.areWritable (s.messages.map Utterance.toValue) && (Value.haveWritable s.filters && true)))) := rfl
  have hmessages : Value.areWritable (s.messages.map Utterance.toValue) = true ↔
      ∀ u ∈ s.messages, u.text.isWritable = true := by
    have hsaid : ∀ u : Utterance, u.toValue.isWritable = (true && (u.text.isWritable && (true && true))) :=
      fun _ => rfl
    rw [Value.areWritable_iff, List.forall_mem_map]
    simp only [hsaid, Bool.and_true, Bool.true_and]
  rw [hfields, Bool.and_true, Bool.true_and, Bool.and_eq_true_iff, Bool.and_eq_true_iff, hmessages]

/-- The session can be written after a message if the message and the filters of the reply can. -/
theorem Written.sessionAfter {records : String → Option Session} (h : Written records) (id : String) {text : Value}
    {r : Dialogue.Reply} (htext : text.isWritable = true) (hfilters : Value.haveWritable r.filters.kept = true) :
    (sessionAfter (.str id) text r (records id)).toValue.isWritable = true := by
  have hsession : (sessionOf (.str id) (records id)).toValue.isWritable = true := by
    cases hr : records id with
    | none => rfl
    | some s => exact h id s hr
  obtain ⟨hid, hmessages, -⟩ := (isWritable_toValue_iff _).mp hsession
  refine (isWritable_toValue_iff _).mpr ⟨hid, fun u hu => ?_, hfilters⟩
  rcases List.mem_append.mp hu with hu | hu
  · exact hmessages u hu
  · simp only [List.mem_cons, List.not_mem_nil, or_false] at hu
    rcases hu with rfl | rfl
    · exact htext
    · rfl

/-- The session of a message is as it was found, or nothing was said in it. -/
theorem exists_sessionFor (a : Assistant) (id : String) (record : Option Session) :
    ∃ s a', a.sessionFor (.str id) (.ok record) = (.ok s, a') ∧
      s.messages = (sessionOf (.str id) record).messages ∧ s.filters = (sessionOf (.str id) record).filters ∧
      s.id.isWritable = (sessionOf (.str id) record).id.isWritable ∧
      a' = { a with generated := a'.generated } ∧ a.generated ≤ a'.generated := by
  cases record with
  | some s => exact ⟨s, a, rfl, rfl, rfl, rfl, rfl, Nat.le_refl _⟩
  | none =>
    refine ⟨_, _, rfl, ?_, ?_, ?_, rfl, ?_⟩
    · unfold Session.fresh
      split <;> rfl
    · unfold Session.fresh
      split <;> rfl
    · unfold Session.fresh
      split <;> rfl
    · unfold Session.fresh
      split
      · exact Nat.le_refl _
      · exact Nat.le_succ _

/-- The session of a message has been found, or is new; nothing else has changed. -/
structure Loaded (e : Setting) (a : Assistant) (id : String) (s : Session) (a' : Assistant) : Prop
    extends Keeps a a' where
  serving : Serving e a'
  record : a'.record? = a.record?
  locks : a'.locks = a.locks
  messages : s.messages = (sessionOf (.str id) (a.record? id)).messages
  filters : s.filters = (sessionOf (.str id) (a.record? id)).filters
  named : s.id.isWritable = (sessionOf (.str id) (a.record? id)).id.isWritable

theorem exists_loaded {a : Assistant} (h : Serving e a) (id : String) :
    ∃ a₁ s a', a.used a.current (fun down => Store.get down (.str id)) = (.ok (a.record? id), a₁) ∧
      a₁.sessionFor (.str id) (.ok (a.record? id)) = (.ok s, a') ∧ Loaded e a id s a' := by
  obtain ⟨ho, hserving, hr⟩ := h.get id
  have hkeeps : Keeps a (a.used a.current fun down => Store.get down (.str id)).2 :=
    keeps_used a fun s => Store.waits_get ..
  have hused := used_eq a a.current fun down => Store.get down (.str id)
  obtain ⟨s, a', hs, hmessages, hfilters, hnamed, ha', hg⟩ := exists_sessionFor
    (a.used a.current fun down => Store.get down (.str id)).2 id (a.record? id)
  refine ⟨_, s, a', Prod.ext ho rfl, hs, ?_⟩
  generalize (a.used a.current fun down => Store.get down (.str id)).2 = a₁ at *
  refine ⟨hkeeps.trans ?_, ?_, ?_, ?_, hmessages, hfilters, hnamed⟩
  · rw [ha']
    exact ⟨rfl, rfl, rfl, hg, rfl⟩
  · rw [ha']
    exact ⟨hserving.ready, hserving.store, hserving.known, hserving.debugging⟩
  · rw [ha', ← hr]
    rfl
  · rw [ha', hused]

/-- What the session of a message is called does not show in the reply. -/
theorem Loaded.reply {a a' : Assistant} {s : Session} (h : Loaded e a id s a') (text given : Value) :
    (Dialogue.replied text (Turn.base s given) (.list e.known)).outcomeWhen e.debugging =
      e.reply (.str id) text given (a.record? id) := by
  have hbase : Turn.base s given = Turn.base (sessionOf (.str id) (a.record? id)) given := by
    unfold Turn.base
    rw [h.filters]
  rw [hbase]
  rfl

/-- Nor does it show in whether the session can be written. -/
theorem Loaded.isWritable_iff {a a' : Assistant} {s : Session} (h : Loaded e a id s a') (text : Value)
    (r : Dialogue.Reply) : (s.record text r.message r.filters).toValue.isWritable = true ↔
      (sessionAfter (.str id) text r (a.record? id)).toValue.isWritable = true := by
  rw [isWritable_toValue_iff, isWritable_toValue_iff]
  unfold sessionAfter Session.record
  rw [h.named, h.messages]

theorem Loaded.inUse {a a' : Assistant} {s : Session} (h : Loaded e a id s a') (hu : InUse e a use) :
    InUse e a' use := by
  refine ⟨h.serving, ?_, ?_, ?_⟩
  · rw [h.locks, hu.table]
  · rw [h.locks, hu.users]
  · rw [h.record]
    exact hu.written

theorem Ends.of_keeps {w₁ w' : Work} {outcome : Except Fault Answer} (h : Ends e w₁ w' outcome)
    (hc : w₁.task.call = w.task.call) (hk : Keeps w.assistant w₁.assistant) : Ends e w w' outcome :=
  ⟨hk.trans h.toKeeps, h.point, h.call.trans hc, h.rest⟩

/-- The turn that is planned for a message is saved next, if it can be written. -/
theorem ends_planned {a a' : Assistant} (h : InUse e w.assistant use) {text given : Value} {s : Session}
    {r : Dialogue.Reply} {extracted : Fields} (hloaded : Loaded e a id s a')
    (hr : e.reply (.str id) text given (a.record? id) = .ok r)
    (hplan : (Turn.plan e.known s text given).outcomeWhen e.debugging =
      .ok ⟨s.record text r.message r.filters, r, extracted⟩)
    (hp : w.task.point = .saving use w.assistant.current ⟨s.record text r.message r.filters, r, extracted⟩)
    (hc : w.task.call = .message (.str id) text given) (hrecord : w.assistant.record? = a.record?) :
    ∃ outcome, Ends e w w.next outcome ∧ ∀ generated,
      Done e generated a.record? (.message (.str id) text given) outcome w.next.assistant.record? := by
  have hwritable := hloaded.isWritable_iff text r
  by_cases hw : (s.record text r.message r.filters).toValue.isWritable = true
  · obtain ⟨hends, hhere, helse⟩ := ends_saving h hp hc hw
    refine ⟨_, hends, fun _ =>
      .replied hr (hwritable.mp hw) rfl ?_ rfl (Turn.extracted_of_plan hplan) hhere fun other hne => ?_⟩
    · show s.messages ++ _ = _ ++ _
      rw [hloaded.messages]
    · rw [helse other hne, hrecord]
  · obtain ⟨hends, hsame⟩ := ends_unwritten h hp hc hw
    refine ⟨_, hends, ?_⟩
    rw [hsame, hrecord]
    exact fun _ => .unwritten hr (mt hwritable.mpr hw)

/-- A message that has the lock is read and answered, or nothing comes of it. -/
theorem ends_loading (h : InUse e w.assistant use) {text given : Value}
    (hp : w.task.point = .loading use w.assistant.current)
    (hc : w.task.call = .message (.str id) text given) :
    ∃ outcome w', Leads w.assistant.storePace 1 w w' ∧ Ends e w w' outcome ∧
      ∀ generated, Done e generated w.assistant.record? (.message (.str id) text given) outcome
        w'.assistant.record? := by
  obtain ⟨a, p, ha, m, hm, hn⟩ := next_advances w
  obtain ⟨found, a₁, session, a₂, hu, hf, hplan⟩ := ha.of_loading hp hc
  obtain ⟨a₁', s, a', hu', hs, hloaded⟩ := exists_loaded h.serving id
  obtain ⟨rfl, rfl⟩ := Prod.mk.inj (hu.symm.trans hu')
  obtain ⟨rfl, rfl⟩ := Prod.mk.inj (hf.symm.trans hs)
  rw [h.serving.known, h.serving.debugging] at hplan
  have hreply := hloaded.reply text given
  cases hr : e.reply (.str id) text given (w.assistant.record? id) with
  | ok r =>
    rw [hr] at hreply
    obtain ⟨extracted, hp'⟩ := Turn.plan_of_replied hreply
    have hplanned : (Except.ok s >>= fun s => (Turn.plan e.known s text given).outcomeWhen e.debugging) =
      .ok ⟨s.record text r.message r.filters, r, extracted⟩ := hp'
    rw [hplanned] at hplan
    obtain ⟨rfl, rfl⟩ := hplan
    have hassistant : w.next.assistant = { a with journal := m.journal } := by
      rw [hn]
      rfl
    have hinUse : InUse e w.next.assistant use := by
      rw [hassistant]
      exact (hloaded.inUse h).marked (hm.debugging.trans h.serving.debugging)
    have hkeeps : Keeps w.assistant w.next.assistant := by
      rw [hassistant]
      exact ⟨hloaded.setup, hloaded.down, hloaded.current, hloaded.generated, hloaded.storePace⟩
    have hpoint : w.next.task.point = .saving use w.next.assistant.current
        ⟨s.record text r.message r.filters, r, extracted⟩ := by
      rw [hkeeps.current, hn]
      rfl
    have hcall : w.next.task.call = w.task.call := by
      rw [hn]
      rfl
    have hpace : pace w.next.assistant w.next.task.point = w.assistant.storePace := by
      rw [hpoint]
      exact hkeeps.storePace
    have hrecord : w.next.assistant.record? = w.assistant.record? := by
      rw [← hloaded.record, hassistant]
      rfl
    obtain ⟨outcome, hends, hdone⟩ := ends_planned hinUse hloaded hr hp' hpoint (hcall.trans hc) hrecord
    exact ⟨outcome, _, .goes hpace (.ends hends.point 0), hends.of_keeps hcall hkeeps, hdone⟩
  | error f =>
    rw [hr] at hreply
    obtain ⟨f', hp'⟩ := Turn.plan_of_fault hreply
    have hplanned : (Except.ok s >>= fun s => (Turn.plan e.known s text given).outcomeWhen e.debugging) =
      .error f' := hp'
    rw [hplanned] at hplan
    obtain ⟨rfl, rfl⟩ := hplan
    obtain ⟨hends, hrecord⟩ := ends_of_next hm h.serving.debugging hn (hloaded.inUse h).left
      ⟨hloaded.setup, hloaded.down, hloaded.current, hloaded.generated, hloaded.storePace⟩
    refine ⟨_, _, .ends hends.point 1, hends, ?_⟩
    have hsame : w.next.assistant.record? = w.assistant.record? := hrecord.trans hloaded.record
    rw [hsame]
    exact fun _ => .failed hr

/-! ### to the end -/

/-- The call that takes a lock is a deletion or a message. -/
theorem Call.session?_cases {c : Call} {id : Value} (h : c.session? = some id) :
    c = .delete id ∨ ∃ text given, c = .message id text given := by
  cases c with
  | delete other =>
    obtain rfl := Option.some.inj h
    exact .inl rfl
  | message other text given =>
    obtain rfl := Option.some.inj h
    exact .inr ⟨text, given, rfl⟩
  | prepare | create | read | health => cases h

theorem Call.IsNamed.session {c : Call} (hc : c.IsNamed) {id : Value} (h : c.session? = some id) :
    ∃ s : String, id = .str s := by
  rcases Call.session?_cases h with rfl | ⟨text, given, rfl⟩ <;> exact hc

theorem Proceeds.keeps {a a' : Assistant} {t : Task} {p : Point} (h : Proceeds a t a' p) :
    Keeps a a' ∧ a'.record? = a.record? := by
  cases h with
  | creates => exact ⟨⟨rfl, rfl, rfl, Nat.le_succ _, rfl⟩, rfl⟩
  | takes | queues => exact ⟨⟨rfl, rfl, rfl, Nat.le_refl _, rfl⟩, rfl⟩
  | prepared | reads | counts | unavailable | refused => exact ⟨.refl a, rfl⟩

/-- A call that has found a store in use finishes in at most three steps, the first of which it has taken. -/
structure Finishes (e : Setting) (a : Assistant) (w w' : Work) (outcome : Except Fault Answer) : Prop where
  leads : Leads a.storePace 2 w w'
  ends : Ends e ⟨a, w.task, []⟩ w' outcome
  done : Done e a.generated a.record? w.task.call outcome w'.assistant.record?
  create : w.task.call = .create → a.generated < w'.assistant.generated

/-- The call has gone on from an assistant at rest; the same store is in use, with the same records. -/
structure Onward (a : Assistant) (w : Work) : Prop where
  keeps : Keeps a w.next.assistant
  record : w.next.assistant.record? = a.record?
  call : w.next.task.call = w.task.call

variable {a₀ : Assistant}

theorem Onward.finishes (h : Onward a₀ w) {w' : Work} {outcome : Except Fault Answer}
    (hp : pace w.next.assistant w.next.task.point = a₀.storePace) (hl : Leads a₀.storePace 1 w.next w')
    (he : Ends e w.next w' outcome)
    (hd : Done e a₀.generated a₀.record? w.task.call outcome w'.assistant.record?)
    (hc : w.task.call = .create → a₀.generated < w'.assistant.generated) : Finishes e a₀ w w' outcome :=
  ⟨.goes hp hl, he.of_keeps (w := ⟨a₀, w.task, []⟩) h.call h.keeps, hd, hc⟩

/-- A deletion or message that has taken a lock. -/
theorem Onward.finishes_of_takes (h : Onward a₀ w) {use : Locks.Use} (hu : InUse e w.next.assistant use)
    (hs : w.task.call.session? = some (.str id))
    (hp : w.next.task.point = w.task.call.entrance use w.next.assistant.current) :
    ∃ outcome w', Finishes e a₀ w w' outcome := by
  have hpace : pace w.next.assistant w.next.task.point = a₀.storePace := by
    rw [← h.keeps.storePace, hp]
    unfold Call.entrance
    split <;> rfl
  rcases Call.session?_cases hs with hd | ⟨text, given, hd⟩
  · rw [hd] at hp
    obtain ⟨hends, hhere, helse⟩ := ends_deleting hu hp (h.call.trans hd)
    rw [h.record] at hends helse
    refine ⟨_, _, h.finishes hpace (.ends hends.point 1) hends ?_ fun hc => ?_⟩
    · rw [hd]
      exact .deleted hhere helse
    · cases hd.symm.trans hc
  · rw [hd] at hp
    obtain ⟨o, w', hleads, hends, hdone⟩ := ends_loading hu hp (h.call.trans hd)
    rw [h.keeps.storePace] at hleads
    rw [h.record] at hdone
    refine ⟨o, w', h.finishes hpace hleads hends ?_ fun hc => ?_⟩
    · rw [hd]
      exact hdone _
    · cases hd.symm.trans hc

/-- A call that is at its end. -/
theorem Onward.finishes_of_stops (h : Onward a₀ w) {outcome : Except Fault Answer}
    (hp : w.next.task.point = .finished outcome) (hrest : AtRest e w.next.assistant)
    (hd : Done e a₀.generated a₀.record? w.task.call outcome w.next.assistant.record?)
    (hc : w.task.call ≠ .create) : ∃ outcome w', Finishes e a₀ w w' outcome :=
  ⟨outcome, w.next, .ends hp 2, ⟨h.keeps, hp, h.call, hrest⟩, hd, fun hcreate => absurd hcreate hc⟩

/-- A call that has made a session, which is to be kept. -/
theorem Onward.finishes_of_creates (h : Onward a₀ w) (hrest : AtRest e w.next.assistant) (hc : w.task.call = .create)
    (hp : w.next.task.point = .creating w.next.assistant.current (Session.fresh .null a₀.generated).1)
    (hg : w.next.assistant.generated = (Session.fresh .null a₀.generated).2) :
    ∃ outcome w', Finishes e a₀ w w' outcome := by
  obtain ⟨hends, hhere, helse⟩ := ends_creating hrest hp rfl rfl
  rw [h.record] at helse
  refine ⟨_, _, h.finishes ?_ (.ends hends.point 1) hends ?_ fun _ => ?_⟩
  · rw [hp]
    exact h.keeps.storePace
  · rw [hc]
    exact .created hhere helse
  · exact Nat.lt_of_lt_of_le (Nat.lt_succ_self _) (Nat.le_trans (Nat.le_of_eq hg.symm) hends.generated)

/-- A call that asks for the record of a session. -/
theorem Onward.finishes_of_reads (h : Onward a₀ w) (hrest : AtRest e w.next.assistant)
    (hc : w.task.call = .read (.str id)) (hp : w.next.task.point = .reading w.next.assistant.current) :
    ∃ outcome w', Finishes e a₀ w w' outcome := by
  obtain ⟨hends, hr⟩ := ends_reading hrest hp (h.call.trans hc)
  rw [h.record] at hends hr
  refine ⟨_, _, h.finishes ?_ (.ends hends.point 1) hends ?_ fun hcreate => by cases hc.symm.trans hcreate⟩
  · rw [hp]
    exact h.keeps.storePace
  · rw [hc, hr]
    exact .read

/-- A call that asks how many records there are. -/
theorem Onward.finishes_of_counts (h : Onward a₀ w) (hrest : AtRest e w.next.assistant) (hc : w.task.call = .health)
    (hp : w.next.task.point = .counting w.next.assistant.current) : ∃ outcome w', Finishes e a₀ w w' outcome := by
  obtain ⟨o, hends, hr⟩ := ends_counting hrest hp
  rw [h.record] at hr
  refine ⟨_, _, h.finishes ?_ (.ends hends.point 1) hends ?_ fun hcreate => by cases hc.symm.trans hcreate⟩
  · rw [hp]
    exact h.keeps.storePace
  · rw [hc, hr]
    exact .health

/-- A call that finds a store in use changes neither the store nor its records by that. -/
theorem Proceeds.onward {a : Assistant} {p : Point} {m : Marks} (hp : Proceeds a₀ w.task a p)
    (hn : w.next = w.moved a p m) : Onward a₀ w := by
  obtain ⟨hk, hr⟩ := hp.keeps
  have hassistant : w.next.assistant = { a with journal := m.journal } := by
    rw [hn]
    rfl
  refine ⟨?_, ?_, ?_⟩
  · rw [hassistant]
    exact ⟨hk.setup, hk.down, hk.current, hk.generated, hk.storePace⟩
  · rw [hassistant]
    exact hr
  · rw [hn]
    rfl

/-- **A call that finds a store in use goes on to its end**, and comes to what it does alone. -/
theorem finishes_of_proceeds {a : Assistant} {p : Point} {m : Marks} (h₀ : AtRest e a₀)
    (hp : Proceeds a₀ w.task a p) (hc : w.task.call.IsNamed) (hm : m.journal.debugging = e.debugging)
    (hn : w.next = w.moved a p m) : ∃ outcome w', Finishes e a₀ w w' outcome := by
  have hpoint : w.next.task.point = p := by
    rw [hn]
    rfl
  have hassistant : w.next.assistant = { a with journal := m.journal } := by
    rw [hn]
    rfl
  have honward : Onward a₀ w := hp.onward hn
  have hrest : a = a₀ → AtRest e w.next.assistant := by
    rintro rfl
    rw [hassistant]
    exact h₀.marked hm
  cases hp with
  | prepared h =>
    refine honward.finishes_of_stops hpoint (hrest rfl) ?_ fun hcreate => by cases h.symm.trans hcreate
    rw [honward.record, h]
    exact .prepared
  | unavailable h =>
    refine honward.finishes_of_stops hpoint (hrest rfl) ?_ fun hcreate => by cases h.symm.trans hcreate
    rw [honward.record, h]
    exact .health
  | creates h =>
    have hnew : AtRest e w.next.assistant := by
      rw [hassistant]
      exact ⟨⟨h₀.serving.ready, h₀.serving.store, h₀.serving.known, hm⟩, h₀.table, h₀.users, h₀.written⟩
    refine honward.finishes_of_creates hnew h ?_ ?_
    · rw [hpoint, honward.keeps.current]
    · rw [hassistant]
  | @reads id h =>
    obtain ⟨s, rfl⟩ : ∃ s, id = .str s := by
      rw [h] at hc
      exact hc
    refine honward.finishes_of_reads (hrest rfl) h ?_
    rw [hpoint, honward.keeps.current]
  | counts h =>
    refine honward.finishes_of_counts (hrest rfl) h ?_
    rw [hpoint, honward.keeps.current]
  | refused h hk =>
    obtain ⟨s, rfl⟩ := hc.session h
    cases hk
  | @queues _ session _ _ h hk he hh =>
    have hholds := (h₀.enter session w.task.number).1
    rw [he] at hholds
    cases hholds.symm.trans hh
  | @takes id session use locks h hk he hh =>
    obtain ⟨s, rfl⟩ := hc.session h
    have hinUse : InUse e w.next.assistant use := by
      have hentered := (h₀.enter session w.task.number).2
      rw [he] at hentered
      rw [hassistant]
      exact hentered.marked hm
    refine honward.finishes_of_takes hinUse h ?_
    rw [hpoint, honward.keeps.current]

/-! ### the first store -/

theorem record?_install (a : Assistant) {s : Store Session} (h : ∀ id, s.find? id = none) :
    (a.install s).record? = fun _ => none := by
  funext id
  unfold Assistant.record? store? install
  rw [if_pos rfl, List.getElem?_concat_length]
  exact h id

/-- A store that serves and keeps nothing yet is put to use. -/
theorem atRest_install {a : Assistant} (hk : a.known = e.known) (hd : a.journal.debugging = e.debugging)
    (htable : a.locks.table = []) (husers : a.locks.users = []) {s : Store Session}
    (hs : s.serves a.down = true) (hnone : ∀ id, s.find? id = none) : AtRest e (a.install s) := by
  refine ⟨⟨rfl, ⟨s, List.getElem?_concat_length .., hs⟩, hk, hd⟩, htable, husers, fun id session hfound => ?_⟩
  rw [record?_install a hnone] at hfound
  cases hfound

theorem proceeds_prepare {a a' : Assistant} {t : Task} {p : Point} (h : Proceeds a t a' p)
    (hc : t.call = .prepare) : a' = a ∧ p = .finished (.ok .prepared) := by
  cases h with
  | prepared => exact ⟨rfl, rfl⟩
  | creates h | reads h | counts h | unavailable h => cases h.symm.trans hc
  | refused h | takes h | queues h =>
    rw [hc] at h
    cases h

/-- **An assistant makes the store that it has been set up for**, in which there are no records yet. -/
theorem prepared (journal : Context) (known : List Value) (setup : Setup) :
    AtRest ⟨journal.debugging, known⟩ ((unready journal known setup).call .prepare).2 ∧
      ∀ id, ((unready journal known setup).call .prepare).2.record? id = none := by
  let w₀ : Work := ⟨unready journal known setup, .ofCall 0 journal.current .prepare, []⟩
  -- the call comes to its end with this store in use
  have hends : ∀ {s : Store Session} {q : Pace} {n : Nat} {w' : Work} {j : Context}, q ≠ .rests → n < 5 →
      Leads q n w₀ w' → s.serves false = true → (∀ id, s.find? id = none) →
      w'.task.point = .finished (.ok .prepared) → j.debugging = journal.debugging →
      w'.assistant = { (unready journal known setup).install s with journal := j } →
      AtRest ⟨journal.debugging, known⟩ ((unready journal known setup).call .prepare).2 ∧
        ∀ id, ((unready journal known setup).call .prepare).2.record? id = none := by
    intro s q n w' j hq hn hleads hs hnone hpoint hj hw
    obtain ⟨j', hj', hcall⟩ := call_of_leads hq hleads hn hpoint
    rw [hw] at hj'
    rw [hcall, hw]
    have hrest : AtRest ⟨journal.debugging, known⟩ ((unready journal known setup).install s) :=
      atRest_install rfl rfl rfl rfl hs hnone
    exact ⟨hrest.marked (hj'.trans hj), fun id => congrFun (record?_install _ hnone) id⟩
  obtain ⟨a, p, ha, m, hm, hn⟩ := next_advances w₀
  rcases ha.of_arrived rfl with ⟨hr, -⟩ | ⟨-, -, hp⟩ | ⟨-, ⟨config, hs⟩, rfl, rfl⟩
  · cases hr
  · obtain ⟨rfl, rfl⟩ := proceeds_prepare hp rfl
    have hpoint : w₀.next.task.point = .finished (.ok .prepared) := by
      rw [hn]
      rfl
    exact hends (q := .goesOn) nofun (Nat.zero_lt_succ 4) (.ends hpoint 0) rfl (fun _ => rfl) hpoint hm.debugging
      (by rw [hn]; rfl)
  · obtain ⟨a', p', ha', m', hm', hn'⟩ := next_advances w₀.next
    have hconnecting : w₀.next.task.point = .connecting := by
      rw [hn]
      rfl
    have hsetup : w₀.next.assistant.setup = .server config := by
      rw [hn]
      exact hs
    obtain ⟨rfl, rfl⟩ := proceeds_prepare (ha'.of_connecting hconnecting hsetup) (by rw [hn]; rfl)
    have hpoint : w₀.next.next.task.point = .finished (.ok .prepared) := by
      rw [hn']
      rfl
    have hpace : pace w₀.next.assistant w₀.next.task.point = .yields := by
      rw [hconnecting]
      rfl
    have hdebugging : m'.journal.debugging = journal.debugging := by
      rw [hm'.debugging, hn]
      exact hm.debugging
    refine hends (q := .yields) nofun (by decide) (.goes hpace (.ends hpoint 0))
      (s := .client config (.live .empty)) rfl (fun _ => rfl) hpoint hdebugging ?_
    rw [hn', hn]
    rfl

/-- **A call on an assistant at rest** finishes, and leaves the assistant at rest. -/
theorem call_done {a : Assistant} (h : AtRest e a) {c : Call} (hc : c.IsNamed) :
    ∃ outcome, (a.call c).1 = some outcome ∧ AtRest e (a.call c).2 ∧
      Done e a.generated a.record? c outcome (a.call c).2.record? := by
  obtain ⟨b, p, hb, m, hm, hn⟩ := next_advances ⟨a, .ofCall 0 a.journal.current c, []⟩
  rcases hb.of_arrived rfl with ⟨-, hp⟩ | ⟨hr, -⟩ | ⟨hr, -⟩
  · obtain ⟨o, w', hf⟩ := finishes_of_proceeds h hp hc (hm.debugging.trans h.serving.debugging) hn
    obtain ⟨j, hj, hcall⟩ := call_of_leads a.storePace_ne_rests hf.leads (by decide) hf.ends.point
    rw [hcall]
    exact ⟨o, rfl, hf.ends.rest.marked (hj.trans hf.ends.rest.serving.debugging), hf.done⟩
  · cases hr.symm.trans h.serving.ready
  · cases hr.symm.trans h.serving.ready

end Outfitter.Assistant
