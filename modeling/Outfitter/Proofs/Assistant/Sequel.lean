import Outfitter.Proofs.Assistant.Locks
import Outfitter.Proofs.Store.Found

/-!
The calls about sessions, one after the other.

`Call.alone` is what a call about a session makes of the record when nothing else goes on. `Turned` tells what
that is for a message: it is answered as if nothing had been read of it before, and the message and the reply
are added to the session (`turned_alone`). `sequel` is the record after some calls in an order. `Orderly` relates
the records and the points of the calls, while they go on in any interleaving, to the sequel of the calls in the
order in which they have taken their locks; one lemma for each kind of move says that it keeps this relation.
-/

namespace Outfitter.Assistant

open Journal

/-! ### what a call does alone -/

/-- The session that a call is about, if it is known by a text. -/
def Call.topic? (c : Call) : Option String :=
  c.session?.bind Value.string?

/-- What everybody knows: whether somebody debugs, and the known brands. -/
structure Setting where
  debugging : Bool
  known : List Value

/-- The session in which a message is read. -/
def sessionOf (id : Value) (record : Option Session) : Session :=
  record.getD (Session.empty id)

/-- The reply to a message alone: the filters given with it, else those of the session, are the active
ones. -/
def Setting.reply (e : Setting) (id text given : Value) (record : Option Session) :
    Except Fault Dialogue.Reply :=
  (Dialogue.replied text (Turn.base (sessionOf id record) given) (.list e.known)).outcomeWhen e.debugging

/-- The session as the reply to a message leaves it. -/
def sessionAfter (id text : Value) (r : Dialogue.Reply) (record : Option Session) : Session :=
  (sessionOf id record).record text r.message r.filters

/-- The record of a session after a call about it. A turn for which no reply can be planned, or whose session cannot be
written, changes nothing. -/
def Call.alone (e : Setting) (c : Call) (record : Option Session) : Option Session :=
  match c with
  | .message id text given =>
    match e.reply id text given record with
    | .ok r =>
      let s := sessionAfter id text r record
      if s.toValue.isWritable then some s else record
    | .error _ => record
  | .delete _ => none
  | _ => record

/-- The outcome is what the call alone would come to. -/
def Call.Answers (e : Setting) (c : Call) (record : Option Session) (outcome : Except Fault Answer) : Prop :=
  match c with
  | .message id text given =>
    match e.reply id text given record with
    | .ok r =>
      let s := sessionAfter id text r record
      if s.toValue.isWritable then ∃ extracted, outcome = .ok (.replied ⟨s, r, extracted⟩)
      else outcome = .error .tooLongToWrite
    | .error _ => ∃ f, outcome = .error f
  | .delete _ => outcome = .ok (.deleted record.isSome)
  | _ => True

section

variable {e : Setting} {id text given : Value} {record : Option Session} {r : Dialogue.Reply} {f : Fault}

theorem alone_of_written (hr : e.reply id text given record = .ok r)
    (hw : (sessionAfter id text r record).toValue.isWritable = true) :
    (Call.message id text given).alone e record = some (sessionAfter id text r record) := by
  unfold Call.alone
  dsimp only
  rw [hr]
  exact if_pos hw

theorem alone_of_unwritten (hr : e.reply id text given record = .ok r)
    (hw : ¬ (sessionAfter id text r record).toValue.isWritable = true) :
    (Call.message id text given).alone e record = record := by
  unfold Call.alone
  dsimp only
  rw [hr]
  exact if_neg hw

theorem alone_of_fault (hr : e.reply id text given record = .error f) :
    (Call.message id text given).alone e record = record := by
  unfold Call.alone
  dsimp only
  rw [hr]

end

/-- The turn that is about to be saved is the one that the call alone would save. -/
def Call.Plans (e : Setting) (c : Call) (record : Option Session) (turn : Turn) : Prop :=
  ∃ id text given r extracted, c = .message id text given ∧ e.reply id text given record = .ok r ∧
    turn = ⟨sessionAfter id text r record, r, extracted⟩

/-! ### what a turn does -/

/-- The filters that are active when a message comes: those given with it, else those of the session. -/
def activeFilters (given : Value) (record : Option Session) : Value :=
  match given with
  | .null => .object (record.elim [] Session.filters)
  | v => v

/-- The session goes on from its record with a message and this reply to it: it is known by the same identifier and
began when it did, both come behind what was said before, and the filters are those of the reply. -/
structure Continues (id text : Value) (r : Dialogue.Reply) (record : Option Session) (s : Session) : Prop where
  id : s.id = record.elim id Session.id
  created : s.created = record.elim Clock.moment Session.created
  messages : s.messages = record.elim [] Session.messages ++
    [⟨.user, text, Clock.moment⟩, ⟨.assistant, .str r.message, Clock.moment⟩]
  filters : s.filters = r.filters.kept

/-- The record of a session before and after a message for it. The reply is planned for the message and the active
filters alone, without anything having been read of the message before. -/
inductive Turned (e : Setting) (id text given : Value) (record : Option Session) : Option Session → Prop where
  | answered {r : Dialogue.Reply} {s : Session}
    (reply : (Dialogue.replied text (activeFilters given record) (.list e.known)).outcomeWhen e.debugging = .ok r)
    (session : Continues id text r record s) (written : s.toValue.isWritable = true) :
    Turned e id text given record (some s)
  | unwritten {r : Dialogue.Reply} {s : Session}
    (reply : (Dialogue.replied text (activeFilters given record) (.list e.known)).outcomeWhen e.debugging = .ok r)
    (session : Continues id text r record s) (unwritten : s.toValue.isWritable = false) :
    Turned e id text given record record
  | unplanned {f : Fault}
    (reply : (Dialogue.replied text (activeFilters given record) (.list e.known)).outcomeWhen e.debugging = .error f) :
    Turned e id text given record record

theorem base_sessionOf (id given : Value) (record : Option Session) :
    Turn.base (sessionOf id record) given = activeFilters given record := by
  cases record <;> cases given <;> rfl

theorem continues_sessionAfter (id text : Value) (r : Dialogue.Reply) (record : Option Session) :
    Continues id text r record (sessionAfter id text r record) := by
  cases record <;> exact ⟨rfl, rfl, rfl, rfl⟩

/-- **A message is a turn of its session.** -/
theorem turned_alone (e : Setting) (id text given : Value) (record : Option Session) :
    Turned e id text given record ((Call.message id text given).alone e record) := by
  have hreply : e.reply id text given record =
      (Dialogue.replied text (activeFilters given record) (.list e.known)).outcomeWhen e.debugging := by
    unfold Setting.reply
    rw [base_sessionOf]
  cases hr : e.reply id text given record with
  | error f =>
    rw [alone_of_fault hr]
    exact .unplanned (hreply ▸ hr)
  | ok r =>
    have hsession := continues_sessionAfter id text r record
    by_cases hw : (sessionAfter id text r record).toValue.isWritable = true
    · rw [alone_of_written hr hw]
      exact .answered (hreply ▸ hr) hsession hw
    · rw [alone_of_unwritten hr hw]
      exact .unwritten (hreply ▸ hr) hsession (Bool.not_eq_true _ ▸ hw)

/-! ### calls one after the other -/

/-- The record of a session after a call, which may be about another one. -/
def following (e : Setting) (calls : List Call) (id : String) (record : Option Session) (n : Nat) :
    Option Session :=
  match calls[n]? with
  | some c => if c.topic? = some id then c.alone e record else record
  | none => record

/-- The record of a session after some calls in this order. -/
def sequel (e : Setting) (calls : List Call) (id : String) (record : Option Session) (order : List Nat) :
    Option Session :=
  order.foldl (following e calls id) record

variable {e : Setting} {calls : List Call} {id : String} {record : Option Session}

theorem sequel_append (e : Setting) (calls : List Call) (id : String) (record : Option Session)
    (order more : List Nat) :
    sequel e calls id record (order ++ more) = sequel e calls id (sequel e calls id record order) more :=
  List.foldl_append ..

theorem following_own {n : Nat} {c : Call} (hc : calls[n]? = some c) (ht : c.topic? = some id) :
    following e calls id record n = c.alone e record := by
  unfold following
  rw [hc]
  exact if_pos ht

/-- A call about the session comes after others. -/
theorem sequel_concat_own {n : Nat} {c : Call} (hc : calls[n]? = some c) (ht : c.topic? = some id)
    (before : List Nat) : sequel e calls id record (before ++ [n]) =
      c.alone e (sequel e calls id record before) :=
  (sequel_append ..).trans (following_own hc ht)

theorem following_other {n : Nat} (h : ∀ c, calls[n]? = some c → c.topic? ≠ some id) :
    following e calls id record n = record := by
  unfold following
  split
  · rename_i c hc
    exact if_neg (h c hc)
  · rfl

/-- Calls about other sessions make no difference. -/
theorem sequel_of_others {order : List Nat}
    (h : ∀ n ∈ order, ∀ c, calls[n]? = some c → c.topic? ≠ some id) :
    sequel e calls id record order = record := by
  induction order generalizing record with
  | nil => rfl
  | cons n order ih =>
    show sequel e calls id (following e calls id record n) order = record
    rw [following_other (h n (List.mem_cons_self ..))]
    exact ih fun m hm => h m (List.mem_cons_of_mem _ hm)

/-! ### calls in an order -/

/-- The call has finished. -/
def Point.isFinished : Point → Bool
  | .finished _ => true
  | _ => false

/-- The records and the points of the calls are those after the calls in this order, in which they have
taken their locks. The last call about a session may still be inside; then the record is as before it. -/
structure Orderly (e : Setting) (calls : List Call) (start records : String → Option Session)
    (ps : List Point) (order : List Nat) : Prop where
  nodup : order.Nodup
  /-- A call has its place in the order from when it takes the lock. -/
  placed : ∀ (n : Nat) (p : Point), ps[n]? = some p →
    (n ∈ order ↔ p.isInside = true ∨ p.isFinished = true)
  known : ∀ n ∈ order, n < ps.length
  /-- No call about the session is inside, and the record is the one after all calls. -/
  outside : ∀ id, (∀ (n : Nat) (p : Point) (c : Call), ps[n]? = some p → p.isInside = true →
    calls[n]? = some c → c.topic? ≠ some id) → records id = sequel e calls id (start id) order
  /-- A call about the session is inside, and the record is the one before it. -/
  inside : ∀ (n : Nat) (p : Point) (c : Call) (id : String), ps[n]? = some p → p.isInside = true →
    calls[n]? = some c → c.topic? = some id → ∃ before after, order = before ++ n :: after ∧
      (∀ m ∈ after, ∀ c, calls[m]? = some c → c.topic? ≠ some id) ∧
      records id = sequel e calls id (start id) before
  saving : ∀ (n : Nat) (u : Locks.Use) (k : Nat) (turn : Turn) (c : Call) (id : String),
    ps[n]? = some (.saving u k turn) → calls[n]? = some c → c.topic? = some id →
    c.Plans e (records id) turn
  answered : ∀ (n : Nat) (o : Except Fault Answer) (c : Call) (id : String), ps[n]? = some (.finished o) →
    calls[n]? = some c → c.topic? = some id → ∃ before after, order = before ++ n :: after ∧
      c.Answers e (sequel e calls id (start id) before) o

namespace Orderly

variable {start records : String → Option Session} {ps : List Point} {order : List Nat} {n : Nat}
  {p p' : Point} {c : Call}

/-- Nobody has begun. -/
theorem initial (h : ∀ p ∈ ps, p = .arrived) : Orderly e calls start start ps [] := by
  have hmem : ∀ (n : Nat) (p : Point), ps[n]? = some p → p = .arrived :=
    fun n p hp => h p (List.mem_of_getElem? hp)
  constructor
  · exact List.nodup_nil
  · intro n p hp
    rw [hmem n p hp]
    exact iff_of_false List.not_mem_nil (by simp [Point.isInside, Point.isFinished])
  · intro n hn
    cases hn
  · intro id _
    rfl
  · intro n p c id hp hi
    rw [hmem n p hp] at hi
    cases hi
  · intro n u k turn c id hp
    cases hmem n _ hp
  · intro n o c id hp
    cases hmem n _ hp

/-- A call that does not get inside makes no difference. -/
theorem stays (h : Orderly e calls start records ps order) (hp : ps[n]? = some p)
    (hi : p.isInside = false) (hf : p.isFinished = false) (hi' : p'.isInside = false)
    (hf' : p'.isFinished = false) : Orderly e calls start records (ps.set n p') order := by
  constructor
  · exact h.nodup
  · intro m q hq
    rcases getElem?_set_cases hq with ⟨rfl, rfl⟩ | ⟨-, hq⟩
    · rw [h.placed m p hp, hi, hf, hi', hf']
    · exact h.placed m q hq
  · intro m hm
    rw [List.length_set]
    exact h.known m hm
  · intro id hid
    refine h.outside id fun m q c hq hqi hc ht => ?_
    by_cases hm : m = n
    · subst hm
      rw [hp] at hq
      obtain rfl := Option.some.inj hq
      rw [hi] at hqi
      cases hqi
    · exact hid m q c ((List.getElem?_set_ne (Ne.symm hm)).trans hq) hqi hc ht
  · intro m q c id hq hqi hc ht
    rcases getElem?_set_cases hq with ⟨rfl, rfl⟩ | ⟨-, hq⟩
    · rw [hi'] at hqi
      cases hqi
    · exact h.inside m q c id hq hqi hc ht
  · intro m u k turn c id hq hc ht
    rcases getElem?_set_cases hq with ⟨rfl, rfl⟩ | ⟨-, hq⟩
    · cases hi'
    · exact h.saving m u k turn c id hq hc ht
  · intro m o c id hq hc ht
    rcases getElem?_set_cases hq with ⟨rfl, rfl⟩ | ⟨-, hq⟩
    · cases hf'
    · exact h.answered m o c id hq hc ht

/-- A call takes the lock of its session: it is the next one in the order. -/
theorem enters (h : Orderly e calls start records ps order) (hp : ps[n]? = some p)
    (hi : p.isInside = false) (hf : p.isFinished = false) (hi' : p'.isInside = true)
    (hs' : ∀ u k turn, p' ≠ .saving u k turn) (hc : calls[n]? = some c) (ht : c.topic? = some id)
    (hfree : ∀ (m : Nat) (q : Point) (d : Call), ps[m]? = some q → q.isInside = true →
      calls[m]? = some d → d.topic? ≠ some id) :
    Orderly e calls start records (ps.set n p') (order ++ [n]) := by
  have hnew : n ∉ order := by
    rw [h.placed n p hp, hi, hf]
    simp
  have hf' : p'.isFinished = false := by
    cases p' with
    | finished => cases hi'
    | _ => rfl
  have hset : (ps.set n p')[n]? = some p' := by
    rw [List.getElem?_set_self']
    rw [hp]
    rfl
  constructor
  · rw [List.nodup_append]
    refine ⟨h.nodup, List.pairwise_singleton _ n, fun m hm k hk => ?_⟩
    rintro rfl
    obtain rfl := List.mem_singleton.mp hk
    exact hnew hm
  · intro m q hq
    rw [List.mem_append, List.mem_singleton]
    rcases getElem?_set_cases hq with ⟨rfl, rfl⟩ | ⟨hm, hq⟩
    · exact iff_of_true (.inr rfl) (.inl hi')
    · rw [← h.placed m q hq]
      exact ⟨fun hor => hor.resolve_right hm, .inl⟩
  · intro m hm
    rw [List.length_set]
    rcases List.mem_append.mp hm with hm | hm
    · exact h.known m hm
    · obtain rfl := List.mem_singleton.mp hm
      exact (List.getElem?_eq_some_iff.mp hp).1
  · intro id' hid
    have hne : c.topic? ≠ some id' := hid n p' c hset hi' hc
    rw [sequel_append, h.outside id' fun m q d hq hqi hd => ?_]
    · refine (sequel_of_others fun m hm d hd => ?_).symm
      obtain rfl := List.mem_singleton.mp hm
      rw [hc] at hd
      exact Option.some.inj hd ▸ hne
    · by_cases hm : m = n
      · subst hm
        rw [hc] at hd
        exact Option.some.inj hd ▸ hne
      · exact hid m q d ((List.getElem?_set_ne (Ne.symm hm)).trans hq) hqi hd
  · intro m q d id' hq hqi hd ht'
    rcases getElem?_set_cases hq with ⟨rfl, rfl⟩ | ⟨-, hold⟩
    · rw [hc] at hd
      obtain rfl := Option.some.inj hd
      rw [ht] at ht'
      obtain rfl := Option.some.inj ht'
      exact ⟨order, [], rfl, fun _ hm => absurd hm List.not_mem_nil, h.outside id hfree⟩
    · obtain ⟨before, after, rfl, hafter, hr⟩ := h.inside m q d id' hold hqi hd ht'
      refine ⟨before, after ++ [n], by simp, fun k hk d' hd' => ?_, hr⟩
      rcases List.mem_append.mp hk with hk | hk
      · exact hafter k hk d' hd'
      · -- the call that enters is about another session, since this one is not free
        obtain rfl := List.mem_singleton.mp hk
        rw [hc] at hd'
        obtain rfl := Option.some.inj hd'
        rw [ht]
        rintro ⟨⟩
        exact hfree m q d hold hqi hd ht'
  · intro m u k turn d id' hq hd ht'
    rcases getElem?_set_cases hq with ⟨rfl, he⟩ | ⟨-, hq⟩
    · exact absurd he.symm (hs' u k turn)
    · exact h.saving m u k turn d id' hq hd ht'
  · intro m o d id' hq hd ht'
    rcases getElem?_set_cases hq with ⟨rfl, rfl⟩ | ⟨-, hq⟩
    · cases hi'
    · obtain ⟨before, after, rfl, ha⟩ := h.answered m o d id' hq hd ht'
      exact ⟨before, after ++ [n], by simp, ha⟩

/-- A call inside goes on there; what it is about to save has to be right. -/
theorem works (h : Orderly e calls start records ps order) (hp : ps[n]? = some p)
    (hi : p.isInside = true) (hi' : p'.isInside = true) (hc : calls[n]? = some c)
    (hs' : ∀ u k turn id, p' = .saving u k turn → c.topic? = some id → c.Plans e (records id) turn) :
    Orderly e calls start records (ps.set n p') order := by
  constructor
  · exact h.nodup
  · intro m q hq
    rcases getElem?_set_cases hq with ⟨rfl, rfl⟩ | ⟨-, hq⟩
    · rw [h.placed m p hp]
      exact iff_of_true (.inl hi) (.inl hi')
    · exact h.placed m q hq
  · intro m hm
    rw [List.length_set]
    exact h.known m hm
  · intro id hid
    refine h.outside id fun m q d hq hqi hd => ?_
    by_cases hm : m = n
    · subst hm
      refine hid m p' d ?_ hi' hd
      rw [List.getElem?_set_self', hp]
      rfl
    · exact hid m q d ((List.getElem?_set_ne (Ne.symm hm)).trans hq) hqi hd
  · intro m q d id hq hqi hd ht
    rcases getElem?_set_cases hq with ⟨rfl, rfl⟩ | ⟨-, hq⟩
    · exact h.inside m p d id hp hi hd ht
    · exact h.inside m q d id hq hqi hd ht
  · intro m u k turn d id hq hd ht
    rcases getElem?_set_cases hq with ⟨rfl, he⟩ | ⟨-, hq⟩
    · rw [hc] at hd
      obtain rfl := Option.some.inj hd
      exact hs' u k turn id he.symm ht
    · exact h.saving m u k turn d id hq hd ht
  · intro m o d id hq hd ht
    rcases getElem?_set_cases hq with ⟨rfl, rfl⟩ | ⟨-, hq⟩
    · cases hi'
    · exact h.answered m o d id hq hd ht

/-- A call inside finishes: the record of its session is as after the call alone, and so is its
outcome. -/
theorem leaves (h : Orderly e calls start records ps order) (hp : ps[n]? = some p)
    (hi : p.isInside = true) (hc : calls[n]? = some c) (ht : c.topic? = some id)
    (hown : ∀ (m : Nat) (q : Point) (d : Call), m ≠ n → ps[m]? = some q → q.isInside = true →
      calls[m]? = some d → d.topic? ≠ some id)
    {o : Except Fault Answer} {records' : String → Option Session}
    (hhere : records' id = c.alone e (records id)) (helse : ∀ id', id' ≠ id → records' id' = records id')
    (ho : c.Answers e (records id) o) :
    Orderly e calls start records' (ps.set n (.finished o)) order := by
  obtain ⟨before, after, horder, hafter, hr⟩ := h.inside n p c id hp hi hc ht
  have helse' : ∀ (m : Nat) (q : Point) (d : Call) (id' : String), m ≠ n → ps[m]? = some q →
      q.isInside = true → calls[m]? = some d → d.topic? = some id' → records' id' = records id' := by
    intro m q d id' hm hq hqi hd ht'
    refine helse id' ?_
    rintro rfl
    exact hown m q d hm hq hqi hd ht'
  constructor
  · exact h.nodup
  · intro m q hq
    rcases getElem?_set_cases hq with ⟨rfl, rfl⟩ | ⟨-, hq⟩
    · rw [h.placed m p hp]
      exact iff_of_true (.inl hi) (.inr rfl)
    · exact h.placed m q hq
  · intro m hm
    rw [List.length_set]
    exact h.known m hm
  · intro id' hid
    by_cases he : id' = id
    · subst he
      rw [hhere, hr, horder, sequel_append]
      show _ = sequel e calls id' (following e calls id' _ n) after
      rw [following_own hc ht, sequel_of_others hafter]
    · rw [helse id' he]
      refine h.outside id' fun m q d hq hqi hd => ?_
      by_cases hm : m = n
      · subst hm
        rw [hc] at hd
        obtain rfl := Option.some.inj hd
        rw [ht]
        rintro ⟨⟩
        exact he rfl
      · exact hid m q d ((List.getElem?_set_ne (Ne.symm hm)).trans hq) hqi hd
  · intro m q d id' hq hqi hd ht'
    rcases getElem?_set_cases hq with ⟨rfl, rfl⟩ | ⟨hm, hq⟩
    · cases hqi
    · rw [helse' m q d id' hm hq hqi hd ht']
      exact h.inside m q d id' hq hqi hd ht'
  · intro m u k turn d id' hq hd ht'
    rcases getElem?_set_cases hq with ⟨-, he⟩ | ⟨hm, hq⟩
    · cases he
    · rw [helse' m _ d id' hm hq rfl hd ht']
      exact h.saving m u k turn d id' hq hd ht'
  · intro m o' d id' hq hd ht'
    rcases getElem?_set_cases hq with ⟨rfl, he⟩ | ⟨-, hq⟩
    · obtain rfl := Point.finished.inj he
      rw [hc] at hd
      obtain rfl := Option.some.inj hd
      rw [ht] at ht'
      obtain rfl := Option.some.inj ht'
      exact ⟨before, after, horder, hr ▸ ho⟩
    · exact h.answered m o' d id' hq hd ht'

end Orderly

end Outfitter.Assistant
