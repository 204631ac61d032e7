import Outfitter.Proofs.Assistant.LockTables

/-!
Locks under other numbers.

A lock is known by its number, and nothing depends on which number that is. `Locks.Renumbered` relates locks
to the same locks of which `extra` more have been made, from the number `start` on; each operation on locks
keeps this, and with it each step of a call (`Advance.renumbered`). Two crowds that differ so, and in the
journal, and in a call that goes no further, therefore come to the same answers (`Crowd.Renumbered.run`).
-/

namespace Outfitter.Assistant

open Journal

/-- The number of a lock when `extra` more have been made, from the number `start` on. -/
def renumbered (start extra n : Nat) : Nat :=
  if n < start then n else n + extra

section Numbers

variable {start extra : Nat}

theorem renumbered_of_lt {n : Nat} (h : n < start) : renumbered start extra n = n :=
  if_pos h

theorem renumbered_of_le {n : Nat} (h : start ≤ n) : renumbered start extra n = n + extra :=
  if_neg (Nat.not_lt.mpr h)

theorem renumbered_inj {m n : Nat} : renumbered start extra m = renumbered start extra n ↔ m = n := by
  unfold renumbered
  split <;> split <;> omega

theorem renumbered_lt_iff {n length : Nat} (h : start ≤ length) :
    renumbered start extra n < length + extra ↔ n < length := by
  unfold renumbered
  split <;> omega

end Numbers

/-! ### locks -/

def Locks.Use.renumbered (start extra : Nat) (u : Use) : Use :=
  ⟨u.session, Assistant.renumbered start extra u.lock⟩

namespace Locks

/-- The same locks, of which `extra` more have been made, from the number `start` on. -/
structure Renumbered (start extra : Nat) (l l' : Locks) : Prop where
  keys : l'.table.map (·.1) = l.table.map (·.1)
  entries : ∀ k, l'.table.lookup k = (l.table.lookup k).map (Assistant.renumbered start extra)
  users : l'.users = l.users
  locks : ∀ n, l'.lock (Assistant.renumbered start extra n) = l.lock n
  made : l'.made.length = l.made.length + extra
  start_le : start ≤ l.made.length

namespace Renumbered

variable {start extra : Nat} {l l' : Locks}

theorem usersOf (h : Renumbered start extra l l') (k : Key) : l'.usersOf k = l.usersOf k := by
  unfold Locks.usersOf
  rw [h.users]

theorem holds (h : Renumbered start extra l l') (n call : Nat) :
    l'.holds (Assistant.renumbered start extra n) call = l.holds n call := by
  unfold Locks.holds
  rw [h.locks]

/-- A lock changes, and the number of its users. -/
theorem set (h : Renumbered start extra l l') (n : Nat) {x x' : Lock} (hx : x' = x)
    {users users' : List (Key × Nat)} (hu : users' = users) :
    Renumbered start extra { l with made := l.made.set n x, users := users }
      { l' with made := l'.made.set (Assistant.renumbered start extra n) x', users := users' } where
  keys := h.keys
  entries := h.entries
  users := hu
  locks m := by
    refine (lock_of_set l' _ x' _).trans (Eq.trans ?_ (lock_of_set l n x m).symm)
    simp only [renumbered_inj, h.made, renumbered_lt_iff h.start_le, h.locks, hx]
  made := by
    rw [List.length_set, List.length_set]
    exact h.made
  start_le := by
    rw [List.length_set]
    exact h.start_le

/-- One more lock is made for a session. -/
theorem make (h : Renumbered start extra l l') (k : Key) :
    Renumbered start extra
      { l with made := l.made ++ [Lock.free], table := Keyed.put l.table k l.made.length }
      { l' with made := l'.made ++ [Lock.free], table := Keyed.put l'.table k l'.made.length } where
  keys := by
    show (Keyed.put l'.table k _).map (·.1) = (Keyed.put l.table k _).map (·.1)
    rw [Keyed.keys_put, Keyed.keys_put, h.keys]
  entries j := by
    show (Keyed.put l'.table k _).lookup j = ((Keyed.put l.table k _).lookup j).map _
    by_cases hj : j = k
    · subst hj
      rw [Keyed.lookup_put_self, Keyed.lookup_put_self, h.made]
      exact congrArg some (renumbered_of_le h.start_le).symm
    · rw [Keyed.lookup_put_of_ne _ _ hj, Keyed.lookup_put_of_ne _ _ hj]
      exact h.entries j
  users := h.users
  locks n := (lock_append_free l' _).trans ((h.locks n).trans (lock_append_free l n).symm)
  made := by
    rw [List.length_append, List.length_append, h.made]
    exact Nat.add_right_comm ..
  start_le := by
    rw [List.length_append]
    exact Nat.le_trans h.start_le (Nat.le_add_right ..)

/-- There is one user less. -/
theorem dropUser (h : Renumbered start extra l l') (k : Key) :
    Renumbered start extra (l.dropUser k) (l'.dropUser k) := by
  unfold Locks.dropUser
  rw [h.usersOf, h.users]
  split
  · refine ⟨?_, fun j => ?_, rfl, h.locks, h.made, h.start_le⟩
    · show (Keyed.without l'.table k).map (·.1) = (Keyed.without l.table k).map (·.1)
      rw [Keyed.keys_without, Keyed.keys_without, h.keys]
    · show (Keyed.without l'.table k).lookup j = ((Keyed.without l.table k).lookup j).map _
      by_cases hj : j = k
      · subst hj
        rw [Keyed.lookup_without_self, Keyed.lookup_without_self]
        rfl
      · rw [Keyed.lookup_without_of_ne _ hj, Keyed.lookup_without_of_ne _ hj]
        exact h.entries j
  · exact ⟨h.keys, h.entries, rfl, h.locks, h.made, h.start_le⟩

/-- The lock of a session. -/
theorem lockOf (h : Renumbered start extra l l') (k : Key) :
    (l'.lockOf k).1 = Assistant.renumbered start extra (l.lockOf k).1 ∧
      Renumbered start extra (l.lockOf k).2 (l'.lockOf k).2 := by
  have hentry := h.entries k
  rcases lockOf_eq l k with ⟨n, ht, he⟩ | ⟨ht, he⟩ <;>
    rcases lockOf_eq l' k with ⟨n', ht', he'⟩ | ⟨ht', he'⟩ <;> rw [ht, ht'] at hentry
  · rw [he, he']
    exact ⟨Option.some.inj hentry, h⟩
  · cases hentry
  · cases hentry
  · rw [he, he']
    exact ⟨h.made.trans (renumbered_of_le h.start_le).symm, h.make k⟩

theorem enter (h : Renumbered start extra l l') (session : Key) (call : Nat) :
    (l'.enter session call).1 = (l.enter session call).1.renumbered start extra ∧
      Renumbered start extra (l.enter session call).2 (l'.enter session call).2 := by
  unfold Locks.enter
  rw [h.keys]
  obtain ⟨hn, hl⟩ := h.lockOf (session.among (l.table.map (·.1)))
  dsimp only
  rw [hn]
  exact ⟨rfl, hl.set _ (by rw [hl.locks]) (by rw [hl.users, hl.usersOf])⟩

theorem leave (h : Renumbered start extra l l') (u : Use) :
    Renumbered start extra (l.leave u) (l'.leave (u.renumbered start extra)) :=
  (h.set u.lock (congrArg Lock.pass (h.locks u.lock)) h.users).dropUser u.session

theorem withdraw (h : Renumbered start extra l l') (u : Use) (call : Nat) :
    Renumbered start extra (l.withdraw u call) (l'.withdraw (u.renumbered start extra) call) :=
  (h.set u.lock (congrArg (Lock.withdraw · call) (h.locks u.lock)) h.users).dropUser u.session

end Renumbered

end Locks

/-! ### steps -/

/-- The point of a call that uses its lock under another number. -/
def Point.renumbered (start extra : Nat) : Point → Point
  | .waiting use => .waiting (use.renumbered start extra)
  | .deleting use n => .deleting (use.renumbered start extra) n
  | .loading use n => .loading (use.renumbered start extra) n
  | .saving use n turn => .saving (use.renumbered start extra) n turn
  | p => p

section Points

variable {start extra : Nat}

theorem Point.isInside_renumbered (p : Point) : (p.renumbered start extra).isInside = p.isInside := by
  cases p <;> rfl

theorem Point.use?_renumbered (p : Point) :
    (p.renumbered start extra).use? = p.use?.map (Locks.Use.renumbered start extra) := by
  cases p <;> rfl

/-- Locks that were made before keep their numbers. -/
theorem Point.renumbered_of_old {p : Point} (h : ∀ u, p.use? = some u → u.lock < start) :
    p.renumbered start extra = p := by
  have huse : ∀ u : Locks.Use, u.lock < start → u.renumbered start extra = u := fun u hu =>
    congrArg (Locks.Use.mk u.session) (renumbered_of_lt hu)
  cases p with
  | waiting u | deleting u n | loading u n | saving u n turn =>
    simp only [Point.renumbered, huse u (h u rfl)]
  | _ => rfl

end Points

/-- The same call at the same point, but for the number of its lock and the trace that goes on in it. -/
structure Task.Renumbered (start extra : Nat) (t t' : Task) : Prop where
  number : t'.number = t.number
  call : t'.call = t.call
  point : t'.point = t.point.renumbered start extra

namespace Task.Renumbered

variable {start extra : Nat} {t t' : Task} {l l' : Locks}

theorem isIdle (h : Task.Renumbered start extra t t') : t'.isIdle = t.isIdle := by
  unfold Task.isIdle
  rw [h.point, h.call]
  cases t.point <;> cases t.call <;> rfl

theorem outcome? (h : Task.Renumbered start extra t t') : t'.outcome? = t.outcome? := by
  unfold Task.outcome?
  rw [h.point]
  cases t.point <;> rfl

theorem mayGoOn (h : Task.Renumbered start extra t t') (hl : l.Renumbered start extra l') :
    t'.mayGoOn l' = t.mayGoOn l := by
  unfold Task.mayGoOn
  rw [h.point, h.number]
  cases t.point with
  | waiting use => exact hl.holds use.lock t.number
  | _ => rfl

end Task.Renumbered

/-- The assistant with other locks and another journal. -/
def relocked (a : Assistant) (l : Locks) (j : Context) : Assistant :=
  { a with locks := l, journal := j }

section Steps

variable {start extra : Nat} {a a' : Assistant} {t t' : Task} {p : Point} {l : Locks} {j : Context}

theorem entrance_renumbered (c : Call) (use : Locks.Use) (n : Nat) :
    (c.entrance use n).renumbered start extra = c.entrance (use.renumbered start extra) n := by
  cases c <;> rfl

theorem used_relocked {α : Type} (a : Assistant) (n : Nat)
    (operation : Bool → Store Session → Store.Effect Session α) (l : Locks) (j : Context) :
    (a.relocked l j).used n operation = ((a.used n operation).1, (a.used n operation).2.relocked l j) := by
  unfold used relocked
  dsimp only
  cases a.stores[n]? <;> rfl

theorem sessionFor_relocked (a : Assistant) (id : Value) (found : Except Fault (Option Session)) (l : Locks)
    (j : Context) : (a.relocked l j).sessionFor id found =
      ((a.sessionFor id found).1, (a.sessionFor id found).2.relocked l j) := by
  unfold sessionFor
  split <;> rfl

/-- A call does the same with locks under other numbers. -/
theorem Proceeds.renumbered (h : Proceeds a t a' p) (hl : a.locks.Renumbered start extra l)
    (hn : t'.number = t.number) (hc : t'.call = t.call) (j : Context) :
    ∃ l', a'.locks.Renumbered start extra l' ∧
      Proceeds (a.relocked l j) t' (a'.relocked l' j) (p.renumbered start extra) := by
  cases h with
  | prepared h => exact ⟨l, hl, .prepared (hc.trans h)⟩
  | creates h => exact ⟨l, hl, .creates (hc.trans h)⟩
  | reads h => exact ⟨l, hl, .reads (hc.trans h)⟩
  | counts h ha => exact ⟨l, hl, .counts (hc.trans h) ha⟩
  | unavailable h ha => exact ⟨l, hl, .unavailable (hc.trans h) ha⟩
  | refused h hk => exact ⟨l, hl, .refused (hc ▸ h) hk⟩
  | @takes id session use locks h hk he hh =>
    obtain ⟨huse, hl'⟩ := hl.enter session t.number
    rw [he] at huse hl'
    rw [entrance_renumbered, ← hc]
    refine ⟨_, hl', .takes (hc ▸ h) hk (Prod.ext (hn ▸ huse) (hn ▸ rfl)) ?_⟩
    rw [hn, ← hh]
    exact hl'.holds ..
  | @queues id session use locks h hk he hh =>
    obtain ⟨huse, hl'⟩ := hl.enter session t.number
    rw [he] at huse hl'
    refine ⟨_, hl', .queues (hc ▸ h) hk (Prod.ext (hn ▸ huse) (hn ▸ rfl)) ?_⟩
    rw [hn, ← hh]
    exact hl'.holds ..

/-- **A step comes to the same with locks under other numbers.** -/
theorem Advance.renumbered (h : Advance a t a' p) (hl : a.locks.Renumbered start extra l)
    (ht : Task.Renumbered start extra t t') (hj : j.debugging = a.journal.debugging) :
    ∃ l', a'.locks.Renumbered start extra l' ∧
      Advance (a.relocked l j) t' (a'.relocked l' j) (p.renumbered start extra) := by
  have hpoint : ∀ {q : Point}, t.point = q → t'.point = q.renumbered start extra := fun h => h ▸ ht.point
  have hcall : ∀ {c : Call}, t.call = c → t'.call = c := fun h => ht.call.trans h
  -- an operation of a store leaves the locks
  have hused : ∀ {α : Type} (n : Nat) (operation : Bool → Store Session → Store.Effect Session α),
      (a.used n operation).2.locks.Renumbered start extra l := fun n operation => by
    rw [used_locks]
    exact hl
  cases h with
  | proceeds h hr hp =>
    obtain ⟨l', hl', hp'⟩ := hp.renumbered hl ht.number ht.call j
    exact ⟨l', hl', .proceeds (hpoint h) hr hp'⟩
  | makes h hr hs hp =>
    obtain ⟨l', hl', hp'⟩ := hp.renumbered (l := l) hl ht.number ht.call j
    exact ⟨l', hl', .makes (hpoint h) hr hs hp'⟩
  | connects h hr hs => exact ⟨l, hl, .connects (hpoint h) hr hs⟩
  | connected h hs hp =>
    obtain ⟨l', hl', hp'⟩ := hp.renumbered (l := l) hl ht.number ht.call j
    exact ⟨l', hl', .connected (hpoint h) hs hp'⟩
  | unconnected h hs hp =>
    obtain ⟨l', hl', hp'⟩ := hp.renumbered hl ht.number ht.call j
    exact ⟨l', hl', .unconnected (hpoint h) hs hp'⟩
  | created h =>
    refine ⟨l, hused .., ?_⟩
    have := Advance.created (a := a.relocked l j) (hpoint h)
    rwa [used_relocked] at this
  | found h hc =>
    refine ⟨l, hused .., ?_⟩
    have := Advance.found (a := a.relocked l j) (hpoint h) (hcall hc)
    rwa [used_relocked] at this
  | counted h =>
    refine ⟨l, hused .., ?_⟩
    have := Advance.counted (a := a.relocked l j) (hpoint h)
    rwa [used_relocked] at this
  | begins h =>
    rw [entrance_renumbered, ← ht.call]
    exact ⟨l, hl, .begins (hpoint h)⟩
  | @deleted use n id h hc =>
    refine ⟨_, (hused n fun down => Store.delete down id).leave use, ?_⟩
    have := Advance.deleted (a := a.relocked l j) (hpoint h) (hcall hc)
    rwa [used_relocked] at this
  | @plans use n id text given found a₁ a₂ session turn h hc hu hf hp =>
    have hu' : (a.relocked l j).used n (fun down => Store.get down id) = (found, a₁.relocked l j) := by
      rw [used_relocked, hu]
    have hf' : (a₁.relocked l j).sessionFor id found = (.ok session, a'.relocked l j) := by
      rw [sessionFor_relocked, hf]
    have hloaded : a'.locks.Renumbered start extra l := locks_of_loaded hu hf ▸ hl
    exact ⟨l, hloaded, .plans (hpoint h) (hcall hc) hu' hf' (by rw [← hp, ← hj]; rfl)⟩
  | @fails use n id text given found a₁ a₂ session f h hc hu hf hp =>
    have hu' : (a.relocked l j).used n (fun down => Store.get down id) = (found, a₁.relocked l j) := by
      rw [used_relocked, hu]
    have hf' : (a₁.relocked l j).sessionFor id found = (session, a₂.relocked l j) := by
      rw [sessionFor_relocked, hf]
    have hloaded : a₂.locks.Renumbered start extra l := locks_of_loaded hu hf ▸ hl
    exact ⟨_, hloaded.leave use, .fails (hpoint h) (hcall hc) hu' hf' (by rw [← hp, ← hj]; rfl)⟩
  | @saves use n turn id text given h hc =>
    refine ⟨_, (hused n fun down => Store.put down id turn.session).leave use, ?_⟩
    have := Advance.saves (a := a.relocked l j) (hpoint h) (hcall hc)
    rwa [used_relocked] at this
  | rests h =>
    rw [← ht.point]
    exact ⟨l, hl, .rests (ht.isIdle.trans h)⟩

theorem GivesUp.renumbered (h : GivesUp a t a' p) (hl : a.locks.Renumbered start extra l)
    (ht : Task.Renumbered start extra t t') (j : Context) :
    ∃ l', a'.locks.Renumbered start extra l' ∧
      GivesUp (a.relocked l j) t' (a'.relocked l' j) (p.renumbered start extra) := by
  have hpoint : ∀ {q : Point}, t.point = q → t'.point = q.renumbered start extra := fun h => h ▸ ht.point
  cases h with
  | finished h => exact ⟨l, hl, .finished (hpoint h)⟩
  | @withdraws use h =>
    refine ⟨_, hl.withdraw use t.number, ?_⟩
    rw [← ht.number]
    exact .withdraws (hpoint h)
  | @leaves use hi hu =>
    refine ⟨_, hl.leave use, .leaves ?_ ?_⟩
    · rw [ht.point, Point.isInside_renumbered]
      exact hi
    · rw [ht.point, Point.use?_renumbered, hu]
      rfl
  | stops hf hu =>
    refine ⟨l, hl, .stops (ht.outcome?.trans hf) ?_⟩
    rw [ht.point, Point.use?_renumbered, hu]
    rfl

end Steps

/-! ### runs -/

/-- The call that a move is about, if it is about one. -/
def Move.call? : Move → Option Nat
  | .goesOn n | .givesUp n => some n
  | .servers _ => none

namespace Crowd

/-- The same crowd, but for the numbers of locks, the journal, and one call that goes no further. -/
structure Renumbered (start extra n : Nat) (c d : Crowd) : Prop where
  assistant : d.assistant = c.assistant.relocked d.assistant.locks d.assistant.journal
  debugging : d.assistant.journal.debugging = c.assistant.journal.debugging
  locks : c.assistant.locks.Renumbered start extra d.assistant.locks
  length : d.tasks.length = c.tasks.length
  tasks : ∀ (i : Nat) (t : Task), i ≠ n → c.tasks[i]? = some t →
    ∃ t', d.tasks[i]? = some t' ∧ Task.Renumbered start extra t t'

namespace Renumbered

variable {start extra n : Nat} {c d : Crowd}

theorem task_none (h : Renumbered start extra n c d) {i : Nat} (hi : c.tasks[i]? = none) :
    d.tasks[i]? = none := by
  rw [List.getElem?_eq_none_iff] at hi ⊢
  rw [h.length]
  exact hi

/-- Both calls at one place have moved, and are the same call again. -/
theorem changes {c' d' : Crowd} (h : Renumbered start extra n c d) {i : Nat} {t t' : Task} {a b : Assistant}
    {p q : Point} (hc : Changes c i t a p c') (hd : Changes d i t' b q d')
    (ht : Task.Renumbered start extra t t') {l : Locks} (hb : b = a.relocked l d.assistant.journal)
    (hl : a.locks.Renumbered start extra l) (hq : q = p.renumbered start extra) :
    Renumbered start extra n c' d' := by
  obtain ⟨current, owner, hct⟩ := hc.tasks
  obtain ⟨current', owner', hdt⟩ := hd.tasks
  subst hb
  refine ⟨?_, ?_, ?_, ?_, fun k s hk hs => ?_⟩
  · rw [hd.assistant, hc.assistant]
    rfl
  · rw [hd.debugging, hc.debugging, h.debugging]
  · rw [hd.assistant, hc.assistant]
    exact hl
  · rw [hct, hdt, List.length_set, List.length_set, h.length]
  · rw [hct] at hs
    rw [hdt]
    by_cases hki : k = i
    · subst hki
      rw [List.getElem?_set_self', hc.task] at hs
      obtain rfl := Option.some.inj hs
      rw [List.getElem?_set_self', hd.task]
      exact ⟨_, rfl, ht.number, ht.call, hq⟩
    · rw [List.getElem?_set_ne (Ne.symm hki)] at hs ⊢
      exact h.tasks k s hk hs

theorem goesOn (h : Renumbered start extra n c d) {i : Nat} (hi : i ≠ n) :
    Renumbered start extra n (c.next (.goesOn i)) (d.next (.goesOn i)) := by
  cases hct : c.tasks[i]? with
  | none => rwa [next_goesOn_of_not (by simp [hct]), next_goesOn_of_not (by simp [h.task_none hct])]
  | some t =>
    obtain ⟨t', hdt, ht⟩ := h.tasks i t hi hct
    have hmay := ht.mayGoOn h.locks
    cases hm : t.mayGoOn c.assistant.locks with
    | false =>
      rw [hm] at hmay
      rwa [next_goesOn_of_not (by simp [hct, hm]), next_goesOn_of_not (by simp [hdt, hmay])]
    | true =>
      obtain ⟨a, p, ha, hc⟩ := next_goesOn hct hm
      obtain ⟨b, q, hb, hd⟩ := next_goesOn hdt (hmay.trans hm)
      obtain ⟨l', hl', ha'⟩ := ha.renumbered h.locks ht h.debugging
      rw [← h.assistant] at ha'
      obtain ⟨hab, hpq⟩ := hb.unique ha'
      exact h.changes hc hd ht hab hl' hpq

theorem givesUp (h : Renumbered start extra n c d) {i : Nat} (hi : i ≠ n) :
    Renumbered start extra n (c.next (.givesUp i)) (d.next (.givesUp i)) := by
  cases hct : c.tasks[i]? with
  | none => rwa [next_givesUp_of_none hct, next_givesUp_of_none (h.task_none hct)]
  | some t =>
    obtain ⟨t', hdt, ht⟩ := h.tasks i t hi hct
    obtain ⟨a, p, ha, hc⟩ := next_givesUp hct
    obtain ⟨b, q, hb, hd⟩ := next_givesUp hdt
    obtain ⟨l', hl', ha'⟩ := ha.renumbered h.locks ht d.assistant.journal
    rw [← h.assistant] at ha'
    obtain ⟨hab, hpq⟩ := hb.unique ha'
    exact h.changes hc hd ht hab hl' hpq

theorem next (h : Renumbered start extra n c d) {m : Move} (hm : m.call? ≠ some n) :
    Renumbered start extra n (c.next m) (d.next m) := by
  cases m with
  | goesOn i => exact h.goesOn fun hi => hm (congrArg some hi)
  | givesUp i => exact h.givesUp fun hi => hm (congrArg some hi)
  | servers down =>
    refine ⟨?_, h.debugging, h.locks, h.length, h.tasks⟩
    show { d.assistant with down := down } = _
    rw [h.assistant]
    rfl

/-- **Whatever happens to the other calls, the crowds stay the same but for this.** -/
theorem run (h : Renumbered start extra n c d) {moves : List Move} (hm : ∀ m ∈ moves, m.call? ≠ some n) :
    Renumbered start extra n (c.run moves) (d.run moves) := by
  induction moves generalizing c d with
  | nil => exact h
  | cons m moves ih =>
    exact ih (h.next (hm m (List.mem_cons_self ..))) fun m' hm' => hm m' (List.mem_cons_of_mem _ hm')

/-- The calls have come to the same. -/
theorem outcome? (h : Renumbered start extra n c d) {i : Nat} (hi : i ≠ n) :
    d.tasks[i]?.map Task.outcome? = c.tasks[i]?.map Task.outcome? := by
  cases hc : c.tasks[i]? with
  | none => rw [h.task_none hc]
  | some t =>
    obtain ⟨t', hd, ht⟩ := h.tasks i t hi hc
    rw [hd]
    exact congrArg some ht.outcome?

end Renumbered

end Crowd

end Outfitter.Assistant
