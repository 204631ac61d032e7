import Outfitter.Proofs.Assistant.Advance

/-!
The tables of locks while calls come and go.

`Locks.Keeps` relates the tables to the points of all calls: both tables have an entry for just the
sessions that some call uses, the number of users is the number of these calls, and they all use the lock
in the table. `Locks.Shift` lists what a step of one call may do to the locks. Each shift keeps the
relation (`Keeps.shift`), so at most one call of a session has its lock (`Keeps.inside_unique`).
-/

namespace Outfitter.Assistant

/-! ### points -/

/-- The call has the lock of this session or waits for it. -/
def Point.uses (session : Key) (p : Point) : Bool :=
  p.use?.any (·.session == session)

/-- The number of calls that have the lock of a session or wait for it. -/
def usersAt (ps : List Point) (session : Key) : Nat :=
  ps.countP (Point.uses session)

theorem Point.exists_use {p : Point} (h : p.isInside = true) : ∃ u, p.use? = some u := by
  cases p with
  | deleting u n | loading u n | saving u n turn => exact ⟨u, rfl⟩
  | _ => cases h

theorem Point.uses_iff {p : Point} {session : Key} :
    p.uses session = true ↔ ∃ u, p.use? = some u ∧ u.session = session := by
  unfold Point.uses
  rw [Option.any_eq_true]
  simp only [beq_iff_eq]

theorem usersAt_pos {ps : List Point} {i : Nat} {p : Point} {u : Locks.Use} (hp : ps[i]? = some p)
    (hu : p.use? = some u) : usersAt ps u.session ≠ 0 := by
  refine Nat.pos_iff_ne_zero.mp (List.countP_pos_iff.mpr ⟨p, List.mem_of_getElem? hp, ?_⟩)
  exact Point.uses_iff.mpr ⟨u, hu, rfl⟩

/-- One call goes to another point. -/
theorem usersAt_set {ps : List Point} {n : Nat} {p : Point} (hp : ps[n]? = some p) (p' : Point)
    (session : Key) : usersAt (ps.set n p') session + (if p.uses session then 1 else 0) =
      usersAt ps session + (if p'.uses session then 1 else 0) := by
  obtain ⟨hn, rfl⟩ := List.getElem?_eq_some_iff.mp hp
  unfold usersAt
  rw [List.countP_set hn]
  have hle : (if Point.uses session ps[n] = true then 1 else 0) ≤ ps.countP (Point.uses session) := by
    split
    · rename_i h
      exact List.countP_pos_iff.mpr ⟨ps[n], List.getElem_mem hn, h⟩
    · exact Nat.zero_le _
  omega

theorem Point.uses_of_use {p : Point} {u : Locks.Use} (h : p.use? = some u) (session : Key) :
    p.uses session = true ↔ session = u.session := by
  rw [uses_iff, h]
  constructor
  · rintro ⟨v, hv, rfl⟩
    rw [Option.some.inj hv]
  · rintro rfl
    exact ⟨u, rfl, rfl⟩

theorem Point.not_uses {p : Point} (h : p.use? = .none) (session : Key) : ¬ p.uses session = true := by
  rw [uses_iff, h]
  rintro ⟨v, hv, -⟩
  cases hv

/-- A call begins to use the lock of a session. -/
theorem usersAt_begins {ps : List Point} {n : Nat} {p p' : Point} {u : Locks.Use} (hp : ps[n]? = some p)
    (hu : p.use? = .none) (hu' : p'.use? = some u) (session : Key) :
    usersAt (ps.set n p') session = usersAt ps session + if session = u.session then 1 else 0 := by
  have hset := usersAt_set hp p' session
  rw [if_neg (Point.not_uses hu session)] at hset
  simpa only [Point.uses_of_use hu', Nat.add_zero] using hset

/-- A call uses the lock of a session no longer. -/
theorem usersAt_ends {ps : List Point} {n : Nat} {p p' : Point} {u : Locks.Use} (hp : ps[n]? = some p)
    (hu : p.use? = some u) (hu' : p'.use? = .none) (session : Key) :
    usersAt (ps.set n p') session + (if session = u.session then 1 else 0) = usersAt ps session := by
  have hset := usersAt_set hp p' session
  rw [if_neg (Point.not_uses hu' session)] at hset
  simpa only [Point.uses_of_use hu, Nat.add_zero] using hset

theorem getElem?_set_cases {ps : List Point} {n i : Nat} {p' q : Point} (h : (ps.set n p')[i]? = some q) :
    i = n ∧ q = p' ∨ i ≠ n ∧ ps[i]? = some q := by
  by_cases hi : i = n
  · subst hi
    rw [List.getElem?_set_self'] at h
    cases hp : ps[i]? with
    | none =>
      rw [hp] at h
      cases h
    | some p =>
      rw [hp] at h
      exact .inl ⟨rfl, (Option.some.inj h).symm⟩
  · rw [List.getElem?_set_ne (Ne.symm hi)] at h
    exact .inr ⟨hi, h⟩

namespace Locks

variable {l : Locks} {ps : List Point}

/-! ### what the operations do -/

/-- One lock is another one now. -/
theorem lock_set {made : List Lock} {m : Nat} (hm : m < made.length) (x : Lock) (n : Nat) :
    (made.set m x)[n]?.getD Lock.free = if n = m then x else made[n]?.getD Lock.free := by
  by_cases h : n = m
  · subst h
    rw [if_pos rfl, List.getElem?_set_self hm]
    rfl
  · rw [if_neg h, List.getElem?_set_ne (Ne.symm h)]

/-- One lock is another one now, if it was ever made. -/
theorem lock_of_set (l : Locks) (m : Nat) (x : Lock) (n : Nat) :
    (l.made.set m x)[n]?.getD Lock.free = if n = m ∧ m < l.made.length then x else l.lock n := by
  by_cases hm : m < l.made.length
  · rw [lock_set hm]
    simp only [hm, and_true]
    rfl
  · rw [List.set_eq_of_length_le (Nat.le_of_not_lt hm), if_neg fun h => hm h.2]
    rfl

/-- A lock that was never made is free, just as a new one. -/
theorem lock_append_free (l : Locks) (n : Nat) : (l.made ++ [Lock.free])[n]?.getD Lock.free = l.lock n := by
  unfold lock
  by_cases h : n < l.made.length
  · rw [List.getElem?_append_left h]
  · rw [List.getElem?_append_right (Nat.le_of_not_lt h), List.getElem?_eq_none (Nat.le_of_not_lt h)]
    cases n - l.made.length <;> rfl

/-- The lock of a session: the one in the table, or the next one to be made. -/
theorem lockOf_eq (l : Locks) (session : Key) :
    (∃ n, l.table.lookup session = some n ∧ l.lockOf session = (n, l)) ∨
    (l.table.lookup session = .none ∧ l.lockOf session = (l.made.length,
      { l with made := l.made ++ [Lock.free], table := Keyed.put l.table session l.made.length })) := by
  unfold lockOf
  cases h : l.table.lookup session with
  | some n => exact .inl ⟨n, rfl, rfl⟩
  | none => exact .inr ⟨rfl, rfl⟩

/-- What a call finds and leaves behind when it enters. -/
structure Entered (l : Locks) (call : Nat) (u : Use) (l' : Locks) : Prop where
  lock : l'.lock u.lock = (l.lock u.lock).join call
  others : ∀ n, n ≠ u.lock → l'.lock n = l.lock n
  made : l.made.length ≤ l'.made.length
  isMade : u.lock < l'.made.length
  entry : l'.table.lookup u.session = some u.lock
  /-- The lock was in the table, or it is new. -/
  before : l.table.lookup u.session = some u.lock ∨
    l.table.lookup u.session = .none ∧ u.lock = l.made.length
  entries : ∀ k, k ≠ u.session → l'.table.lookup k = l.table.lookup k
  count : l'.users.lookup u.session = some (l.usersOf u.session + 1)
  counts : ∀ k, k ≠ u.session → l'.users.lookup k = l.users.lookup k

theorem entered (l : Locks) (session : Key) (call : Nat)
    (hm : ∀ k n, l.table.lookup k = some n → n < l.made.length) :
    Entered l call (l.enter session call).1 (l.enter session call).2 := by
  unfold enter
  generalize session.among (l.table.map (·.1)) = k
  rcases lockOf_eq l k with ⟨n, ht, he⟩ | ⟨ht, he⟩
  · simp only [he]
    have hn := hm k n ht
    constructor
    · exact (lock_set hn _ n).trans (if_pos rfl)
    · exact fun m hne => (lock_set hn _ m).trans (if_neg hne)
    · exact Nat.le_of_eq (List.length_set ..).symm
    · exact Nat.lt_of_lt_of_eq hn (List.length_set ..).symm
    · exact ht
    · exact .inl ht
    · exact fun _ _ => rfl
    · exact Keyed.lookup_put_self ..
    · exact fun k' hk => Keyed.lookup_put_of_ne _ _ hk
  · simp only [he]
    have hn : l.made.length < (l.made ++ [Lock.free]).length := by
      rw [List.length_append]
      exact Nat.lt_succ_self _
    constructor
    · refine (lock_set hn _ _).trans ((if_pos rfl).trans ?_)
      exact congrArg (Lock.join · call) (lock_append_free l _)
    · exact fun m hne => (lock_set hn _ m).trans ((if_neg hne).trans (lock_append_free l m))
    · rw [List.length_set, List.length_append]
      exact Nat.le_succ _
    · exact Nat.lt_of_lt_of_eq hn (List.length_set ..).symm
    · exact Keyed.lookup_put_self ..
    · exact .inr ⟨ht, rfl⟩
    · exact fun k' hk => Keyed.lookup_put_of_ne _ _ hk
    · exact Keyed.lookup_put_self ..
    · exact fun k' hk => Keyed.lookup_put_of_ne _ _ hk

/-- What becomes of the tables when there is one user less. -/
structure Dropped (l : Locks) (session : Key) (l' : Locks) : Prop where
  made : l'.made = l.made
  entry : l'.table.lookup session = if l.usersOf session ≤ 1 then .none else l.table.lookup session
  entries : ∀ k, k ≠ session → l'.table.lookup k = l.table.lookup k
  count : l'.users.lookup session = if l.usersOf session ≤ 1 then .none else some (l.usersOf session - 1)
  counts : ∀ k, k ≠ session → l'.users.lookup k = l.users.lookup k

theorem dropped (l : Locks) (session : Key) : Dropped l session (l.dropUser session) := by
  unfold dropUser
  by_cases h : l.usersOf session ≤ 1
  · rw [if_pos h]
    constructor
    · rfl
    · rw [if_pos h]
      exact Keyed.lookup_without_self ..
    · exact fun k hk => Keyed.lookup_without_of_ne _ hk
    · rw [if_pos h]
      exact Keyed.lookup_without_self ..
    · exact fun k hk => Keyed.lookup_without_of_ne _ hk
  · rw [if_neg h]
    constructor
    · rfl
    · rw [if_neg h]
    · exact fun _ _ => rfl
    · rw [if_neg h]
      exact Keyed.lookup_put_self ..
    · exact fun k hk => Keyed.lookup_put_of_ne _ _ hk

/-! ### tables that fit the calls -/

/-- The tables fit the points of all calls; the place of a point is the number of the call. -/
structure Keeps (l : Locks) (ps : List Point) : Prop where
  users : ∀ k, l.users.lookup k = if usersAt ps k = 0 then .none else some (usersAt ps k)
  table : ∀ k, l.table.lookup k = .none ↔ usersAt ps k = 0
  /-- All who use the lock of a session use the one in the table. -/
  shared : ∀ (i : Nat) (p : Point) (u : Use), ps[i]? = some p → p.use? = some u →
    l.table.lookup u.session = some u.lock
  apart : ∀ k k' n, l.table.lookup k = some n → l.table.lookup k' = some n → k = k'
  made : ∀ k n, l.table.lookup k = some n → n < l.made.length
  /-- Who is inside has the lock. -/
  held : ∀ (i : Nat) (p : Point) (u : Use), ps[i]? = some p → p.isInside = true → p.use? = some u →
    (l.lock u.lock).holder = some i

theorem Keeps.usersOf (h : l.Keeps ps) (k : Key) : l.usersOf k = usersAt ps k := by
  unfold Locks.usersOf
  rw [h.users]
  split
  · rename_i h0
    exact h0.symm
  · rfl

/-- Two who use one lock use the lock of one session. -/
theorem Keeps.session_eq (h : l.Keeps ps) {i j : Nat} {p q : Point} {u v : Use} (hp : ps[i]? = some p)
    (hq : ps[j]? = some q) (hu : p.use? = some u) (hv : q.use? = some v) (hl : u.lock = v.lock) :
    u.session = v.session :=
  h.apart _ _ _ (h.shared i p u hp hu) (hl ▸ h.shared j q v hq hv)

/-- **At most one call of a session has its lock.** -/
theorem Keeps.inside_unique (h : l.Keeps ps) {i j : Nat} {p q : Point} {u v : Use} (hp : ps[i]? = some p)
    (hq : ps[j]? = some q) (hpi : p.isInside = true) (hqi : q.isInside = true) (hu : p.use? = some u)
    (hv : q.use? = some v) (hs : u.session = v.session) : i = j := by
  have hlock : u.lock = v.lock := by
    have := h.shared i p u hp hu
    rw [hs, h.shared j q v hq hv] at this
    exact (Option.some.inj this).symm
  have := h.held i p u hp hpi hu
  rw [hlock, h.held j q v hq hqi hv] at this
  exact (Option.some.inj this).symm

/-- What a step of a call may do to the locks, and to the point of the call. -/
inductive Shift (l : Locks) (n : Nat) (p : Point) : Locks → Point → Prop where
  /-- It is about no lock. -/
  | stays {p' : Point} (hu : p'.use? = p.use?) (hi : p'.isInside = p.isInside) : Shift l n p l p'
  | enters {k : Key} {p' : Point} (hu : p.use? = .none) (hu' : p'.use? = some (l.enter k n).1)
    (hi : p'.isInside = (l.enter k n).2.holds (l.enter k n).1.lock n) : Shift l n p (l.enter k n).2 p'
  /-- It takes the lock that it has been handed. -/
  | takes {u : Use} {p' : Point} (hu : p.use? = some u) (hh : l.holds u.lock n = true)
    (hu' : p'.use? = some u) : Shift l n p l p'
  | leaves {u : Use} {p' : Point} (hu : p.use? = some u) (hi : p.isInside = true) (hu' : p'.use? = .none) :
    Shift l n p (l.leave u) p'
  | withdraws {u : Use} {p' : Point} (hu : p.use? = some u) (hi : p.isInside = false)
    (hu' : p'.use? = .none) : Shift l n p (l.withdraw u n) p'

/-- A lock that is joined keeps its holder. -/
theorem holder_join {x : Lock} {i : Nat} (h : x.holder = some i) (call : Nat) :
    (x.join call).holder = some i := by
  unfold Lock.join
  rw [h]
  rfl

/-- A lock keeps its holder when somebody else withdraws. -/
theorem holder_withdraw {x : Lock} {i call : Nat} (h : x.holder = some i) (hne : i ≠ call) :
    (x.withdraw call).holder = some i := by
  unfold Lock.withdraw
  rw [if_neg (by rw [h]; exact fun he => hne (Option.some.inj he))]
  exact h

theorem isInside_of_use?_none {p : Point} (h : p.use? = .none) : p.isInside = false := by
  cases p with
  | deleting | loading | saving => cases h
  | _ => rfl

/-- The point of a call changes, and with it neither its use of a lock nor the locks. -/
theorem Keeps.same_use (h : l.Keeps ps) {n : Nat} {p p' : Point} (hp : ps[n]? = some p)
    (hu : p'.use? = p.use?)
    (hi : p'.isInside = true → p.isInside = true ∨ ∃ u, p.use? = some u ∧ l.holds u.lock n = true) :
    l.Keeps (ps.set n p') := by
  have huses : ∀ k, usersAt (ps.set n p') k = usersAt ps k := by
    intro k
    have := usersAt_set hp p' k
    unfold Point.uses at this
    rw [hu] at this
    omega
  constructor
  case users =>
    intro k
    rw [huses]
    exact h.users k
  case table =>
    intro k
    rw [huses]
    exact h.table k
  case shared =>
    intro i q u hq hqu
    rcases getElem?_set_cases hq with ⟨rfl, rfl⟩ | ⟨-, hq⟩
    · exact h.shared i p u hp (hu ▸ hqu)
    · exact h.shared i q u hq hqu
  case apart =>
    exact h.apart
  case made =>
    exact h.made
  case held =>
    intro i q u hq hqi hqu
    rcases getElem?_set_cases hq with ⟨rfl, rfl⟩ | ⟨-, hq⟩
    · rw [hu] at hqu
      rcases hi hqi with hpi | ⟨v, hv, hh⟩
      · exact h.held i p u hp hpi hqu
      · rw [hv] at hqu
        obtain rfl := Option.some.inj hqu
        exact beq_iff_eq.mp hh
    · exact h.held i q u hq hqi hqu

theorem Keeps.enter (h : l.Keeps ps) {n : Nat} {p p' : Point} (hp : ps[n]? = some p) (hu : p.use? = .none)
    {k : Key} (hu' : p'.use? = some (l.enter k n).1)
    (hi : p'.isInside = (l.enter k n).2.holds (l.enter k n).1.lock n) :
    (l.enter k n).2.Keeps (ps.set n p') := by
  have he := entered l k n h.made
  generalize (l.enter k n).1 = u at he hu' hi
  generalize (l.enter k n).2 = l' at he hi
  -- there is one user more of this session, and as many of the others
  have hone : usersAt (ps.set n p') u.session = usersAt ps u.session + 1 := by
    rw [usersAt_begins hp hu hu', if_pos rfl]
  have hsame : ∀ k', k' ≠ u.session → usersAt (ps.set n p') k' = usersAt ps k' := by
    intro k' hk
    rw [usersAt_begins hp hu hu', if_neg hk, Nat.add_zero]
  constructor
  case users =>
    intro k'
    by_cases hk : k' = u.session
    · subst hk
      rw [hone, he.count, h.usersOf, if_neg (Nat.succ_ne_zero _)]
    · rw [hsame k' hk, he.counts k' hk]
      exact h.users k'
  case table =>
    intro k'
    by_cases hk : k' = u.session
    · subst hk
      rw [hone, he.entry]
      exact ⟨nofun, nofun⟩
    · rw [hsame k' hk, he.entries k' hk]
      exact h.table k'
  case shared =>
    intro i q v hq hqv
    rcases getElem?_set_cases hq with ⟨rfl, rfl⟩ | ⟨-, hq⟩
    · rw [hu'] at hqv
      obtain rfl := Option.some.inj hqv
      exact he.entry
    · have hv := h.shared i q v hq hqv
      by_cases hk : v.session = u.session
      · rcases he.before with hb | ⟨hb, -⟩
        · rw [hk] at hv ⊢
          rw [he.entry, ← hb, hv]
        · rw [hk, hb] at hv
          cases hv
      · rw [he.entries _ hk]
        exact hv
  case apart =>
    intro k₁ k₂ m h₁ h₂
    -- a new lock has a number that no other entry has
    have hnew : ∀ k', k' ≠ u.session → l'.table.lookup k' ≠ some u.lock := by
      intro k' hk ht
      rw [he.entries k' hk] at ht
      rcases he.before with hb | ⟨-, hb⟩
      · exact hk (h.apart _ _ _ ht hb)
      · exact absurd (h.made _ _ ht) (by omega)
    by_cases hk₁ : k₁ = u.session <;> by_cases hk₂ : k₂ = u.session
    · exact hk₁.trans hk₂.symm
    · subst hk₁
      obtain rfl := Option.some.inj (he.entry.symm.trans h₁)
      exact absurd h₂ (hnew k₂ hk₂)
    · subst hk₂
      obtain rfl := Option.some.inj (he.entry.symm.trans h₂)
      exact absurd h₁ (hnew k₁ hk₁)
    · rw [he.entries _ hk₁] at h₁
      rw [he.entries _ hk₂] at h₂
      exact h.apart _ _ _ h₁ h₂
  case made =>
    intro k' m hm
    by_cases hk : k' = u.session
    · subst hk
      obtain rfl := Option.some.inj (he.entry.symm.trans hm)
      exact he.isMade
    · rw [he.entries _ hk] at hm
      exact Nat.lt_of_lt_of_le (h.made _ _ hm) he.made
  case held =>
    intro i q v hq hqi hqv
    rcases getElem?_set_cases hq with ⟨rfl, rfl⟩ | ⟨-, hq⟩
    · rw [hu'] at hqv
      obtain rfl := Option.some.inj hqv
      rw [hi] at hqi
      exact beq_iff_eq.mp hqi
    · have hv := h.held i q v hq hqi hqv
      by_cases hl : v.lock = u.lock
      · rw [hl, he.lock, ← hl]
        exact holder_join hv n
      · rw [he.others _ hl]
        exact hv

/-- A user of a lock is gone. The lock may have changed, but not for who was inside with it. -/
theorem Keeps.drop (h : l.Keeps ps) {n : Nat} {p p' : Point} {u : Use} (hp : ps[n]? = some p)
    (hu : p.use? = some u) (hu' : p'.use? = .none) {x : Lock}
    (hx : ∀ i q, i ≠ n → ps[i]? = some q → q.isInside = true → q.use? = some u → x.holder = some i) :
    ({ l with made := l.made.set u.lock x }.dropUser u.session).Keeps (ps.set n p') := by
  have hd := dropped { l with made := l.made.set u.lock x } u.session
  have husers : { l with made := l.made.set u.lock x }.usersOf u.session = usersAt ps u.session :=
    h.usersOf u.session
  have hentry := hd.entry
  have hcount := hd.count
  rw [husers] at hentry hcount
  generalize dropUser _ _ = l' at hd hentry hcount
  have hlock : ∀ m, l'.lock m = if m = u.lock then x else l.lock m := by
    intro m
    unfold lock
    rw [hd.made]
    exact lock_set (h.made _ _ (h.shared n p u hp hu)) x m
  -- there is one user less of this session, and as many of the others
  have hone : usersAt (ps.set n p') u.session + 1 = usersAt ps u.session := by
    rw [← usersAt_ends hp hu hu' u.session, if_pos rfl]
  have hsame : ∀ k, k ≠ u.session → usersAt (ps.set n p') k = usersAt ps k := by
    intro k hk
    rw [← usersAt_ends hp hu hu' k, if_neg hk, Nat.add_zero]
  have hentries : ∀ k m, l'.table.lookup k = some m → l.table.lookup k = some m := by
    intro k m hm
    by_cases hk : k = u.session
    · subst hk
      rw [hentry] at hm
      split at hm
      · cases hm
      · exact hm
    · rw [hd.entries k hk] at hm
      exact hm
  constructor
  case users =>
    intro k
    by_cases hk : k = u.session
    · subst hk
      rw [hcount]
      by_cases h1 : usersAt ps u.session ≤ 1
      · rw [if_pos h1, if_pos (by omega)]
      · rw [if_neg h1, if_neg (by omega), ← hone, Nat.add_sub_cancel]
    · rw [hsame k hk, hd.counts k hk]
      exact h.users k
  case table =>
    intro k
    by_cases hk : k = u.session
    · subst hk
      rw [hentry]
      split
      · exact iff_of_true rfl (by omega)
      · refine iff_of_false (fun ht => ?_) (by omega)
        exact absurd ((h.table u.session).mp ht) (by omega)
    · rw [hsame k hk, hd.entries k hk]
      exact h.table k
  case shared =>
    intro i q v hq hqv
    rcases getElem?_set_cases hq with ⟨rfl, rfl⟩ | ⟨hi, hq⟩
    · rw [hu'] at hqv
      cases hqv
    · have hv := h.shared i q v hq hqv
      by_cases hk : v.session = u.session
      · -- the call that uses this lock too is still there, so the lock stays in the table
        have hpos := usersAt_pos ((List.getElem?_set_ne (Ne.symm hi)).trans hq : (ps.set n p')[i]? = some q) hqv
        rw [hk] at hpos hv ⊢
        rw [hentry, if_neg (by omega)]
        exact hv
      · rw [hd.entries _ hk]
        exact hv
  case apart =>
    exact fun k k' m hm hm' => h.apart k k' m (hentries k m hm) (hentries k' m hm')
  case made =>
    intro k m hm
    rw [hd.made]
    exact Nat.lt_of_lt_of_eq (h.made k m (hentries k m hm)) (List.length_set ..).symm
  case held =>
    intro i q v hq hqi hqv
    rcases getElem?_set_cases hq with ⟨rfl, rfl⟩ | ⟨hi, hq⟩
    · rw [hu'] at hqv
      cases hqv
    · rw [hlock]
      split
      · rename_i hl
        have hs := h.session_eq hq hp hqv hu hl
        obtain rfl : v = u := by
          cases v
          cases u
          obtain rfl : _ = _ := hl
          obtain rfl : _ = _ := hs
          rfl
        exact hx i q hi hq hqi hqv
      · exact h.held i q v hq hqi hqv

theorem Keeps.leave (h : l.Keeps ps) {n : Nat} {p p' : Point} {u : Use} (hp : ps[n]? = some p)
    (hu : p.use? = some u) (hi : p.isInside = true) (hu' : p'.use? = .none) :
    (l.leave u).Keeps (ps.set n p') := by
  refine h.drop hp hu hu' fun i q hne hq hqi hqu => ?_
  -- nobody else is inside with this lock
  exact absurd (h.inside_unique hq hp hqi hi hqu hu rfl) hne

theorem Keeps.withdraw (h : l.Keeps ps) {n : Nat} {p p' : Point} {u : Use} (hp : ps[n]? = some p)
    (hu : p.use? = some u) (hu' : p'.use? = .none) : (l.withdraw u n).Keeps (ps.set n p') := by
  refine h.drop hp hu hu' fun i q hne hq hqi hqu => ?_
  exact holder_withdraw (h.held i q u hq hqi hqu) hne

/-- **What a step does to the locks keeps the tables fitting.** -/
theorem Keeps.shift (h : l.Keeps ps) {n : Nat} {p p' : Point} {l' : Locks} (hp : ps[n]? = some p)
    (hs : Shift l n p l' p') : l'.Keeps (ps.set n p') := by
  cases hs with
  | stays hu hi => exact h.same_use hp hu fun h' => .inl (hi ▸ h')
  | enters hu hu' hi => exact h.enter hp hu hu' hi
  | takes hu hh hu' => exact h.same_use hp (hu'.trans hu.symm) fun _ => .inr ⟨_, hu, hh⟩
  | leaves hu hi hu' => exact h.leave hp hu hi hu'
  | withdraws hu hi hu' => exact h.withdraw hp hu hu'

/-- No call, and empty tables. -/
theorem keeps_of_empty {l : Locks} (ht : l.table = []) (hu : l.users = []) {ps : List Point}
    (hp : ∀ p ∈ ps, p.use? = .none) : l.Keeps ps := by
  have h0 : ∀ k, usersAt ps k = 0 := by
    intro k
    refine List.countP_eq_zero.mpr fun p hmem h => ?_
    obtain ⟨u, hu, -⟩ := Point.uses_iff.mp h
    rw [hp p hmem] at hu
    cases hu
  have hnone : ∀ (i : Nat) (p : Point) (u : Use), ps[i]? = some p → p.use? ≠ some u := by
    intro i p u hi h
    rw [hp p (List.mem_of_getElem? hi)] at h
    cases h
  constructor
  · intro k
    rw [h0, hu]
    rfl
  · intro k
    rw [h0, ht]
    exact iff_of_true rfl rfl
  · exact fun i p u hi h => absurd h (hnone i p u hi)
  · rw [ht]
    intro k k' n hk
    cases hk
  · rw [ht]
    intro k n hk
    cases hk
  · exact fun i p u hi _ h => absurd h (hnone i p u hi)

end Locks

end Outfitter.Assistant
