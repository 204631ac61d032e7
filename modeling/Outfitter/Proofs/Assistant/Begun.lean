import Outfitter.Proofs.Assistant.LockTables

/-!
Who is at a lock, and a lock that is taken and given back.

Only calls that have begun have a lock or wait for one (`IsReachable.begun`). So a call that has not begun, and
has the lock of its session at once when it enters, has found it free, and leaves the locks as they were: the
tables are the same, and one more lock may have been made, which is free (`Locks.leave_enter`).
-/

namespace Outfitter.Assistant

/-! ### who is at a lock -/

/-- The calls that have the lock or wait for it. -/
def Lock.calls (x : Lock) : List Nat :=
  x.holder.toList ++ x.queue

/-- The call joins those at the lock. -/
theorem Lock.calls_join (x : Lock) (n : Nat) : (x.join n).calls = x.calls ++ [n] := by
  obtain ⟨holder, queue⟩ := x
  unfold join calls
  cases holder <;> cases queue <;> simp

theorem Lock.calls_pass {x : Lock} {i : Nat} (h : i ∈ x.pass.calls) : i ∈ x.calls := by
  refine List.mem_append_right _ ?_
  obtain ⟨holder, queue⟩ := x
  cases queue with
  | nil => exact h
  | cons j rest => exact h

theorem Lock.calls_withdraw {x : Lock} {n i : Nat} (h : i ∈ (x.withdraw n).calls) : i ∈ x.calls := by
  unfold withdraw at h
  split at h
  · exact calls_pass h
  · rcases List.mem_append.mp h with h | h
    · exact List.mem_append_left _ h
    · exact List.mem_append_right _ (List.mem_of_mem_erase h)

/-- A call that has the lock at once, and was not at it before, has found it free. -/
theorem Lock.eq_free_of_join {x : Lock} {n : Nat} (hx : n ∉ x.calls) (hj : (x.join n).holder = some n) :
    x = free := by
  obtain ⟨holder, queue⟩ := x
  unfold join at hj
  split at hj
  · rename_i hfree
    obtain ⟨hh, hq⟩ := Bool.and_eq_true_iff.mp hfree
    obtain rfl : holder = none := Option.isNone_iff_eq_none.mp hh
    obtain rfl : queue = [] := List.isEmpty_iff.mp hq
    rfl
  · exact absurd (List.mem_append_left _ (by rw [hj]; exact List.mem_singleton.mpr rfl)) hx

namespace Locks

variable {l l' : Locks} {ps : List Point} {n : Nat} {p p' : Point}

/-- There is one user less of a lock, at which there is nobody new. -/
theorem calls_drop {m : Nat} {x : Lock} (hx : ∀ i ∈ x.calls, i ∈ (l.lock m).calls) {session : Key} {k i : Nat}
    (h : i ∈ (({ l with made := l.made.set m x }.dropUser session).lock k).calls) : i ∈ (l.lock k).calls := by
  unfold lock at h
  rw [(dropped ..).made, lock_of_set] at h
  split at h
  · rename_i hk
    rw [hk.1]
    exact hx i h
  · exact h

/-- A step brings no call to a lock but the one that takes the step. -/
theorem Shift.calls (h : Shift l n p l' p') (hm : ∀ k m, l.table.lookup k = some m → m < l.made.length)
    {k i : Nat} (hi : i ∈ (l'.lock k).calls) : i ∈ (l.lock k).calls ∨ i = n := by
  cases h with
  | stays => exact .inl hi
  | takes => exact .inl hi
  | @enters session p' hu hu' hi' =>
    have he := entered l session n hm
    by_cases hk : k = (l.enter session n).1.lock
    · rw [hk, he.lock, Lock.calls_join] at hi
      rcases List.mem_append.mp hi with hi | hi
      · exact .inl (hk ▸ hi)
      · exact .inr (List.mem_singleton.mp hi)
    · rw [he.others k hk] at hi
      exact .inl hi
  | leaves => exact .inl (calls_drop (fun _ => Lock.calls_pass) hi)
  | withdraws => exact .inl (calls_drop (fun _ => Lock.calls_withdraw) hi)

/-! ### a lock that is taken and given back -/

/-- The same tables; one more lock may have been made, which nobody uses. -/
structure Restored (l l' : Locks) : Prop where
  table : l'.table = l.table
  users : l'.users = l.users
  made : l'.made = l.made ∨ l'.made = l.made ++ [Lock.free]

theorem usersOf_put (made : List Lock) (table users : List (Key × Nat)) (k : Key) (count : Nat) :
    usersOf ⟨made, table, Keyed.put users k count⟩ k = count := by
  unfold usersOf
  rw [Keyed.lookup_put_self]
  rfl

/-- The last of several users is gone again. -/
theorem dropUser_of_more (made : List Lock) (table : List (Key × Nat)) {users : List (Key × Nat)} {k : Key}
    {count : Nat} (h : users.lookup k = some count) (hc : count ≠ 0) :
    dropUser ⟨made, table, Keyed.put users k (count + 1)⟩ k = ⟨made, table, users⟩ := by
  unfold dropUser
  rw [usersOf_put, if_neg (by omega), Nat.add_sub_cancel, Keyed.put_put h]

/-- The only user is gone again. -/
theorem dropUser_of_new (made : List Lock) {table users : List (Key × Nat)} {k : Key}
    (ht : table.lookup k = .none) (hu : users.lookup k = .none) (m : Nat) :
    dropUser ⟨made, Keyed.put table k m, Keyed.put users k 1⟩ k = ⟨made, table, users⟩ := by
  unfold dropUser
  rw [usersOf_put, if_pos (Nat.le_refl 1), Keyed.without_put ht, Keyed.without_put hu]

/-- A lock that a call takes at once is free again when the call has left it. -/
theorem set_pass_join {made : List Lock} {table users : List (Key × Nat)} {m : Nat} {x : Lock}
    (hm : m < made.length) (hx : made[m]?.getD Lock.free = x) (hn : n ∉ x.calls)
    (hh : holds ⟨made.set m (x.join n), table, users⟩ m n = true) :
    (made.set m (x.join n)).set m (lock ⟨made.set m (x.join n), table, users⟩ m).pass = made := by
  have hjoined : lock ⟨made.set m (x.join n), table, users⟩ m = x.join n :=
    (lock_set hm _ m).trans (if_pos rfl)
  unfold holds at hh
  rw [hjoined] at hh
  obtain rfl := Lock.eq_free_of_join hn (beq_iff_eq.mp hh)
  have hat : made[m] = Lock.free := by
    rw [← hx, List.getElem?_eq_getElem hm]
    rfl
  rw [hjoined, List.set_set]
  show made.set m Lock.free = made
  rw [← hat, List.set_getElem_self]

/-- **A call that has found a lock free, and leaves it, leaves everything as it was.** -/
theorem leave_enter (h : l.Keeps ps) (session : Key) (hn : ∀ k, n ∉ (l.lock k).calls)
    (hh : (l.enter session n).2.holds (l.enter session n).1.lock n = true) :
    Restored l ((l.enter session n).2.leave (l.enter session n).1) := by
  unfold enter at hh ⊢
  generalize session.among (l.table.map (·.1)) = k at hh ⊢
  have husers := h.users k
  rw [← h.usersOf] at husers
  rcases lockOf_eq l k with ⟨m, ht, he⟩ | ⟨ht, he⟩ <;> simp only [he] at hh ⊢ <;> unfold leave
  · have hcount : l.usersOf k ≠ 0 := by
      rw [h.usersOf]
      intro h0
      rw [(h.table k).mpr h0] at ht
      cases ht
    rw [if_neg hcount] at husers
    rw [set_pass_join (x := l.lock m) (h.made k m ht) rfl (hn m) hh, dropUser_of_more _ _ husers hcount]
    exact ⟨rfl, rfl, .inl rfl⟩
  · have hcount : l.usersOf k = 0 := by
      rw [h.usersOf]
      exact (h.table k).mp ht
    rw [if_pos hcount] at husers
    -- the new lock is as free as it was before it was made
    have hlock : ∀ table, lock ⟨l.made ++ [Lock.free], table, l.users⟩ l.made.length = l.lock l.made.length :=
      fun _ => lock_append_free l l.made.length
    have hnew : l.made.length < (l.made ++ [Lock.free]).length := by
      rw [List.length_append]
      exact Nat.lt_succ_self _
    rw [hlock] at hh ⊢
    rw [set_pass_join hnew (lock_append_free ..) (hn _) hh]
    show Restored l (dropUser ⟨_, Keyed.put l.table k _, Keyed.put l.users k (l.usersOf k + 1)⟩ k)
    rw [hcount, dropUser_of_new _ ht husers]
    exact ⟨rfl, rfl, .inr rfl⟩

end Locks

/-! ### every run -/

/-- A step leads a call on from where it has not begun. -/
theorem Proceeds.begun {a a' : Assistant} {t : Task} {p : Point} (h : Proceeds a t a' p) : p ≠ .arrived := by
  cases h with
  | takes =>
    unfold Call.entrance
    split <;> exact nofun
  | _ => exact nofun

theorem Advance.begun {a a' : Assistant} {t : Task} {p : Point} (h : Advance a t a' p) : p ≠ .arrived := by
  cases h with
  | proceeds _ _ hp | makes _ _ _ hp | connected _ _ hp | unconnected _ _ hp => exact hp.begun
  | begins =>
    unfold Call.entrance
    split <;> exact nofun
  | rests hi =>
    intro ht
    unfold Task.isIdle at hi
    rw [ht] at hi
    cases hi
  | _ => exact nofun

theorem GivesUp.begun {a a' : Assistant} {t : Task} {p : Point} (h : GivesUp a t a' p) : p ≠ .arrived := by
  cases h <;> exact nofun

namespace Crowd

/-- Whoever has a lock or waits for one has begun. -/
def Begun (c : Crowd) : Prop :=
  ∀ k, ∀ n ∈ (c.assistant.locks.lock k).calls, ∃ p, c.points[n]? = some p ∧ p ≠ .arrived

theorem Begun.changes {c c' : Crowd} {n : Nat} {t : Task} {a : Assistant} {p : Point} (h : c.Begun)
    (hf : c.Fits) (hch : Changes c n t a p c')
    (hs : Locks.Shift c.assistant.locks t.number t.point a.locks p) (hp : p ≠ .arrived) : c'.Begun := by
  intro k i hi
  rw [hch.assistant] at hi
  rw [hf.numbered n t hch.task] at hs
  have hset : c'.points = c.points.set n p := hch.point
  by_cases hin : i = n
  · subst hin
    rw [hset, List.getElem?_set_self', hch.old_point]
    exact ⟨p, rfl, hp⟩
  · rw [hset, List.getElem?_set_ne (Ne.symm hin)]
    exact h k i ((hs.calls hf.keeps.made hi).resolve_right hin)

theorem Begun.next {c : Crowd} (h : c.Begun) (hf : c.Fits) (m : Move) : (c.next m).Begun := by
  rcases next_cases c m with he | ⟨n, t, a, p, -, hm, ha, hch⟩ | ⟨n, t, a, p, -, ha, hch⟩ | ⟨down, -, he⟩
  · rw [he]
    exact h
  · exact h.changes hf hch (ha.shift hm) ha.begun
  · exact h.changes hf hch ha.shift ha.begun
  · rw [he]
    exact h

/-- A crowd of calls of an assistant that has never made a lock, at any time. -/
def IsReachable (c : Crowd) : Prop :=
  ∃ (a : Assistant) (calls : List Call) (moves : List Move), a.locks = .none ∧ c = (ofCalls a calls).run moves

theorem IsReachable.fits {c : Crowd} (h : c.IsReachable) : c.Fits := by
  obtain ⟨a, calls, moves, hl, rfl⟩ := h
  exact (fits_ofCalls (by rw [hl]; rfl) (by rw [hl]; rfl) calls).run moves

/-- **Throughout every run, whoever has a lock or waits for one has begun.** -/
theorem IsReachable.begun {c : Crowd} (h : c.IsReachable) : c.Begun := by
  obtain ⟨a, calls, moves, hl, rfl⟩ := h
  have hfits : (ofCalls a calls).Fits := fits_ofCalls (by rw [hl]; rfl) (by rw [hl]; rfl) calls
  have hbegun : (ofCalls a calls).Begun := by
    intro k n hn
    rw [show (ofCalls a calls).assistant.locks = .none from hl] at hn
    cases hn
  exact (run_induction (P := fun c => c.Fits ∧ c.Begun) ⟨hfits, hbegun⟩
    (fun _ m h => ⟨h.1.next m, h.2.next h.1 m⟩) moves).2

end Crowd

end Outfitter.Assistant
