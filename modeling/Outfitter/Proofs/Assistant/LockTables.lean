import Outfitter.Proofs.Assistant.Crowd
import Outfitter.Proofs.Keyed
import Outfitter.Proofs.Store.Found

/-!
The tables of locks at every point of every run.

Every step of a call and every call that is given up is a `Shift` of the locks, so the tables fit the
calls throughout (`Fits.run`). `lock_tables_exact` spells out what this means.
-/

namespace Outfitter.Assistant

/-! ### steps as shifts of the locks -/

theorem entrance_use (c : Call) (use : Locks.Use) (n : Nat) : (c.entrance use n).use? = some use := by
  cases c <;> rfl

theorem entrance_isInside (c : Call) (use : Locks.Use) (n : Nat) : (c.entrance use n).isInside = true := by
  cases c <;> rfl

theorem Proceeds.shift {a a' : Assistant} {t : Task} {p : Point} (h : Proceeds a t a' p)
    (hu : t.point.use? = none) : Locks.Shift a.locks t.number t.point a'.locks p := by
  have hi := Locks.isInside_of_use?_none hu
  cases h with
  | @takes id session use locks _ _ he hh =>
    obtain ⟨rfl, rfl⟩ := Prod.mk.inj he
    exact .enters hu (entrance_use ..) ((entrance_isInside ..).trans hh.symm)
  | @queues id session use locks _ _ he hh =>
    obtain ⟨rfl, rfl⟩ := Prod.mk.inj he
    exact .enters hu rfl hh.symm
  | _ => exact .stays hu.symm hi.symm

theorem used_locks {α : Type} (a : Assistant) (n : Nat)
    (operation : Bool → Store Session → Store.Effect Session α) : (a.used n operation).2.locks = a.locks := by
  rw [used_eq]

theorem sessionFor_locks (a : Assistant) (id : Value) (found : Except Fault (Option Session)) :
    (a.sessionFor id found).2.locks = a.locks := by
  rw [sessionFor_eq]

/-- The session of a message is found without the locks. -/
theorem locks_of_loaded {a a₁ a₂ : Assistant} {n : Nat} {id : Value}
    {found : Except Fault (Option Session)} {session : Except Fault Session}
    (hu : a.used n (fun down => Store.get down id) = (found, a₁))
    (hf : a₁.sessionFor id found = (session, a₂)) : a₂.locks = a.locks := by
  have hused := used_locks a n fun down => Store.get down id
  have hfor := sessionFor_locks a₁ id found
  rw [hu] at hused
  rw [hf] at hfor
  exact hfor.trans hused

theorem Advance.shift {a a' : Assistant} {t : Task} {p : Point} (h : Advance a t a' p)
    (hm : t.mayGoOn a.locks = true) : Locks.Shift a.locks t.number t.point a'.locks p := by
  cases h with
  | proceeds ht _ hp => exact hp.shift (by rw [ht]; rfl)
  | makes ht _ _ hp => exact hp.shift (by rw [ht]; rfl)
  | connects ht => 
    rw [ht]
    exact .stays rfl rfl
  | connected ht _ hp => exact hp.shift (by rw [ht]; rfl)
  | unconnected ht _ hp => exact hp.shift (by rw [ht]; rfl)
  | created ht | found ht | counted ht =>
    rw [ht, used_locks]
    exact .stays rfl rfl
  | @begins use ht =>
    unfold Task.mayGoOn at hm
    rw [ht] at hm ⊢
    exact .takes rfl hm (entrance_use ..)
  | @deleted use n id ht =>
    rw [ht]
    unfold left
    rw [used_locks]
    exact .leaves rfl rfl rfl
  | @plans use n id text given found a₁ a₂ session turn ht _ hu hf =>
    rw [ht, locks_of_loaded hu hf]
    exact .stays rfl rfl
  | @fails use n id text given found a₁ a₂ session f ht _ hu hf =>
    unfold left
    rw [ht, locks_of_loaded hu hf]
    exact .leaves rfl rfl rfl
  | @saves use n turn id text given ht =>
    unfold left
    rw [ht, used_locks]
    exact .leaves rfl rfl rfl
  | rests => exact .stays rfl rfl

theorem GivesUp.shift {a a' : Assistant} {t : Task} {p : Point} (h : GivesUp a t a' p) :
    Locks.Shift a.locks t.number t.point a'.locks p := by
  cases h with
  | finished ht =>
    rw [ht]
    exact .stays rfl rfl
  | withdraws ht =>
    rw [ht]
    exact .withdraws rfl rfl rfl
  | leaves hi hu => exact .leaves hu hi rfl
  | stops _ hu => exact .stays hu.symm (Locks.isInside_of_use?_none hu).symm

/-! ### whose lock it is -/

/-- The key counts the same as the identifier. -/
def Key.Names (session : Key) (id : Value) : Prop :=
  ∃ k, id.key? = some k ∧ (session = k ∨ session.toValue.same k.toValue = true)

/-- A text is named by itself alone. -/
theorem Key.Names.of_text {session : Key} {s : String} (h : Key.Names session (.str s)) :
    session = .text s := by
  obtain ⟨k, hk, h⟩ := h
  obtain rfl : Key.text s = k := Option.some.inj hk
  rcases h with h | h
  · exact h
  · exact Outfitter.Key.eq_of_same_text h

theorem session_of_enter {l l' : Locks} {session : Key} {call : Nat} {use : Locks.Use}
    (h : l.enter session call = (use, l')) : use.session = session.among (l.table.map (·.1)) := by
  obtain rfl : (l.enter session call).1 = use := congrArg Prod.fst h
  unfold Locks.enter
  rfl

theorem names_among {id : Value} {k : Key} (h : id.key? = some k) (keys : List Key) :
    Key.Names (k.among keys) id := by
  refine ⟨k, h, ?_⟩
  unfold Key.among
  cases hf : keys.find? fun other => other.toValue.same k.toValue with
  | none => exact .inl rfl
  | some other =>
    have := List.find?_some hf
    exact .inr this

theorem Proceeds.names {a a' : Assistant} {t : Task} {p : Point} (h : Proceeds a t a' p) {u : Locks.Use}
    (hu : p.use? = some u) : ∃ id, t.call.session? = some id ∧ Key.Names u.session id := by
  cases h with
  | takes h hk he =>
    rw [entrance_use] at hu
    obtain rfl := Option.some.inj hu
    refine ⟨_, h, ?_⟩
    rw [session_of_enter he]
    exact names_among hk _
  | queues h hk he =>
    obtain rfl := Option.some.inj hu
    refine ⟨_, h, ?_⟩
    rw [session_of_enter he]
    exact names_among hk _
  | _ => cases hu

/-- A call comes to use a lock only under a key that its identifier names. -/
theorem Advance.names {a a' : Assistant} {t : Task} {p : Point} (h : Advance a t a' p) {u : Locks.Use}
    (hu : p.use? = some u) :
    t.point.use? = some u ∨ ∃ id, t.call.session? = some id ∧ Key.Names u.session id := by
  cases h with
  | proceeds _ _ hp | makes _ _ _ hp | connected _ _ hp | unconnected _ _ hp => exact .inr (hp.names hu)
  | begins ht =>
    rw [entrance_use] at hu
    rw [ht]
    exact .inl hu
  | plans ht =>
    rw [ht]
    exact .inl hu
  | rests => exact .inl hu
  | _ => cases hu

/-! ### every run -/

namespace Crowd

/-- The tables of locks fit the calls, and each call uses the lock of its own session. -/
structure Fits (c : Crowd) : Prop where
  numbered : c.Numbered
  keeps : c.assistant.locks.Keeps c.points
  named : ∀ (n : Nat) (t : Task) (u : Locks.Use), c.tasks[n]? = some t → t.point.use? = some u →
    ∃ id, t.call.session? = some id ∧ Key.Names u.session id

theorem Fits.changes {c c' : Crowd} {n : Nat} {t : Task} {a : Assistant} {p : Point} (h : c.Fits)
    (hch : Changes c n t a p c') (hs : Locks.Shift c.assistant.locks t.number t.point a.locks p)
    (hn : ∀ u, p.use? = some u → t.point.use? = some u ∨
      ∃ id, t.call.session? = some id ∧ Key.Names u.session id) : c'.Fits := by
  refine ⟨hch.numbered h.numbered, ?_, ?_⟩
  · rw [hch.point, hch.assistant]
    rw [h.numbered n t hch.task] at hs
    exact h.keeps.shift hch.old_point hs
  · intro i s u hs hu
    rcases hch.task_cases hs with ⟨rfl, -, hc, hp⟩ | ⟨-, hs⟩
    · rw [hc]
      rcases hn u (hp ▸ hu) with hold | hid
      · exact h.named i t u hch.task hold
      · exact hid
    · exact h.named i s u hs hu

theorem Fits.next {c : Crowd} (h : c.Fits) (m : Move) : (c.next m).Fits := by
  rcases next_cases c m with he | ⟨n, t, a, p, -, hm, ha, hch⟩ | ⟨n, t, a, p, -, ha, hch⟩ | ⟨down, -, he⟩
  · rw [he]
    exact h
  · exact h.changes hch (ha.shift hm) fun u hu => ha.names hu
  · refine h.changes hch ha.shift fun u hu => ?_
    cases ha <;> cases hu
  · rw [he]
    exact ⟨h.numbered, h.keeps, h.named⟩

theorem point_ofCalls {a : Assistant} {calls : List Call} {p : Point} (h : p ∈ (ofCalls a calls).points) :
    p = .arrived := by
  unfold points ofCalls at h
  rw [List.map_map] at h
  obtain ⟨_, -, rfl⟩ := List.mem_map.mp h
  rfl

/-- Calls that have not begun fit empty tables. -/
theorem fits_ofCalls {a : Assistant} (ht : a.locks.table = []) (hu : a.locks.users = [])
    (calls : List Call) : (ofCalls a calls).Fits := by
  refine ⟨numbered_ofCalls a calls, Locks.keeps_of_empty ht hu fun p hp => ?_, fun n t u hn hp => ?_⟩
  · rw [point_ofCalls hp]
    rfl
  · rw [point_ofCalls (List.mem_map_of_mem (List.mem_of_getElem? hn))] at hp
    cases hp

/-- **The tables fit the calls throughout every run.** -/
theorem Fits.run {c : Crowd} (h : c.Fits) (moves : List Move) : (c.run moves).Fits :=
  run_induction h (fun _ m h => h.next m) moves

/-- A call is in flight: it has begun, and has not come to its end. -/
def isInFlight : Point → Bool
  | .arrived | .finished _ | .givenUp => false
  | _ => true

/-- What the tables of locks say of the calls. -/
structure LockTables (c : Crowd) : Prop where
  same_keys : ∀ k, k ∈ c.assistant.locks.table.map (·.1) ↔ k ∈ c.assistant.locks.users.map (·.1)
  /-- The users of a session are counted, and there is at least one if it is in the table. -/
  users : ∀ k, c.assistant.locks.users.lookup k =
    if usersAt c.points k = 0 then none else some (usersAt c.points k)
  one_lock : ∀ (n : Nat) (t : Task) (u : Locks.Use), c.tasks[n]? = some t → t.point.use? = some u →
    c.assistant.locks.table.lookup u.session = some u.lock
  /-- At most one call of a session is inside the guarded block. -/
  exclusive : ∀ (i j : Nat) (s t : Task) (u v : Locks.Use), c.tasks[i]? = some s → c.tasks[j]? = some t →
    s.point.isInside = true → t.point.isInside = true → s.point.use? = some u → t.point.use? = some v →
    u.session = v.session → i = j
  empty : (∀ t ∈ c.tasks, isInFlight t.point = false) →
    c.assistant.locks.table = [] ∧ c.assistant.locks.users = []
  /-- A call about a session uses the lock under its identifier. -/
  own : ∀ (n : Nat) (t : Task) (u : Locks.Use) (s : String), c.tasks[n]? = some t →
    t.point.use? = some u → t.call.session? = some (.str s) → u.session = .text s

theorem Fits.lockTables {c : Crowd} (h : c.Fits) : c.LockTables := by
  have hnone : ∀ k, c.assistant.locks.users.lookup k = none ↔ usersAt c.points k = 0 := by
    intro k
    rw [h.keeps.users]
    split
    · rename_i h0
      exact iff_of_true rfl h0
    · rename_i h0
      exact iff_of_false nofun h0
  constructor
  · intro k
    rw [Keyed.mem_keys_iff, Keyed.mem_keys_iff, Ne, Ne, h.keeps.table, hnone]
  · exact h.keeps.users
  · exact fun n t u ht hu => h.keeps.shared n t.point u (getElem?_points ht) hu
  · exact fun i j s t u v hs ht hsi hti hu hv he =>
      h.keeps.inside_unique (getElem?_points hs) (getElem?_points ht) hsi hti hu hv he
  · intro hall
    have h0 : ∀ k, usersAt c.points k = 0 := by
      intro k
      refine List.countP_eq_zero.mpr fun p hp huses => ?_
      obtain ⟨t, ht, rfl⟩ := List.mem_map.mp hp
      obtain ⟨u, hu, -⟩ := Point.uses_iff.mp huses
      have := hall t ht
      cases hpt : t.point with
      | arrived | finished | givenUp =>
        rw [hpt] at hu
        cases hu
      | _ =>
        rw [hpt] at this
        cases this
    exact ⟨Keyed.eq_nil_of_lookup fun k => (h.keeps.table k).mpr (h0 k),
      Keyed.eq_nil_of_lookup fun k => (hnone k).mpr (h0 k)⟩
  · intro n t u s ht hu hs
    obtain ⟨id, hid, hn⟩ := h.named n t u ht hu
    rw [hs] at hid
    obtain rfl := Option.some.inj hid
    exact hn.of_text

/-- **The tables of locks are exact at every point of every run**, whatever calls are made, in whatever
order they go on, fail or are given up, and whether the servers are down or not. -/
theorem lock_tables_exact {a : Assistant} (ht : a.locks.table = []) (hu : a.locks.users = [])
    (calls : List Call) (moves : List Move) : LockTables ((ofCalls a calls).run moves) :=
  ((fits_ofCalls ht hu calls).run moves).lockTables

/-- A message has the lock of a session, another one waits for it and is given up. -/
theorem lock_tables_exact_of_two :
    usersAt ((ofCalls (.withStore (.initial false) [] (.memory []))
      [.message (.str "a") (.str "red") .null, .delete (.str "a")]).run [.goesOn 0, .goesOn 1]).points
        (.text "a") = 2 ∧
    LockTables ((ofCalls (.withStore (.initial false) [] (.memory []))
      [.message (.str "a") (.str "red") .null, .delete (.str "a")]).run
        [.goesOn 0, .goesOn 1, .givesUp 1]) :=
  ⟨by decide +kernel, lock_tables_exact rfl rfl _ _⟩

end Crowd

end Outfitter.Assistant
