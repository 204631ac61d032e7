import Outfitter.Proofs.Assistant.Begun
import Outfitter.Proofs.Assistant.Failing
import Outfitter.Proofs.Assistant.Renumbered

/-!
Calls that fail leave nothing behind.

A call goes on alone from a point where it has not begun, until something is raised in it: an operation of a
store, or the reading of a message. `Stage` lists where the call may stand on its way, and what it has changed
so far: it has the lock of its session, and an identifier may have been generated. `undone_of_fails` says that
the fault is what the call comes to, and that all else is as it was before the call: the stores, the tables of
locks, the traces, and whatever the other calls come to from then on.
-/

namespace Outfitter.Assistant

open Journal

/-- A call that no longer comes to a point where it could fail: it looks at a store and does nothing else,
waits for a lock that it has not been handed, or has come to its end. -/
def Task.isPast (t : Task) (l : Locks) : Bool :=
  match t.point with
  | .reading _ | .counting _ | .finished _ | .givenUp => true
  | .waiting use => !l.holds use.lock t.number
  | _ => false

namespace Crowd

/-! ### a call on its own -/

/-- The crowd after one call has gone on so many times. -/
def alone (c : Crowd) (n k : Nat) : Crowd :=
  c.run (List.replicate k (.goesOn n))

/-- The crowd when a call stands at another point than in `c`. All that has changed besides is the locks, the
identifiers that have been generated, and the journal. -/
structure Beside (c : Crowd) (n : Nat) (t : Task) (l : Locks) (p : Point) (d : Crowd) : Prop where
  assistant : d.assistant = { c.assistant with
    locks := l, generated := d.assistant.generated, journal := d.assistant.journal }
  debugging : d.assistant.journal.debugging = c.assistant.journal.debugging
  outside : d.assistant.journal.current = c.assistant.journal.current
  tasks : ∃ current owner, d.tasks = c.tasks.set n { t with point := p, current := current, owner := owner }

section Stages

variable {c d : Crowd} {n : Nat} {t s : Task} {l l' : Locks} {p q : Point}

theorem beside_self (ht : c.tasks[n]? = some t) : Beside c n t c.assistant.locks t.point c := by
  obtain ⟨hn, rfl⟩ := List.getElem?_eq_some_iff.mp ht
  exact ⟨rfl, rfl, rfl, c.tasks[n].current, c.tasks[n].owner, (List.set_getElem_self hn).symm⟩

theorem Beside.locks (h : Beside c n t l p d) : d.assistant.locks = l := by
  rw [h.assistant]

/-- The call in the crowd then. -/
theorem Beside.task (h : Beside c n t l p d) (ht : c.tasks[n]? = some t) :
    ∃ s, d.tasks[n]? = some s ∧ s.number = t.number ∧ s.call = t.call ∧ s.point = p ∧ s.outer = t.outer := by
  obtain ⟨current, owner, hd⟩ := h.tasks
  rw [hd, List.getElem?_set_self', ht]
  exact ⟨_, rfl, rfl, rfl, rfl, rfl⟩

/-- One more step of the call. -/
theorem Beside.changes {d' : Crowd} {a : Assistant} (h : Beside c n t l p d) (ht : c.tasks[n]? = some t)
    (hch : Changes d n s a q d') (ha : a = { d.assistant with locks := a.locks, generated := a.generated })
    (hl : a.locks = l') : Beside c n t l' q d' := by
  obtain ⟨current, owner, hd⟩ := h.tasks
  obtain ⟨current', owner', hd'⟩ := hch.tasks
  have hs := hch.task
  rw [hd, List.getElem?_set_self', ht] at hs
  obtain rfl := Option.some.inj hs
  refine ⟨?_, hch.debugging.trans h.debugging, hch.outside.trans h.outside, current', owner', ?_⟩
  · rw [hch.assistant, ha, h.assistant, hl]
  · rw [hd', hd, List.set_set]
    rfl

/-- Where a call may stand when it has gone on alone from where it has not begun. -/
inductive Stage (c : Crowd) (n : Nat) (t : Task) (d : Crowd) : Prop where
  | arrived (h : Beside c n t c.assistant.locks .arrived d)
  | creating {m : Nat} {session : Session} (h : Beside c n t c.assistant.locks (.creating m session) d)
  /-- It has the lock of its session. -/
  | inside {session : Key} {use : Locks.Use} {l : Locks} {p : Point}
    (he : c.assistant.locks.enter session n = (use, l)) (hh : l.holds use.lock n = true)
    (hi : p.isInside = true) (hu : p.use? = some use) (h : Beside c n t l p d)
  | past {s : Task} (hs : d.tasks[n]? = some s) (h : s.isPast d.assistant.locks = true)

/-- A step that takes the call past where it could fail. -/
theorem Stage.of_past {a : Assistant} {d' : Crowd} (hch : Changes d n s a q d')
    (h : Task.isPast { s with point := q } a.locks = true) : Stage c n t d' := by
  obtain ⟨current, owner, hd⟩ := hch.tasks
  have hs : d'.tasks[n]? = some { s with point := q, current := current, owner := owner } := by
    rw [hd, List.getElem?_set_self', hch.task]
    rfl
  refine .past hs ?_
  rw [hch.assistant]
  exact h

/-- The first step of a call. -/
theorem Stage.of_arrived (hf : c.Fits) (ht : c.tasks[n]? = some t) (hr : c.assistant.isReady = true)
    (h : Beside c n t c.assistant.locks .arrived d) : Stage c n t (d.next (.goesOn n)) := by
  obtain ⟨s, hs, hnumber, hcall, hpoint, -⟩ := h.task ht
  obtain ⟨a, q, ha, hch⟩ := next_goesOn hs (by unfold Task.mayGoOn; rw [hpoint])
  have hready : d.assistant.isReady = true := by rw [h.assistant]; exact hr
  have hn : s.number = n := hnumber.trans (hf.numbered n t ht)
  rcases ha.of_arrived hpoint with ⟨-, hp⟩ | ⟨hr', -⟩ | ⟨hr', -⟩
  · cases hp with
    | prepared | unavailable | refused | reads | counts => exact .of_past hch rfl
    | creates => exact .creating (h.changes ht hch rfl h.locks)
    | takes _ _ he hh =>
      rw [h.locks, hn] at he
      rw [hn] at hh
      exact .inside he hh (entrance_isInside ..) (entrance_use ..) (h.changes ht hch rfl rfl)
    | queues _ _ he hh => exact .of_past hch (by show (!_) = true; rw [hh]; rfl)
  · cases hready.symm.trans hr'
  · cases hready.symm.trans hr'

/-- A step of a call that has the lock of its session. -/
theorem Stage.of_inside (ht : c.tasks[n]? = some t) {session : Key} {use : Locks.Use}
    (he : c.assistant.locks.enter session n = (use, l)) (hh : l.holds use.lock n = true)
    (hi : p.isInside = true) (hu : p.use? = some use) (h : Beside c n t l p d) :
    Stage c n t (d.next (.goesOn n)) := by
  obtain ⟨s, hs, hnumber, hcall, hpoint, -⟩ := h.task ht
  have hmay : s.mayGoOn d.assistant.locks = true := by
    unfold Task.mayGoOn
    rw [hpoint]
    cases p <;> first | rfl | cases hi
  obtain ⟨a, q, ha, hch⟩ := next_goesOn hs hmay
  cases ha with
  | deleted | fails | saves => exact .of_past hch rfl
  | @plans use' m id text given found a₁ _ _ turn hp _ hget hfor =>
    obtain rfl : p = .loading use' m := hpoint.symm.trans hp
    obtain rfl : use' = use := Option.some.inj hu
    -- the record has only been looked at
    obtain rfl : a₁ = d.assistant := (congrArg Prod.snd hget).symm.trans (used_get ..)
    have hnew : a = { d.assistant with generated := a.generated } := by
      have := sessionFor_eq d.assistant id found
      rwa [hfor] at this
    have hlocks : a.locks = d.assistant.locks := by rw [hnew]
    exact .inside he hh rfl rfl (h.changes ht hch (hnew.trans (by rw [hlocks])) (hlocks.trans h.locks))
  | rests => exact .inside he hh (hpoint ▸ hi) (hpoint ▸ hu) (h.changes ht hch rfl h.locks)
  | proceeds hp | makes hp | connects hp | connected hp | unconnected hp | created hp | found hp
  | counted hp | begins hp =>
    rw [← hpoint, hp] at hi
    cases hi

/-- A call that has got past where it could fail stays there. -/
theorem Stage.of_past_next (hs : d.tasks[n]? = some s) (h : s.isPast d.assistant.locks = true) :
    Stage c n t (d.next (.goesOn n)) := by
  cases hm : s.mayGoOn d.assistant.locks with
  | false =>
    rw [next_goesOn_of_not (by simp [hs, hm])]
    exact .past hs h
  | true =>
    obtain ⟨a, q, ha, hch⟩ := next_goesOn hs hm
    unfold Task.isPast at h
    unfold Task.mayGoOn at hm
    cases ha with
    | found | counted => exact .of_past hch rfl
    | rests => exact .of_past hch h
    | @begins use hp =>
      rw [hp] at h hm
      have hnot : (!d.assistant.locks.holds use.lock s.number) = true := h
      rw [show d.assistant.locks.holds use.lock s.number = true from hm] at hnot
      cases hnot
    | proceeds hp | makes hp | connects hp | connected hp | unconnected hp | created hp | deleted hp
    | plans hp | fails hp | saves hp =>
      rw [hp] at h
      cases h

/-- **A call that goes on alone goes from stage to stage.** -/
theorem stage_alone (hf : c.Fits) (ht : c.tasks[n]? = some t) (hp : t.point = .arrived)
    (hr : c.assistant.isReady = true) (k : Nat) : Stage c n t (c.alone n k) := by
  induction k with
  | zero => exact .arrived (hp ▸ beside_self ht)
  | succ k ih =>
    have hnext : c.alone n (k + 1) = (c.alone n k).next (.goesOn n) := by
      unfold alone
      rw [List.replicate_succ', run_append]
      rfl
    rw [hnext]
    cases ih with
    | arrived h => exact .of_arrived hf ht hr h
    | creating h =>
      obtain ⟨s, hs, -, -, hpoint, -⟩ := h.task ht
      obtain ⟨a, q, ha, hch⟩ := next_goesOn hs (by unfold Task.mayGoOn; rw [hpoint])
      obtain ⟨-, rfl⟩ := ha.of_creating hpoint
      exact .of_past hch rfl
    | inside he hh hi hu h => exact .of_inside ht he hh hi hu h
    | past hs h => exact .of_past_next hs h

end Stages

/-! ### the call fails -/

/-- The crowd after a step of a call with some tools. -/
def nextWith (tools : Tools) (c : Crowd) (n : Nat) : Crowd :=
  match c.tasks[n]? with
  | some t => c.after n ((stepWith tools).run ⟨c.assistant, t, []⟩).2
  | none => c

/-- The call goes on alone so many times, and meets a fault when it goes on with these tools. -/
def Fails (tools : Tools) (c : Crowd) (n k : Nat) (f : Fault) : Prop :=
  ∃ t, (c.alone n k).tasks[n]? = some t ∧ Raises tools (c.alone n k).assistant t f

/-- The crowd when so many identifiers of sessions have been generated. -/
def generating (c : Crowd) (generated : Nat) : Crowd :=
  { c with assistant := { c.assistant with generated := generated } }

/-- Nothing is left of a call but the fault to which it has come. -/
structure Undone (c : Crowd) (n : Nat) (t : Task) (f : Fault) (d : Crowd) : Prop where
  /-- The fault reaches the caller, whose trace goes on. -/
  outcome : ∃ s, d.tasks[n]? = some s ∧ s.outcome? = some (.error f) ∧ s.current = t.current
  stores : d.assistant.stores = c.assistant.stores
  inUse : d.assistant.store? = c.assistant.store?
  table : d.assistant.locks.table = c.assistant.locks.table
  users : d.assistant.locks.users = c.assistant.locks.users
  outside : d.assistant.journal.current = c.assistant.journal.current
  others : ∀ i, i ≠ n → d.tasks[i]? = c.tasks[i]?
  /-- Whatever happens to the other calls from then on, they come to the same as if the call had not been
  made, and so do the stores. -/
  later : ∀ moves : List Move, (∀ m ∈ moves, m.call? ≠ some n) →
    (∀ i, i ≠ n → (d.run moves).tasks[i]?.map Task.outcome? =
      ((c.generating d.assistant.generated).run moves).tasks[i]?.map Task.outcome?) ∧
    (d.run moves).assistant.stores = ((c.generating d.assistant.generated).run moves).assistant.stores

section Undoing

variable {c d : Crowd} {n k : Nat} {t : Task} {l : Locks} {p : Point} {tools : Tools} {f : Fault}

/-- Locks that have been restored are the same as before, and perhaps one more. -/
theorem exists_renumbered_of_restored {l l' : Locks} (h : Locks.Restored l l')
    (hm : ∀ k n, l.table.lookup k = some n → n < l.made.length) :
    ∃ extra, l.Renumbered l.made.length extra l' := by
  have hentries : ∀ extra k, l'.table.lookup k =
      (l.table.lookup k).map (renumbered l.made.length extra) := by
    intro extra k
    rw [h.table]
    cases hk : l.table.lookup k with
    | none => rfl
    | some n => exact congrArg some (renumbered_of_lt (hm k n hk)).symm
  -- a lock that was never made is free, whatever its number
  have hlocks : ∀ extra n, l.lock (renumbered l.made.length extra n) = l.lock n := by
    intro extra n
    by_cases hn : n < l.made.length
    · rw [renumbered_of_lt hn]
    · have hle := Nat.le_of_not_lt hn
      unfold Locks.lock
      rw [renumbered_of_le hle, List.getElem?_eq_none hle, List.getElem?_eq_none (Nat.le_add_right_of_le hle)]
  rcases h.made with hmade | hmade
  · refine ⟨0, by rw [h.table], hentries 0, h.users, fun n => ?_, by rw [hmade]; rfl, Nat.le_refl _⟩
    rw [← hlocks 0 n]
    unfold Locks.lock
    rw [hmade]
  · refine ⟨1, by rw [h.table], hentries 1, h.users, fun n => ?_, by rw [hmade]; exact List.length_append,
      Nat.le_refl _⟩
    rw [← hlocks 1 n]
    refine Eq.trans ?_ (Locks.lock_append_free l _)
    rw [← hmade]
    rfl

/-- A crowd in which a call has come to an end, and the locks have been restored. -/
theorem Beside.renumbered (h : Beside c n t l p d) (hf : c.Fits) (hl : Locks.Restored c.assistant.locks l) :
    ∃ extra, Renumbered c.assistant.locks.made.length extra n (c.generating d.assistant.generated) d := by
  obtain ⟨extra, hextra⟩ := exists_renumbered_of_restored hl hf.keeps.made
  obtain ⟨current, owner, htasks⟩ := h.tasks
  refine ⟨extra, ?_, h.debugging, ?_, ?_, fun i s hi hs => ⟨s, ?_, rfl, rfl, ?_⟩⟩
  · rw [h.assistant]
    rfl
  · rw [h.locks]
    exact hextra
  · rw [htasks]
    exact List.length_set ..
  · rw [htasks, List.getElem?_set_ne (Ne.symm hi)]
    exact hs
  · exact (Point.renumbered_of_old fun u hu =>
      hf.keeps.made _ _ (hf.keeps.shared i s.point u (getElem?_points hs) hu)).symm

/-- Nothing is raised before a call has begun. -/
theorem not_raises_of_arrived {a : Assistant} {s : Task} (hp : s.point = .arrived) : ¬Raises tools a s f := by
  intro h
  cases h with
  | creating h | deleting h | loading h | reading h | saving h => cases hp.symm.trans h

theorem not_raises_of_past {a : Assistant} {s : Task} {l : Locks} (hp : s.isPast l = true) :
    ¬Raises tools a s f := by
  intro h
  unfold Task.isPast at hp
  cases h with
  | creating h | deleting h | loading h | reading h | saving h =>
    rw [h] at hp
    cases hp

/-- The step in which something is raised is the last one of the call, in which the trace of the caller goes
on. -/
theorem exists_changes_of_raises {s : Task} (htools : tools.AreCalm) (hs : d.tasks[n]? = some s)
    (hr : Raises tools d.assistant s f) (ht : s.IsTraced) :
    (∃ owner, (d.nextWith tools n).tasks[n]? =
      some { s with point := .finished (.error f), current := s.outer, owner := owner }) ∧
    ∃ generated, Changes d n s ({ d.assistant with generated := generated }.released s.point)
      (.finished (.error f)) (d.nextWith tools n) := by
  obtain ⟨generated, m, hm, houter, hrun⟩ := hr.next htools (w := ⟨d.assistant, s, []⟩) ht
  have hnext : d.nextWith tools n = d.after n ((Work.mk d.assistant s []).moved
      ({ d.assistant with generated := generated }.released s.point) (.finished (.error f)) m) := by
    unfold nextWith
    rw [hs]
    exact congrArg (d.after n) hrun
  rw [hnext]
  refine ⟨⟨m.owner, ?_⟩, generated, changes_after hs hm⟩
  show (d.tasks.set n _)[n]? = _
  rw [List.getElem?_set_self', hs]
  exact congrArg (fun trace => some { s with point := .finished (.error f), current := trace, owner := m.owner })
    houter

/-- The failing step gives back what the call has locked. -/
theorem beside_of_raises {s : Task} {d' : Crowd} {generated : Nat} (hc : c.IsReachable)
    (ht : c.tasks[n]? = some t) (hp : t.point = .arrived) (hstage : Stage c n t d) (hs : d.tasks[n]? = some s)
    (hr : Raises tools d.assistant s f)
    (hch : Changes d n s ({ d.assistant with generated := generated }.released s.point)
      (.finished (.error f)) d') :
    ∃ l, Locks.Restored c.assistant.locks l ∧ Beside c n t l (.finished (.error f)) d' := by
  have htask : ∀ {l p}, Beside c n t l p d → s.point = p := fun h => by
    obtain ⟨s', hs', -, -, hpoint, -⟩ := h.task ht
    obtain rfl := Option.some.inj (hs.symm.trans hs')
    exact hpoint
  cases hstage with
  | arrived h => exact absurd hr (not_raises_of_arrived (htask h))
  | past hs' h =>
    obtain rfl := Option.some.inj (hs.symm.trans hs')
    exact absurd hr (not_raises_of_past h)
  | creating h =>
    rw [htask h] at hch
    exact ⟨_, ⟨rfl, rfl, .inl rfl⟩, h.changes ht hch rfl h.locks⟩
  | @inside session use l p he hh hi hu h =>
    -- nobody was at the lock, since the call itself had not begun
    have hnew : ∀ k, n ∉ (c.assistant.locks.lock k).calls := by
      intro k hn
      obtain ⟨q, hq, hbegun⟩ := hc.begun k n hn
      rw [getElem?_points ht] at hq
      exact hbegun (Option.some.inj hq ▸ hp)
    have hrestored := Locks.leave_enter hc.fits.keeps session hnew (by rw [he]; exact hh)
    rw [he] at hrestored
    have hreleased : { d.assistant with generated := generated }.released s.point =
        { d.assistant with generated := generated }.left use := by
      unfold released
      rw [htask h, hu]
    rw [hreleased] at hch
    refine ⟨_, hrestored, h.changes ht hch rfl ?_⟩
    show d.assistant.locks.leave use = l.leave use
    rw [h.locks]

theorem IsReachable.run (h : c.IsReachable) (moves : List Move) : (c.run moves).IsReachable := by
  obtain ⟨a, calls, before, hl, rfl⟩ := h
  exact ⟨a, calls, before ++ moves, hl, (run_append ..).symm⟩

theorem IsReachable.areTraced (h : c.IsReachable) : c.AreTraced := by
  obtain ⟨a, calls, moves, -, rfl⟩ := h
  exact areTraced_run a calls moves

/-- **A call that fails leaves nothing behind**: at any time, in a store that is in use, with any operation of
a store or the reading of the message failing, at any point of the call. -/
theorem undone_of_fails (htools : tools.AreCalm) (hc : c.IsReachable) (hr : c.assistant.isReady = true)
    (ht : c.tasks[n]? = some t) (hp : t.point = .arrived) (hf : Fails tools c n k f) :
    Undone c n t f ((c.alone n k).nextWith tools n) := by
  obtain ⟨s, hs, hraises⟩ := hf
  have hstage := stage_alone hc.fits ht hp hr k
  have htraced : s.IsTraced := (hc.run _).areTraced s (List.mem_of_getElem? hs)
  have hcurrent : t.current = t.outer := by
    have := hc.areTraced t (List.mem_of_getElem? ht)
    unfold Task.IsTraced at this
    rwa [hp] at this
  obtain ⟨⟨_, htask⟩, generated, hch⟩ := exists_changes_of_raises htools hs hraises htraced
  obtain ⟨l, hrestored, hb⟩ := beside_of_raises hc ht hp hstage hs hraises hch
  obtain ⟨s', hs', -, -, -, houter⟩ := hb.task ht
  obtain rfl := Option.some.inj (htask.symm.trans hs')
  obtain ⟨current, owner, htasks⟩ := hb.tasks
  obtain ⟨extra, hsame⟩ := hb.renumbered hc.fits hrestored
  constructor
  · exact ⟨_, htask, rfl, houter.trans hcurrent.symm⟩
  · rw [hb.assistant]
  · rw [hb.assistant]
    rfl
  · rw [hb.locks, hrestored.table]
  · rw [hb.locks, hrestored.users]
  · exact hb.outside
  · intro i hi
    rw [htasks, List.getElem?_set_ne (Ne.symm hi)]
  · intro moves hmoves
    have hrun := hsame.run hmoves
    exact ⟨fun i hi => hrun.outcome? hi, by rw [hrun.assistant]; rfl⟩

end Undoing

/-- A store from which records can be read, and in which none can be put. -/
def puttingFails : Tools :=
  { Tools.own with put := fun _ _ _ s => ⟨.error .storeDown, s, []⟩ }

/-- Two messages of two sessions. The first one has its session locked, the second one has not begun. -/
def twoMessages : Crowd :=
  (ofCalls (.withStore (.initial false) [] (.memory []))
    [.message (.str "a") (.str "red") .null, .message (.str "b") (.str "red") .null]).run [.goesOn 0]

/-- The task is that of a message about to be saved, in a store that there is. -/
def isSaving (a : Assistant) (t : Task) : Bool :=
  match t.point, t.call with
  | .saving _ n _, .message .. => (a.stores[n]?).isSome
  | _, _ => false

/-- The second message is read and answered, and cannot be saved. -/
theorem undone_of_fails_of_save : ∃ t, twoMessages.tasks[1]? = some t ∧
    Fails puttingFails twoMessages 1 2 .storeDown ∧
    Undone twoMessages 1 t .storeDown ((twoMessages.alone 1 2).nextWith puttingFails 1) := by
  have hsaves : (twoMessages.alone 1 2).tasks[1]?.any (isSaving (twoMessages.alone 1 2).assistant) = true := by
    decide +kernel
  obtain ⟨s, hs, hsaves⟩ := (Option.any_eq_true ..).mp hsaves
  have hfails : Fails puttingFails twoMessages 1 2 .storeDown := by
    refine ⟨s, hs, ?_⟩
    unfold isSaving at hsaves
    split at hsaves
    · rename_i use n turn id text given hp hc
      obtain ⟨store, hstore⟩ := Option.isSome_iff_exists.mp hsaves
      exact .saving hp hc ⟨store, hstore, rfl, rfl⟩
    · cases hsaves
  have htools : puttingFails.AreCalm := ⟨areCalm_own.steady, areCalm_own.quiet⟩
  have hreachable : twoMessages.IsReachable := ⟨_, _, _, rfl, rfl⟩
  exact ⟨_, rfl, hfails, undone_of_fails htools hreachable rfl rfl rfl hfails⟩

end Crowd

end Outfitter.Assistant
