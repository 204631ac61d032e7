import Outfitter.Assistant.Round
import Outfitter.Proofs.Assistant.Locks

/-!
Calls in any order of their steps.

A crowd is an assistant with calls on their way. At any time any call that need not wait for a lock may
take a step, any call may be given up, and the servers may go down or come up; a run is a list of such
moves. `next_cases` says what a move does, so that an invariant is proved by one look at `Advance` and one
at `GivesUp`.
-/

namespace Outfitter.Assistant

/-- An assistant, and calls by their numbers. -/
structure Crowd where
  assistant : Assistant
  tasks : List Task

/-- What may happen next. -/
inductive Move where
  /-- A call takes a step. -/
  | goesOn (n : Nat)
  | givesUp (n : Nat)
  /-- The servers go down or come up. -/
  | servers (down : Bool)
  deriving DecidableEq

/-- The call may take a step: it has not come to its end, and does not wait for a lock that it has not
been handed. -/
def Task.mayGoOn (t : Task) (l : Locks) : Bool :=
  match t.point with
  | .waiting use => l.holds use.lock t.number
  | .finished _ | .givenUp => false
  | _ => true

namespace Crowd

/-- Calls that are made and have not begun. -/
def ofCalls (a : Assistant) (calls : List Call) : Crowd :=
  ⟨a, calls.zipIdx.map fun (call, n) => .ofCall n a.journal.current call⟩

/-- The crowd after work on one call. -/
def after (c : Crowd) (n : Nat) (w : Work) : Crowd :=
  ⟨w.assistant, c.tasks.set n w.task⟩

/-- The crowd after a move. Nothing happens where the move is not possible. -/
def next (c : Crowd) : Move → Crowd
  | .goesOn n =>
    match c.tasks[n]? with
    | some t => if t.mayGoOn c.assistant.locks then c.after n (Work.mk c.assistant t []).next else c
    | none => c
  | .givesUp n =>
    match c.tasks[n]? with
    | some t => c.after n (Work.mk c.assistant t []).cancel
    | none => c
  | .servers down => { c with assistant := { c.assistant with down := down } }

def run (c : Crowd) (moves : List Move) : Crowd :=
  moves.foldl next c

/-- The points of all calls. -/
def points (c : Crowd) : List Point :=
  c.tasks.map (·.point)

/-- What a move of one call does: the call is at another point, and what the calls share has changed,
the journal too. -/
structure Changes (c : Crowd) (n : Nat) (t : Task) (a : Assistant) (p : Point) (c' : Crowd) : Prop where
  task : c.tasks[n]? = some t
  debugging : c'.assistant.journal.debugging = c.assistant.journal.debugging
  outside : c'.assistant.journal.current = c.assistant.journal.current
  assistant : c'.assistant = { a with journal := c'.assistant.journal }
  tasks : ∃ current owner, c'.tasks = c.tasks.set n { t with point := p, current := current, owner := owner }

theorem changes_after {c : Crowd} {n : Nat} {t : Task} {a : Assistant} {p : Point} {marks : Marks}
    (ht : c.tasks[n]? = some t) (hm : marks.Fits ⟨c.assistant, t, []⟩) :
    Changes c n t a p (c.after n ((Work.mk c.assistant t []).moved a p marks)) :=
  ⟨ht, hm.debugging, hm.outside, rfl, marks.current, marks.owner, rfl⟩

/-- A call that may go on takes a step. -/
theorem next_goesOn {c : Crowd} {n : Nat} {t : Task} (ht : c.tasks[n]? = some t)
    (hm : t.mayGoOn c.assistant.locks = true) :
    ∃ a p, Advance c.assistant t a p ∧ Changes c n t a p (c.next (.goesOn n)) := by
  obtain ⟨a, p, ha, marks, hf, he⟩ := next_advances ⟨c.assistant, t, []⟩
  refine ⟨a, p, ha, ?_⟩
  simp only [next, ht, hm, if_true, he]
  exact changes_after ht hf

theorem next_goesOn_of_not {c : Crowd} {n : Nat} (h : ∀ t ∈ c.tasks[n]?, t.mayGoOn c.assistant.locks = false) :
    c.next (.goesOn n) = c := by
  cases ht : c.tasks[n]? with
  | none => simp only [next, ht]
  | some t => simp only [next, ht, h t ht, if_neg Bool.false_ne_true]

theorem next_givesUp {c : Crowd} {n : Nat} {t : Task} (ht : c.tasks[n]? = some t) :
    ∃ a p, GivesUp c.assistant t a p ∧ Changes c n t a p (c.next (.givesUp n)) := by
  obtain ⟨a, p, ha, marks, hf, he⟩ := cancel_givesUp ⟨c.assistant, t, []⟩
  refine ⟨a, p, ha, ?_⟩
  simp only [next, ht, he]
  exact changes_after ht hf

theorem next_givesUp_of_none {c : Crowd} {n : Nat} (h : c.tasks[n]? = none) : c.next (.givesUp n) = c := by
  simp only [next, h]

/-- **What a move does**: nothing, a step of a call, giving up a call, or a change of the servers. -/
theorem next_cases (c : Crowd) (m : Move) :
    c.next m = c ∨
    (∃ n t a p, m = .goesOn n ∧ t.mayGoOn c.assistant.locks = true ∧ Advance c.assistant t a p ∧
      Changes c n t a p (c.next m)) ∨
    (∃ n t a p, m = .givesUp n ∧ GivesUp c.assistant t a p ∧ Changes c n t a p (c.next m)) ∨
    ∃ down, m = .servers down ∧ c.next m = { c with assistant := { c.assistant with down := down } } := by
  cases m with
  | goesOn n =>
    by_cases hm : ∃ t ∈ c.tasks[n]?, t.mayGoOn c.assistant.locks = true
    · obtain ⟨t, ht, hm⟩ := hm
      obtain ⟨a, p, ha, hch⟩ := next_goesOn ht hm
      exact .inr (.inl ⟨n, t, a, p, rfl, hm, ha, hch⟩)
    · exact .inl (next_goesOn_of_not fun t ht => Bool.eq_false_iff.mpr fun h => hm ⟨t, ht, h⟩)
  | givesUp n =>
    cases ht : c.tasks[n]? with
    | none => exact .inl (next_givesUp_of_none ht)
    | some t =>
      obtain ⟨a, p, ha, hch⟩ := next_givesUp ht
      exact .inr (.inr (.inl ⟨n, t, a, p, rfl, ha, hch⟩))
  | servers down => exact .inr (.inr (.inr ⟨down, rfl, rfl⟩))

theorem run_append (c : Crowd) (moves more : List Move) :
    c.run (moves ++ more) = (c.run moves).run more :=
  List.foldl_append ..

/-- What every move keeps holds after every run. -/
theorem run_induction {P : Crowd → Prop} {c : Crowd} (h : P c) (hn : ∀ c m, P c → P (c.next m))
    (moves : List Move) : P (c.run moves) := by
  induction moves generalizing c with
  | nil => exact h
  | cons m moves ih => exact ih (hn c m h)

/-! ### numbers -/

/-- Every call is known by its place. -/
def Numbered (c : Crowd) : Prop :=
  ∀ (n : Nat) (t : Task), c.tasks[n]? = some t → t.number = n

theorem Changes.point {c c' : Crowd} {n : Nat} {t : Task} {a : Assistant} {p : Point}
    (h : Changes c n t a p c') : c'.points = c.points.set n p := by
  obtain ⟨current, owner, ht⟩ := h.tasks
  unfold points
  rw [ht, List.map_set]

/-- The point of a call stands at its place. -/
theorem getElem?_points {c : Crowd} {n : Nat} {t : Task} (ht : c.tasks[n]? = some t) :
    c.points[n]? = some t.point := by
  unfold points
  rw [List.getElem?_map, ht]
  rfl

theorem Changes.old_point {c c' : Crowd} {n : Nat} {t : Task} {a : Assistant} {p : Point}
    (h : Changes c n t a p c') : c.points[n]? = some t.point :=
  getElem?_points h.task

/-- A call after a move: the one that has moved, or one as it was. -/
theorem Changes.task_cases {c c' : Crowd} {n : Nat} {t : Task} {a : Assistant} {p : Point}
    (h : Changes c n t a p c') {i : Nat} {s : Task} (hs : c'.tasks[i]? = some s) :
    (i = n ∧ s.number = t.number ∧ s.call = t.call ∧ s.point = p) ∨ (i ≠ n ∧ c.tasks[i]? = some s) := by
  obtain ⟨current, owner, ht⟩ := h.tasks
  rw [ht] at hs
  by_cases hi : i = n
  · subst hi
    rw [List.getElem?_set_self', h.task] at hs
    obtain rfl := Option.some.inj hs
    exact .inl ⟨rfl, rfl, rfl, rfl⟩
  · rw [List.getElem?_set_ne (Ne.symm hi)] at hs
    exact .inr ⟨hi, hs⟩

theorem numbered_ofCalls (a : Assistant) (calls : List Call) : (ofCalls a calls).Numbered := by
  intro n t ht
  unfold ofCalls at ht
  rw [List.getElem?_map] at ht
  obtain ⟨⟨call, i⟩, hz, rfl⟩ := Option.map_eq_some_iff.mp ht
  rw [List.getElem?_zipIdx] at hz
  obtain ⟨_, -, he⟩ := Option.map_eq_some_iff.mp hz
  have : 0 + n = i := congrArg Prod.snd he
  exact this.symm.trans (Nat.zero_add n)

theorem Changes.numbered {c c' : Crowd} {n : Nat} {t : Task} {a : Assistant} {p : Point}
    (h : Changes c n t a p c') (hc : c.Numbered) : c'.Numbered := by
  intro i s hs
  rcases h.task_cases hs with ⟨rfl, hn, -⟩ | ⟨-, hs⟩
  · exact hn.trans (hc i t h.task)
  · exact hc i s hs

end Crowd

end Outfitter.Assistant
