import Outfitter.Proofs.Journal.Steady
import Outfitter.Proofs.Journal.Writable

/-!
Stages and turns, and a turn around one stage.

What the beginning and the end of a stage or a turn leave in the context is told apart from the entries
(`runFrom_stageEnds`, `runFrom_turnEnds`). A computation is *quiet* if it leaves the current trace as it is.
A stage around a quiet computation leaves one record in the trace. A turn around a computation that leaves few
records can tell their number at its end, and comes to what the computation comes to (`outcome_inTurn`).
-/

namespace Outfitter.Journal

/-- How a stage ends that a fault leaves, or none. -/
def StageEnd.ofFault : Option Fault → StageEnd
  | none => well
  | some f => failed f.message

namespace Context

/-- An entry changes nothing but the entries. -/
theorem exists_push (c : Context) (e : Entry) : ∃ entries, c.push e = { c with entries := entries } := by
  unfold push
  split
  · exact ⟨_, rfl⟩
  · exact ⟨c.entries, rfl⟩

theorem current_push (c : Context) (e : Entry) : (c.push e).current = c.current := by
  obtain ⟨entries, h⟩ := c.exists_push e
  rw [h]

/-- A stage of the turn that is going on is recorded in its trace. -/
theorem credit_turn? (c : Context) (r : StageRecord) :
    c.credit c.turn? r = { c with current := c.current.map fun t => { t with stages := t.stages ++ [r] } } := by
  unfold credit turn?
  cases c.current with
  | none => rfl
  | some t => rw [Option.map_some, Option.map_some, if_pos rfl, Option.map_some]

end Context

namespace Traced

variable {α β : Type}

/-! ### beginnings and ends -/

theorem runFrom_bind_of_eq {x : Traced α} {c c' : Context} {a : α} (h : x.runFrom c = (.ok a, c'))
    (f : α → Traced β) : (x >>= f).runFrom c = (f a).runFrom c' := by
  rw [runFrom_bind, h]

/-- An entry that can be written if it is kept changes nothing else. -/
theorem runFrom_note_of_writable {e : Entry} {c : Context}
    (h : e.isKept c.debugging = true → e.isWritable = true) :
    ∃ entries, (note e).runFrom c = (.ok (), { c with entries := entries }) := by
  rw [runFrom_note]
  split
  · next hkept =>
    rw [if_pos (h hkept)]
    obtain ⟨entries, hpush⟩ := c.exists_push e
    exact ⟨entries, congrArg _ hpush⟩
  · exact ⟨_, rfl⟩

theorem runFrom_stageStarts (stage description : String) (c : Context) :
    ∃ entries, (stageStarts stage description).runFrom c = (.ok (), { c with entries := entries }) :=
  runFrom_note_of_writable fun _ => rfl

/-- The end of a stage adds its record to the trace of its turn. -/
theorem runFrom_stageEnds (owner : Option String) (stage description : String) (f : Option Fault) (c : Context) :
    ∃ entries, (stageEnds owner stage description f).runFrom c =
      (.ok (), { c.credit owner ⟨stage, description, .ofFault f⟩ with entries := entries }) := by
  have hends : ∀ (e : Entry) (ending : StageEnd), e.isWritable = true →
      ∃ entries, (note e >>= fun _ => record owner stage description ending).runFrom c =
        (.ok (), { c.credit owner ⟨stage, description, ending⟩ with entries := entries }) := by
    intro e ending he
    obtain ⟨entries, hnote⟩ := runFrom_note_of_writable (c := c) fun _ => he
    refine ⟨entries, ?_⟩
    rw [runFrom_bind_of_eq hnote]
    rfl
  cases f with
  | none => exact hends _ _ rfl
  | some f => exact hends _ _ rfl

/-- A turn begins with a trace without records. -/
theorem runFrom_turnStarts {text session source : Value}
    (h : (Entry.request text session source).isWritable = true) (c : Context) :
    ∃ entries, (turnStarts text session source).runFrom c = (.ok (), { c with
      current := some ⟨turnId c.begun, text, session, []⟩, begun := c.begun + 1, entries := entries }) := by
  let c₁ : Context := { c with current := some ⟨turnId c.begun, text, session, []⟩, begun := c.begun + 1 }
  have hmodify : (modify fun c : Context => { c with
      current := some ⟨turnId c.begun, text, session, []⟩, begun := c.begun + 1 } : Traced Unit).runFrom c =
        (.ok (), c₁) := rfl
  obtain ⟨entries, hnote⟩ := runFrom_note_of_writable (e := .request text session source) (c := c₁) fun _ => h
  refine ⟨entries, ?_⟩
  unfold turnStarts
  rw [runFrom_bind_of_eq hmodify, hnote]

/-- The number of the stages of a turn can be told if it is not too long. -/
theorem isWritable_complete {stages : Nat} (h : Numeral.isShort stages = true) :
    (Entry.info "API" "turn complete (0ms)" [("total_stages", .int stages)]).isWritable = true :=
  Entry.isWritable_of_data (Bool.and_eq_true_iff.mpr ⟨h, rfl⟩)

/-- The trace of a turn has ended with the turn, and the one before it is the current one again. -/
theorem runFrom_turnEnds (before : Option Trace) {c : Context}
    (h : c.debugging = true → Numeral.isShort ((c.current.map Trace.stages).getD []).length = true) :
    ∃ entries, (turnEnds before).runFrom c = (.ok (), { c with
      current := before, ended := c.ended ++ c.current.toList, entries := entries }) := by
  have hget : (get : Traced Context).runFrom c = (.ok c, c) := rfl
  -- nobody else is told
  have hkept : ∀ data, (Entry.info "API" "turn complete (0ms)" data).isKept c.debugging = true →
      c.debugging = true := by
    intro data hkept
    rwa [Entry.isKept_info, show Entry.lastingMessages.any (·.isPrefixOf "turn complete (0ms)") = false by
      decide +kernel, Bool.or_false] at hkept
  obtain ⟨entries, hnote⟩ := runFrom_note_of_writable (c := c) fun hk => isWritable_complete (h (hkept _ hk))
  refine ⟨entries, ?_⟩
  unfold turnEnds
  rw [runFrom_bind_of_eq hget]
  show (note _ >>= fun _ => _ : Traced Unit).runFrom c = _
  rw [runFrom_bind_of_eq hnote]
  rfl

theorem runFrom_liftExcept (e : Except Fault α) (c : Context) : (liftExcept e : Traced α).runFrom c = (e, c) := by
  cases e <;> rfl

theorem runFrom_observe {x : Traced α} {c c' : Context} {r : Except Fault α} (h : x.runFrom c = (r, c')) :
    x.observe.runFrom c = (.ok r, c') :=
  congrArg (fun p => (Except.ok p.1, p.2)) h

/-- **A stage comes to what it is around**, and leaves a record behind for the turn under which it began. -/
theorem runFrom_inStage {stage description : String} {x : Traced α} {c d e : Context} {r : Except Fault α}
    (hd : (stageStarts stage description).runFrom c = (.ok (), d)) (hx : x.runFrom d = (r, e)) :
    ∃ entries, (x.inStage stage description).runFrom c = (r,
      { e.credit c.turn? ⟨stage, description, .ofFault (faultOf r)⟩ with entries := entries }) := by
  obtain ⟨entries, hends⟩ := runFrom_stageEnds c.turn? stage description (faultOf r) e
  refine ⟨entries, ?_⟩
  rw [runFrom_inStage_eq]
  unfold Traced.stageOf
  rw [runFrom_bind_of_eq hd, runFrom_bind_of_eq (runFrom_observe hx), runFrom_bind_of_eq hends,
    runFrom_liftExcept]

/-- **A turn comes to what it is around**, and the trace before it is the current one again. -/
theorem runFrom_inTurn {text session source : Value} {x : Traced α} {c d e : Context} {r : Except Fault α}
    (hd : (turnStarts text session source).runFrom c = (.ok (), d)) (hx : x.runFrom d = (r, e))
    (hshort : e.debugging = true → Numeral.isShort ((e.current.map Trace.stages).getD []).length = true) :
    ∃ entries, (x.inTurn text session source).runFrom c = (r, { e with
      current := c.current, ended := e.ended ++ e.current.toList, entries := entries }) := by
  have hget : (get : Traced Context).runFrom c = (.ok c, c) := rfl
  obtain ⟨entries, hends⟩ := runFrom_turnEnds c.current hshort
  refine ⟨entries, ?_⟩
  unfold inTurn
  rw [runFrom_bind_of_eq hget]
  show Traced.runFrom (turnStarts text session source >>= fun _ => x.observe >>= fun outcome =>
    turnEnds c.current >>= fun _ => liftExcept outcome) c = _
  rw [runFrom_bind_of_eq hd, runFrom_bind_of_eq (runFrom_observe hx), runFrom_bind_of_eq hends,
    runFrom_liftExcept]

/-! ### quiet computations -/

/-- The computation leaves the current trace as it is. -/
def Quiet (x : Traced α) : Prop :=
  ∀ c, (x.runFrom c).2.current = c.current

theorem Quiet.bind {x : Traced α} {f : α → Traced β} (hx : Quiet x) (hf : ∀ a, Quiet (f a)) :
    Quiet (x >>= f) := by
  intro c
  have hc := hx c
  rw [runFrom_bind]
  rcases h : x.runFrom c with ⟨r, c'⟩
  rw [h] at hc
  cases r with
  | error e => exact hc
  | ok a => exact (hf a c').trans hc

theorem quiet_pure (a : α) : Quiet (pure a) :=
  fun _ => rfl

theorem quiet_liftExcept (e : Except Fault α) : Quiet (liftExcept e) := by
  cases e <;> exact fun _ => rfl

theorem quiet_note (e : Entry) : Quiet (note e) := by
  intro c
  rw [runFrom_note]
  split
  · split
    · exact c.current_push e
    · rfl
  · rfl

theorem Quiet.observe {x : Traced α} (hx : Quiet x) : Quiet x.observe :=
  hx

/-! ### how far a trace grows -/

/-- There is a trace, with so many records at the most. -/
def Few (most : Nat) (trace : Option Trace) : Prop :=
  ∃ t ∈ trace, t.stages.length ≤ most

theorem Few.mono {n m : Nat} {trace : Option Trace} (h : Few n trace) (hm : n ≤ m) : Few m trace := by
  obtain ⟨t, ht, hlen⟩ := h
  exact ⟨t, ht, Nat.le_trans hlen hm⟩

/-- The computation leaves so many records in the current trace at the most, whatever it comes to. -/
def Grows (k : Nat) (x : Traced α) : Prop :=
  ∀ c n, Few n c.current → Few (n + k) (x.runFrom c).2.current

theorem Quiet.grows {x : Traced α} (h : Quiet x) : Grows 0 x := by
  intro c n hc
  rw [h c]
  exact hc

theorem Grows.mono {j k : Nat} {x : Traced α} (h : Grows j x) (hk : j ≤ k) : Grows k x :=
  fun c n hc => (h c n hc).mono (Nat.add_le_add_left hk n)

theorem Grows.bind {j k : Nat} {x : Traced α} {f : α → Traced β} (hx : Grows j x) (hf : ∀ a, Grows k (f a)) :
    Grows (j + k) (x >>= f) := by
  intro c n hc
  have hgrown := hx c n hc
  rw [runFrom_bind]
  rcases h : x.runFrom c with ⟨r, c'⟩
  rw [h] at hgrown
  cases r with
  | error e => exact hgrown.mono (Nat.add_le_add_left (Nat.le_add_right j k) n)
  | ok a =>
    rw [← Nat.add_assoc]
    exact hf a c' _ hgrown

/-- A record is left in the current trace, or in none. -/
theorem grows_record (owner : Option String) (stage description : String) (ending : StageEnd) :
    Grows 1 (record owner stage description ending) := by
  intro c n hc
  obtain ⟨t, ht, hlen⟩ := hc
  have hcredit : ((record owner stage description ending).runFrom c).2.current =
      (c.credit owner ⟨stage, description, ending⟩).current := rfl
  rw [hcredit]
  unfold Context.credit
  rw [Option.mem_def.mp ht]
  refine ⟨_, rfl, ?_⟩
  dsimp only
  split
  · rw [List.length_append]
    exact Nat.add_le_add_right hlen 1
  · exact Nat.le_succ_of_le hlen

theorem grows_stageEnds (owner : Option String) (stage description : String) (f : Option Fault) :
    Grows 1 (stageEnds owner stage description f) := by
  cases f <;> exact (quiet_note _).grows.bind fun _ => grows_record _ _ _ _

/-- A stage around a quiet computation leaves one record. -/
theorem Quiet.grows_inStage {x : Traced α} (hx : Quiet x) (stage description : String) :
    Grows 1 (x.inStage stage description) := by
  have hstage : ∀ owner, Grows 1 (x.stageOf owner stage description) := fun owner =>
    (quiet_note _).grows.bind fun _ => hx.observe.grows.bind fun r => (grows_stageEnds _ _ _ _).bind fun _ =>
      (quiet_liftExcept r).grows
  intro c
  rw [runFrom_inStage_eq]
  exact hstage _ c

/-! ### turns -/

/-- The most records that a turn leaves: it loads the session, reads the message, plans the reply and saves
the session. -/
def maxRecords : Nat :=
  4

theorem Few.isShort {trace : Option Trace} (h : Few maxRecords trace) :
    Numeral.isShort ((trace.map Trace.stages).getD []).length = true := by
  obtain ⟨t, ht, hlen⟩ := h
  have hmax : Numeral.isShort maxRecords = true := by decide +kernel
  rw [Option.mem_def.mp ht]
  exact Numeral.isShort_of_le hmax hlen

/-- At the end of a turn of few stages the trace before it is the current one again. -/
theorem current_turnEnds (before : Option Trace) {c : Context} (hc : Few maxRecords c.current) :
    ((turnEnds before).runFrom c).2.current = before := by
  obtain ⟨entries, hends⟩ := runFrom_turnEnds before fun _ => hc.isShort
  rw [hends]

/-- **A turn comes to what it is around**, if that leaves few records. -/
theorem outcome_inTurn {x : Traced α} (hx : Steady x) (hg : Grows maxRecords x) {text session source : Value}
    (hrequest : (Entry.request text session source).isWritable = true) (c : Context) :
    ((x.inTurn text session source).runFrom c).1 = x.outcomeWhen c.debugging := by
  obtain ⟨before, hstarts⟩ := runFrom_turnStarts hrequest c
  generalize hd : { c with
    current := some ⟨turnId c.begun, text, session, []⟩, begun := c.begun + 1, entries := before } = d at hstarts
  have hdebugging : d.debugging = c.debugging := hd ▸ rfl
  have hcurrent : d.current = some ⟨turnId c.begun, text, session, []⟩ := hd ▸ rfl
  have houtcome := hx.outcome d
  have hfew := hg d 0 ⟨_, hcurrent, Nat.le_refl 0⟩
  rcases hx₁ : x.runFrom d with ⟨r, e⟩
  rw [hx₁, Nat.zero_add] at hfew
  rw [hx₁, hdebugging] at houtcome
  obtain ⟨after, hturn⟩ := runFrom_inTurn hstarts hx₁ fun _ => hfew.isShort
  rw [hturn]
  exact houtcome

end Traced

end Outfitter.Journal
