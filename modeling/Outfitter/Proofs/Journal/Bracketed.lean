import Outfitter.Journal.Program
import Outfitter.Proofs.Journal.Turns
import Outfitter.Proofs.Number.Decimal

/-!
What is recorded of programs of turns and stages.

A stage is recorded for the turn under which it began, and that turn is going on again when the stage ends: a
turn leaves the current trace as it was, however it ends, and so does any program but for the records of its own
stages. So the trace of each turn holds the records of the stages that began under it, in the order in which
they ended, and no others, and a stage that begins under no trace is recorded nowhere
(`tracing_well_bracketed`).
-/

namespace Outfitter.Journal

/-! ### identifiers of turns -/

/-- No two turns have the same identifier. -/
theorem turnId_injective {m n : Nat} (h : turnId m = turnId n) : m = n := by
  have hhex := congrArg String.toList h
  simp only [turnId, String.toList_append, String.toList_ofList, List.append_left_inj] at hhex
  exact Nat.succ.inj (Text.hex_injective hhex)

/-- The turn that is going on is one of those that have begun. -/
def Context.IsNumbered (c : Context) : Prop :=
  ∀ id ∈ c.turn?, ∃ k < c.begun, id = turnId k

theorem Context.IsNumbered.turn?_ne {c : Context} (h : c.IsNumbered) {k : Nat} (hk : c.begun ≤ k) :
    c.turn? ≠ some (turnId k) := by
  intro hturn
  obtain ⟨j, hj, hid⟩ := h _ hturn
  have hjk := turnId_injective hid
  omega

/-! ### stages that have ended -/

/-- A stage that has ended. -/
structure EndedStage where
  /-- The identifier of the turn that was going on when the stage began. -/
  turn : Option String
  record : StageRecord

/-- The records of the stages that began under a turn. -/
def recordsOf (id : String) (stages : List EndedStage) : List StageRecord :=
  (stages.filter (·.turn == some id)).map (·.record)

theorem recordsOf_append (id : String) (xs ys : List EndedStage) :
    recordsOf id (xs ++ ys) = recordsOf id xs ++ recordsOf id ys := by
  unfold recordsOf
  rw [List.filter_append, List.map_append]

theorem recordsOf_eq_nil {id : String} {stages : List EndedStage} (h : ∀ s ∈ stages, s.turn ≠ some id) :
    recordsOf id stages = [] := by
  have hnone : stages.filter (·.turn == some id) = [] :=
    List.filter_eq_nil_iff.mpr fun s hs => fun heq => h s hs (eq_of_beq heq)
  unfold recordsOf
  rw [hnone, List.map_nil]

theorem length_recordsOf_le (id : String) (stages : List EndedStage) :
    (recordsOf id stages).length ≤ stages.length := by
  unfold recordsOf
  rw [List.length_map]
  exact List.length_filter_le ..

/-! ### stages that are recorded -/

/-- The stages have been recorded between two contexts. -/
structure Recorded (before after : Context) (stages : List EndedStage) : Prop where
  debugging : after.debugging = before.debugging
  begun : before.begun ≤ after.begun
  /-- The trace that goes on has the records of its stages added to it. -/
  current : after.current = before.current.map fun t => { t with stages := t.stages ++ recordsOf t.id stages }
  /-- The turns that began have ended, each once, and their traces hold the records of their stages. -/
  ended : ∃ more, after.ended = before.ended ++ more ∧ (∀ t ∈ more, t.stages = recordsOf t.id stages) ∧
    (more.map (·.id)).Perm ((List.range' before.begun (after.begun - before.begun)).map turnId)
  /-- A stage began under the trace that goes on, if there is one, or in a turn that began meanwhile. -/
  owners : ∀ s ∈ stages, s.turn = before.turn? ∨
    ∃ k, before.begun ≤ k ∧ k < after.begun ∧ s.turn = some (turnId k)

namespace Recorded

variable {c d e : Context} {stages xs ys : List EndedStage}

theorem nil (c : Context) : Recorded c c [] where
  debugging := rfl
  begun := Nat.le_refl _
  current := by
    have hsame : (fun t : Trace => { t with stages := t.stages ++ recordsOf t.id [] }) = id :=
      funext fun t => congrArg (fun stages => { t with stages := stages }) (List.append_nil t.stages)
    rw [hsame, Option.map_id, id]
  ended := ⟨[], (List.append_nil _).symm, nofun, by rw [Nat.sub_self]; exact .nil⟩
  owners := nofun

theorem turn?_eq (h : Recorded c d stages) : d.turn? = c.turn? := by
  unfold Context.turn?
  rw [h.current, Option.map_map]
  rfl

theorem numbered (h : Recorded c d stages) (hc : c.IsNumbered) : d.IsNumbered := by
  intro id hid
  rw [h.turn?_eq] at hid
  obtain ⟨k, hk, hid⟩ := hc id hid
  exact ⟨k, Nat.lt_of_lt_of_le hk h.begun, hid⟩

/-- No stage began under a turn that was over before, or has yet to begin. -/
theorem recordsOf_eq_nil (h : Recorded c d stages) {k : Nat} (hturn : c.turn? ≠ some (turnId k))
    (hk : k < c.begun ∨ d.begun ≤ k) : recordsOf (turnId k) stages = [] := by
  refine Journal.recordsOf_eq_nil fun s hs heq => ?_
  rcases h.owners s hs with howner | ⟨j, hj, hj', howner⟩
  · exact hturn (howner.symm.trans heq)
  · have hjk := turnId_injective (Option.some.inj (howner.symm.trans heq))
    omega

/-- The turns that have ended are those that began. -/
theorem id_of_ended {m n : Nat} {more : List Trace}
    (h : (more.map (·.id)).Perm ((List.range' m (n - m)).map turnId)) {t : Trace} (ht : t ∈ more) :
    ∃ k, m ≤ k ∧ k < n ∧ t.id = turnId k := by
  obtain ⟨k, hk, hid⟩ := List.mem_map.mp (h.mem_iff.mp (List.mem_map_of_mem ht))
  have hrange := List.mem_range'_1.mp hk
  exact ⟨k, hrange.1, by omega, hid.symm⟩

/-- **Stages one after the other.** -/
theorem trans (hc : c.IsNumbered) (h : Recorded c d xs) (h' : Recorded d e ys) : Recorded c e (xs ++ ys) where
  debugging := h'.debugging.trans h.debugging
  begun := Nat.le_trans h.begun h'.begun
  current := by
    rw [h'.current, h.current, Option.map_map]
    refine congrArg (Option.map · c.current) (funext fun t => ?_)
    show { t with stages := t.stages ++ recordsOf t.id xs ++ recordsOf t.id ys } = _
    rw [recordsOf_append, List.append_assoc]
  ended := by
    obtain ⟨more, hmore, hstages, hids⟩ := h.ended
    obtain ⟨more', hmore', hstages', hids'⟩ := h'.ended
    refine ⟨more ++ more', by rw [hmore', hmore, List.append_assoc], fun t ht => ?_, ?_⟩
    · rw [recordsOf_append]
      rcases List.mem_append.mp ht with ht | ht
      · -- its turn was over when the later stages began
        obtain ⟨k, hk, hk', hid⟩ := id_of_ended hids ht
        have hturn : d.turn? ≠ some (turnId k) := h.turn?_eq ▸ hc.turn?_ne hk
        rw [hstages t ht, hid, h'.recordsOf_eq_nil hturn (.inl hk'), List.append_nil]
      · -- its turn had yet to begin when the earlier stages ended
        obtain ⟨k, hk, -, hid⟩ := id_of_ended hids' ht
        have hturn : c.turn? ≠ some (turnId k) := hc.turn?_ne (Nat.le_trans h.begun hk)
        rw [hstages' t ht, hid, h.recordsOf_eq_nil hturn (.inr hk), List.nil_append]
    · have hrange : List.range' c.begun (e.begun - c.begun) =
          List.range' c.begun (d.begun - c.begun) ++ List.range' d.begun (e.begun - d.begun) := by
        have hle := h.begun
        have hle' := h'.begun
        have hsum : e.begun - c.begun = (d.begun - c.begun) + (e.begun - d.begun) := by omega
        have hstart : d.begun = c.begun + (d.begun - c.begun) := by omega
        rw [hsum, ← List.range'_append_1, ← hstart]
      rw [hrange, List.map_append, List.map_append]
      exact hids.append hids'
  owners := by
    intro s hs
    rcases List.mem_append.mp hs with hs | hs
    · refine (h.owners s hs).imp_right fun ⟨k, hk, hk', hturn⟩ => ?_
      exact ⟨k, hk, Nat.lt_of_lt_of_le hk' h'.begun, hturn⟩
    · rcases h'.owners s hs with hturn | ⟨k, hk, hk', hturn⟩
      · exact .inl (hturn.trans h.turn?_eq)
      · exact .inr ⟨k, Nat.le_trans h.begun hk, hk', hturn⟩

/-- The record of a stage, added to the trace that goes on. -/
theorem single (c : Context) (record : StageRecord) (entries : List Entry) :
    Recorded c { c with
      current := c.current.map fun t => { t with stages := t.stages ++ [record] }, entries := entries }
      [⟨c.turn?, record⟩] where
  debugging := rfl
  begun := Nat.le_refl _
  current := by
    refine Option.map_congr fun t ht => ?_
    have hturn : c.turn? = some t.id := congrArg (Option.map Trace.id) ht
    have hrecords : recordsOf t.id [⟨c.turn?, record⟩] = [record] := by
      unfold recordsOf
      rw [List.filter_singleton, hturn, beq_self_eq_true]
      rfl
    rw [hrecords]
  ended := ⟨[], (List.append_nil _).symm, nofun, by rw [Nat.sub_self]; exact .nil⟩
  owners := fun s hs => .inl (by rw [List.mem_singleton.mp hs])

/-- A stage, after those within it. -/
theorem inStage {record : StageRecord} {entries entries' : List Entry} (hc : c.IsNumbered)
    (h : Recorded { c with entries := entries } d stages) :
    Recorded c { d.credit c.turn? record with entries := entries' } (stages ++ [⟨c.turn?, record⟩]) := by
  have hinside : Recorded c d stages := ⟨h.debugging, h.begun, h.current, h.ended, h.owners⟩
  -- the turns within the stage have left its own trace the current one
  have hsingle := single d record entries'
  have htrace := d.credit_turn? record
  rw [hinside.turn?_eq] at hsingle htrace
  rw [htrace]
  exact hinside.trans hc hsingle

theorem length_le (h : Recorded c d stages) {t : Trace} (hc : c.current = some t) (ht : t.stages = []) :
    ((d.current.map Trace.stages).getD []).length ≤ stages.length := by
  rw [h.current, hc]
  show (t.stages ++ recordsOf t.id stages).length ≤ _
  rw [ht, List.nil_append]
  exact length_recordsOf_le ..

/-- The stages within a turn. -/
theorem inTurn {text session : Value} {entries entries' : List Entry} (hc : c.IsNumbered)
    (h : Recorded { c with
      current := some ⟨turnId c.begun, text, session, []⟩, begun := c.begun + 1, entries := entries } d stages) :
    Recorded c { d with current := c.current, ended := d.ended ++ d.current.toList, entries := entries' }
      stages where
  debugging := h.debugging
  begun := Nat.le_of_succ_le h.begun
  current := by
    -- the turn that goes on around this one is an older one
    have hrecords : ∀ t ∈ c.current, recordsOf t.id stages = [] := by
      intro t ht
      have hturn : c.turn? = some t.id := congrArg (Option.map Trace.id) ht
      obtain ⟨k, hk, hid⟩ := hc t.id hturn
      have hne : some (turnId c.begun) ≠ some (turnId k) := by
        intro heq
        have hck := turnId_injective (Option.some.inj heq)
        omega
      rw [hid]
      exact h.recordsOf_eq_nil hne (.inl (Nat.lt_succ_of_lt hk))
    refine Eq.trans ?_ (Option.map_congr fun t ht => by rw [hrecords t ht])
    exact (Recorded.nil c).current
  ended := by
    obtain ⟨more, hmore, hstages, hids⟩ := h.ended
    have hcurrent : d.current =
        some ⟨turnId c.begun, text, session, recordsOf (turnId c.begun) stages⟩ := h.current
    refine ⟨more ++ d.current.toList, ?_, fun t ht => ?_, ?_⟩
    · show d.ended ++ d.current.toList = c.ended ++ (more ++ d.current.toList)
      rw [hmore, List.append_assoc]
    · rcases List.mem_append.mp ht with ht | ht
      · exact hstages t ht
      · rw [hcurrent] at ht
        rw [List.mem_singleton.mp ht]
    · have hbegun : c.begun + 1 ≤ d.begun := h.begun
      have hcount : d.begun - c.begun = (d.begun - (c.begun + 1)) + 1 := by omega
      show ((more ++ d.current.toList).map (·.id)).Perm ((List.range' c.begun (d.begun - c.begun)).map turnId)
      rw [hcount, List.range'_succ, List.map_cons, List.map_append, hcurrent]
      exact (List.perm_append_singleton ..).trans (hids.cons _)
  owners := by
    intro s hs
    rcases h.owners s hs with hturn | ⟨k, hk, hk', hturn⟩
    · exact .inr ⟨c.begun, Nat.le_refl _, h.begun, hturn⟩
    · exact .inr ⟨k, Nat.le_of_succ_le hk, hk', hturn⟩

end Recorded

/-! ### programs -/

/-- The request of a turn that is given texts can be written. -/
theorem isWritable_request (text session source : String) :
    (Entry.request (.str text) (.str session) (.str source)).isWritable = true :=
  Entry.isWritable_of_data rfl

namespace Program

/-- What a program comes to. -/
def outcome : Program → Except Fault Unit
  | nothing => .ok ()
  | fail reason => .error (.raised reason)
  | andThen first second => do
    first.outcome
    second.outcome
  | stage _ _ body => body.outcome
  | turn _ _ _ body => body.outcome
  | caught _ => .ok ()

/-- The stages of a program that is run in a context, in the order in which they end. -/
def stages : Program → Context → List EndedStage
  | nothing, _ => []
  | fail _, _ => []
  | andThen first second, c =>
    first.stages c ++
      match first.outcome with
      | .ok () => second.stages (first.run.runFrom c).2
      | .error _ => []
  | stage name description body, c =>
    body.stages ((Traced.stageStarts name description).runFrom c).2 ++
      [⟨c.turn?, name, description, .ofFault (Traced.faultOf body.outcome)⟩]
  | turn text session source body, c => body.stages ((Traced.turnStarts text session source).runFrom c).2
  | caught body, c => body.stages c

/-- As the program is run in a context, a part of it begins in another. -/
inductive Begins : Program → Context → Program → Context → Prop where
  | whole (p : Program) (c : Context) : Begins p c p c
  | first {first second part : Program} {c d : Context} (h : Begins first c part d) :
    Begins (.andThen first second) c part d
  | second {first second part : Program} {c d : Context} (hfirst : first.outcome = .ok ())
    (h : Begins second (first.run.runFrom c).2 part d) : Begins (.andThen first second) c part d
  | inStage {name description : String} {body part : Program} {c d : Context}
    (h : Begins body ((Traced.stageStarts name description).runFrom c).2 part d) :
    Begins (.stage name description body) c part d
  | inTurn {text session source : Value} {body part : Program} {c d : Context}
    (h : Begins body ((Traced.turnStarts text session source).runFrom c).2 part d) :
    Begins (.turn text session source body) c part d
  | inCaught {body part : Program} {c d : Context} (h : Begins body c part d) : Begins (.caught body) c part d

/-- How many stages stand in the program. -/
def count : Program → Nat
  | nothing => 0
  | fail _ => 0
  | andThen first second => first.count + second.count
  | stage _ _ body => body.count + 1
  | turn _ _ _ body => body.count
  | caught body => body.count

theorem length_stages_le (p : Program) (c : Context) : (p.stages c).length ≤ p.count := by
  induction p generalizing c with
  | nothing => exact Nat.le_refl 0
  | fail reason => exact Nat.le_refl 0
  | andThen first second hfirst hsecond =>
    unfold stages count
    rw [List.length_append]
    refine Nat.add_le_add (hfirst c) ?_
    cases first.outcome with
    | ok u => exact hsecond _
    | error f => exact Nat.zero_le _
  | stage name description body hbody =>
    unfold stages count
    rw [List.length_append]
    exact Nat.add_le_add_right (hbody _) 1
  | turn text session source body hbody => exact hbody _
  | caught body hbody => exact hbody c

/-- The requests of all turns can be written, as those that are made of texts can (`isWritable_request`). -/
def IsLegible : Program → Prop
  | nothing => True
  | fail _ => True
  | andThen first second => first.IsLegible ∧ second.IsLegible
  | stage _ _ body => body.IsLegible
  | turn text session source body => (Entry.request text session source).isWritable = true ∧ body.IsLegible
  | caught body => body.IsLegible

/-- What is told of a program that is run in a context can be written. -/
structure Traceable (p : Program) (c : Context) : Prop where
  legible : p.IsLegible
  numbered : c.IsNumbered
  /-- Who debugs is told the number of the stages of each turn. -/
  short : c.debugging = true → Numeral.isShort p.count = true

namespace Traceable

variable {p q first second body : Program} {c d : Context} {name description : String}
  {text session source : Value}

/-- What stands in a program has no more stages than the program. -/
theorem part (h : p.Traceable c) (hq : q.IsLegible) (hd : d.IsNumbered) (hdebugging : d.debugging = c.debugging)
    (hcount : q.count ≤ p.count) : q.Traceable d :=
  ⟨hq, hd, fun hd => Numeral.isShort_of_le (h.short (hdebugging ▸ hd)) hcount⟩

theorem left (h : (andThen first second).Traceable c) : first.Traceable c :=
  h.part h.legible.1 h.numbered rfl (Nat.le_add_right ..)

theorem right (h : (andThen first second).Traceable c) {stages : List EndedStage} (hrec : Recorded c d stages) :
    second.Traceable d :=
  h.part h.legible.2 (hrec.numbered h.numbered) hrec.debugging (Nat.le_add_left ..)

theorem inStage (h : (stage name description body).Traceable c) (entries : List Entry) :
    body.Traceable { c with entries := entries } :=
  h.part h.legible h.numbered rfl (Nat.le_add_right ..)

theorem inTurn (h : (turn text session source body).Traceable c) (entries : List Entry) : body.Traceable { c with
    current := some ⟨turnId c.begun, text, session, []⟩, begun := c.begun + 1, entries := entries } := by
  refine h.part h.legible.2 (fun id hid => ?_) rfl (Nat.le_refl _)
  exact ⟨c.begun, Nat.lt_succ_self _, (Option.some.inj hid).symm⟩

theorem inCaught (h : (caught body).Traceable c) : body.Traceable c :=
  h.part h.legible h.numbered rfl (Nat.le_refl _)

/-- The stages of a turn that is just ending can be counted out. -/
theorem isShort (h : p.Traceable c) (hrec : Recorded c d (p.stages c)) {t : Trace} (hc : c.current = some t)
    (ht : t.stages = []) (hd : d.debugging = true) :
    Numeral.isShort ((d.current.map Trace.stages).getD []).length = true :=
  Numeral.isShort_of_le (h.short (hrec.debugging ▸ hd))
    (Nat.le_trans (hrec.length_le hc ht) (p.length_stages_le c))

end Traceable

/-- **What a run leaves behind.** -/
theorem recorded_run (p : Program) {c : Context} (h : p.Traceable c) :
    (p.run.runFrom c).1 = p.outcome ∧ Recorded c (p.run.runFrom c).2 (p.stages c) := by
  induction p generalizing c with
  | nothing => exact ⟨rfl, .nil c⟩
  | fail reason => exact ⟨rfl, .nil c⟩
  | andThen first second hfirst hsecond =>
    obtain ⟨hout, hrec⟩ := hfirst h.left
    unfold run outcome stages
    rw [Traced.runFrom_bind]
    rcases hrun : first.run.runFrom c with ⟨r, d⟩
    rw [hrun] at hout hrec
    obtain rfl : r = first.outcome := hout
    have hright : second.Traceable d := h.right hrec
    cases first.outcome with
    | ok u =>
      obtain ⟨hout', hrec'⟩ := hsecond hright
      exact ⟨hout', hrec.trans h.numbered hrec'⟩
    | error f =>
      rw [List.append_nil]
      exact ⟨rfl, hrec⟩
  | stage name description body hbody =>
    obtain ⟨before, hstarts⟩ := Traced.runFrom_stageStarts name description c
    obtain ⟨hout, hrec⟩ := hbody (h.inStage before)
    rcases hrun : body.run.runFrom { c with entries := before } with ⟨r, d⟩
    rw [hrun] at hout hrec
    obtain rfl : r = body.outcome := hout
    obtain ⟨after, hstage⟩ := Traced.runFrom_inStage hstarts hrun
    unfold run outcome stages
    rw [hstage, hstarts]
    exact ⟨rfl, hrec.inStage h.numbered⟩
  | turn text session source body hbody =>
    obtain ⟨before, hstarts⟩ := Traced.runFrom_turnStarts h.legible.1 c
    obtain ⟨hout, hrec⟩ := hbody (h.inTurn before)
    rcases hrun : body.run.runFrom _ with ⟨r, d⟩
    rw [hrun] at hout hrec
    obtain rfl : r = body.outcome := hout
    obtain ⟨after, hturn⟩ := Traced.runFrom_inTurn hstarts hrun ((h.inTurn before).isShort hrec rfl rfl)
    unfold run outcome stages
    rw [hturn, hstarts]
    exact ⟨rfl, hrec.inTurn h.numbered⟩
  | caught body hbody => exact ⟨rfl, (hbody h.inCaught).2⟩

/-- A part of a program can be traced where it begins. -/
theorem Begins.traceable {p part : Program} {c d : Context} (hbegins : p.Begins c part d) (h : p.Traceable c) :
    part.Traceable d := by
  induction hbegins with
  | whole => exact h
  | first _ ih => exact ih h.left
  | second _ _ ih => exact ih (h.right (recorded_run _ h.left).2)
  | @inStage name description body part c d _ ih =>
    obtain ⟨entries, hstarts⟩ := Traced.runFrom_stageStarts name description c
    rw [hstarts] at ih
    exact ih (h.inStage entries)
  | @inTurn text session source body part c d _ ih =>
    obtain ⟨entries, hstarts⟩ := Traced.runFrom_turnStarts h.legible.1 c
    rw [hstarts] at ih
    exact ih (h.inTurn entries)
  | inCaught _ ih => exact ih h.inCaught

/-- After a turn the trace before it is the current one again. -/
theorem current_turn {text session source : Value} {body : Program} {c : Context}
    (h : (turn text session source body).Traceable c) :
    ((turn text session source body).run.runFrom c).2.current = c.current := by
  obtain ⟨before, hstarts⟩ := Traced.runFrom_turnStarts h.legible.1 c
  have hrec := (recorded_run body (h.inTurn before)).2
  rcases hrun : body.run.runFrom _ with ⟨r, d⟩
  rw [hrun] at hrec
  obtain ⟨after, hturn⟩ := Traced.runFrom_inTurn hstarts hrun ((h.inTurn before).isShort hrec rfl rfl)
  unfold run
  rw [hturn]

/-- **Tracing is well bracketed.** The stages of a program are recorded, each in the trace under which it
began. Every part of the program ends with the fault that it comes to if there is one, and after every turn
the trace before it is the current one again. -/
theorem tracing_well_bracketed {p : Program} {c : Context} (h : p.Traceable c) :
    Recorded c (p.run.runFrom c).2 (p.stages c) ∧
      (∀ part d, p.Begins c part d → (part.run.runFrom d).1 = part.outcome) ∧
      ∀ text session source body d, p.Begins c (.turn text session source body) d →
        ((turn text session source body).run.runFrom d).2.current = d.current :=
  ⟨(recorded_run p h).2, fun part _ hbegins => (recorded_run part (hbegins.traceable h)).1,
    fun _ _ _ _ _ hbegins => current_turn (hbegins.traceable h)⟩

/-- A stage outside of any turn, and a turn with a stage that fails after a turn within it. -/
def nested : Program :=
  sequence [.stage "CATALOG" "load" .nothing,
    .turn (.str "a dress") (.str "1") (.str "chat") (.caught (.stage "PLAN" "reply" (sequence [
      .turn (.str "a coat") (.str "2") (.str "chat") (.stage "EXTRACT" "words" .nothing), .fail "boom"])))]

theorem tracing_well_bracketed_of_nested :
    nested.stages (.initial true) = [⟨none, "CATALOG", "load", .well⟩, ⟨some (turnId 1), "EXTRACT", "words", .well⟩,
        ⟨some (turnId 0), "PLAN", "reply", .failed "boom"⟩] ∧
      nested.Traceable (.initial true) ∧
      Recorded (.initial true) (nested.run.runFrom (.initial true)).2 (nested.stages (.initial true)) := by
  have hrequest := isWritable_request
  have hshort : Numeral.isShort nested.count = true := by
    have hcount : nested.count = 3 := rfl
    rw [hcount]
    decide +kernel
  have htraceable : nested.Traceable (.initial true) :=
    ⟨⟨trivial, ⟨hrequest .., ⟨hrequest .., trivial⟩, trivial, trivial⟩, trivial⟩, nofun, fun _ => hshort⟩
  exact ⟨rfl, htraceable, (tracing_well_bracketed htraceable).1⟩

end Program

end Outfitter.Journal
