import Outfitter.Journal.Trace

/-!
Computations whose outcome does not depend on what has been journaled before.

A computation is *steady* if the context decides about its outcome only by whether somebody debugs, and
if that stays as it is. The outcome is then told by `outcomeWhen` without any context, and
`outcomeWhen_bind` computes it along the computation: the marks that stages and turns leave do not show
in it, and an entry shows only where it cannot be written.
-/

namespace Outfitter.Journal

/-- Who debugs keeps every entry; nobody else keeps one that is no error, unless it is a lasting one. -/
theorem Entry.isKept_info (debugging : Bool) (stage message : String) (data : Fields) :
    (Entry.info stage message data).isKept debugging =
      (debugging || Entry.lastingMessages.any (·.isPrefixOf message)) := by
  cases debugging <;> rfl

namespace Traced

variable {α β : Type}

/-! ### one computation after another -/

theorem runFrom_bind (x : Traced α) (f : α → Traced β) (c : Context) :
    (x >>= f).runFrom c =
      match x.runFrom c with
      | (.ok a, c') => (f a).runFrom c'
      | (.error e, c') => (.error e, c') := by
  show StateT.run (ExceptT.run (x >>= f)) c =
    match StateT.run (ExceptT.run x) c with
    | (.ok a, c') => StateT.run (ExceptT.run (f a)) c'
    | (.error e, c') => (.error e, c')
  rw [ExceptT.run_bind, StateT.run_bind]
  rcases StateT.run (ExceptT.run x) c with ⟨r, c'⟩
  cases r <;> rfl

theorem runFrom_note (e : Entry) (c : Context) :
    (note e).runFrom c =
      if e.isKept c.debugging then
        if e.isWritable then (.ok (), c.push e) else (.error .tooLongToWrite, c)
      else (.ok (), c) := by
  unfold note
  rw [runFrom_bind]
  show (if e.isKept c.debugging then _ else _ : Traced Unit).runFrom c = _
  split
  · split <;> rfl
  · rfl

/-! ### steadiness -/

/-- The outcome of a computation when nothing has been journaled before. -/
def outcomeWhen (debugging : Bool) (x : Traced α) : Except Fault α :=
  (x.runFrom (.initial debugging)).1

/-- The context decides about the outcome only by whether somebody debugs, and that stays as it is. -/
structure Steady (x : Traced α) : Prop where
  outcome : ∀ c, (x.runFrom c).1 = x.outcomeWhen c.debugging
  debugging : ∀ c, (x.runFrom c).2.debugging = c.debugging

theorem debugging_bind {x : Traced α} {f : α → Traced β}
    (hx : ∀ c, (x.runFrom c).2.debugging = c.debugging)
    (hf : ∀ a c, ((f a).runFrom c).2.debugging = c.debugging) (c : Context) :
    ((x >>= f).runFrom c).2.debugging = c.debugging := by
  have hd := hx c
  rw [runFrom_bind]
  rcases h : x.runFrom c with ⟨r, c'⟩
  rw [h] at hd
  cases r with
  | error e => exact hd
  | ok a => exact (hf a c').trans hd

theorem Steady.bind {x : Traced α} {f : α → Traced β} (hx : Steady x) (hf : ∀ a, Steady (f a)) :
    Steady (x >>= f) := by
  -- both runs of `x` have one outcome, so what follows starts with one debugging flag
  refine ⟨fun c => ?_, debugging_bind hx.debugging fun a => (hf a).debugging⟩
  have ho := (hx.outcome c).trans (hx.outcome (.initial c.debugging)).symm
  have hd := hx.debugging c
  have hd' := hx.debugging (.initial c.debugging)
  unfold outcomeWhen
  rw [runFrom_bind, runFrom_bind]
  rcases h : x.runFrom c with ⟨r, c₁⟩
  rcases h' : x.runFrom (.initial c.debugging) with ⟨r', c₂⟩
  rw [h] at ho hd
  rw [h'] at ho hd'
  obtain rfl : r = r' := ho
  cases r with
  | error e => rfl
  | ok a =>
    show ((f a).runFrom c₁).1 = ((f a).runFrom c₂).1
    rw [(hf a).outcome, (hf a).outcome, show c₁.debugging = _ from hd, show c₂.debugging = _ from hd']
    rfl

theorem outcomeWhen_bind {x : Traced α} {f : α → Traced β} (hx : Steady x) (hf : ∀ a, Steady (f a))
    (d : Bool) : (x >>= f).outcomeWhen d = x.outcomeWhen d >>= fun a => (f a).outcomeWhen d := by
  have hd := hx.debugging (.initial d)
  unfold outcomeWhen
  rw [runFrom_bind]
  rcases h : x.runFrom (.initial d) with ⟨r, c⟩
  rw [h] at hd
  cases r with
  | error e => rfl
  | ok a =>
    show ((f a).runFrom c).1 = (f a).outcomeWhen d
    rw [(hf a).outcome, show c.debugging = d from hd]

/-- If a computation comes to something, what follows goes on with that. -/
theorem outcomeWhen_bind_of_ok {x : Traced α} {f : α → Traced β} (hx : Steady x) (hf : ∀ a, Steady (f a))
    {d : Bool} {a : α} (h : x.outcomeWhen d = .ok a) : (x >>= f).outcomeWhen d = (f a).outcomeWhen d := by
  rw [outcomeWhen_bind hx hf, h]
  rfl

/-- If two computations one after the other come to something, so does the first. -/
theorem exists_of_bind {x : Traced α} {f : α → Traced β} (hx : Steady x) (hf : ∀ a, Steady (f a)) {d : Bool}
    {b : β} (h : (x >>= f).outcomeWhen d = .ok b) :
    ∃ a, x.outcomeWhen d = .ok a ∧ (f a).outcomeWhen d = .ok b := by
  rw [outcomeWhen_bind hx hf] at h
  cases ha : x.outcomeWhen d with
  | error e =>
    rw [ha] at h
    cases h
  | ok a =>
    rw [ha] at h
    exact ⟨a, rfl, h⟩

theorem steady_pure (a : α) : Steady (pure a) :=
  ⟨fun _ => rfl, fun _ => rfl⟩

theorem steady_liftExcept (e : Except Fault α) : Steady (liftExcept e) := by
  cases e <;> exact ⟨fun _ => rfl, fun _ => rfl⟩

theorem steady_modify {f : Context → Context} (h : ∀ c, (f c).debugging = c.debugging) :
    Steady (modify f : Traced Unit) :=
  ⟨fun _ => rfl, h⟩

theorem Steady.map {x : Traced α} (hx : Steady x) (f : α → β) : Steady (f <$> x) := by
  rw [map_eq_pure_bind]
  exact hx.bind fun a => steady_pure (f a)

theorem debugging_push (c : Context) (e : Entry) : (c.push e).debugging = c.debugging := by
  unfold Context.push
  split <;> rfl

theorem steady_note (e : Entry) : Steady (note e) := by
  constructor <;> intro c
  · unfold outcomeWhen
    rw [runFrom_note, runFrom_note]
    show _ = (if e.isKept c.debugging then _ else _ : Except Fault Unit × Context).1
    split
    · split <;> rfl
    · rfl
  · rw [runFrom_note]
    split
    · split
      · exact debugging_push c e
      · rfl
    · rfl

theorem Steady.observe {x : Traced α} (hx : Steady x) : Steady x.observe :=
  ⟨fun c => congrArg Except.ok (hx.outcome c), hx.debugging⟩

/-! ### outcomes -/

@[simp] theorem outcomeWhen_pure (d : Bool) (a : α) : (pure a : Traced α).outcomeWhen d = .ok a :=
  rfl

@[simp] theorem outcomeWhen_liftExcept (d : Bool) (e : Except Fault α) :
    (liftExcept e : Traced α).outcomeWhen d = e := by
  cases e <;> rfl

theorem outcomeWhen_observe (d : Bool) (x : Traced α) : x.observe.outcomeWhen d = .ok (x.outcomeWhen d) :=
  rfl

theorem outcomeWhen_note (d : Bool) (e : Entry) :
    (note e).outcomeWhen d = if e.isKept d && !e.isWritable then .error .tooLongToWrite else .ok () := by
  unfold outcomeWhen
  rw [runFrom_note]
  show (if e.isKept d then _ else _ : Except Fault Unit × Context).1 = _
  cases e.isKept d <;> cases e.isWritable <;> rfl

theorem outcomeWhen_note_of_writable (d : Bool) {e : Entry} (h : e.isWritable = true) :
    (note e).outcomeWhen d = .ok () := by
  rw [outcomeWhen_note, h, Bool.not_true, Bool.and_false, if_neg Bool.false_ne_true]

/-! ### stages and turns -/

theorem steady_stageStarts (stage description : String) : Steady (stageStarts stage description) :=
  steady_note _

theorem steady_record (owner : Option String) (stage description : String) (ending : StageEnd) :
    Steady (record owner stage description ending) :=
  steady_modify fun _ => rfl

theorem steady_stageEnds (owner : Option String) (stage description : String) (f : Option Fault) :
    Steady (stageEnds owner stage description f) := by
  cases f <;> exact (steady_note _).bind fun _ => steady_record ..

/-- A stage is one of the turn that is going on when it begins. -/
theorem runFrom_inStage_eq (stage description : String) (x : Traced α) (c : Context) :
    (x.inStage stage description).runFrom c = (x.stageOf c.turn? stage description).runFrom c := by
  have hget : (get : Traced Context).runFrom c = (.ok c, c) := rfl
  unfold inStage
  rw [runFrom_bind, hget]

theorem steady_turnStarts (text session source : Value) : Steady (turnStarts text session source) :=
  (steady_modify (f := fun c => { c with
    current := some ⟨turnId c.begun, text, session, []⟩, begun := c.begun + 1 }) fun _ => rfl).bind
    fun _ => steady_note _

@[simp] theorem outcomeWhen_stageStarts (d : Bool) (stage description : String) :
    (stageStarts stage description).outcomeWhen d = .ok () :=
  outcomeWhen_note_of_writable d rfl

@[simp] theorem outcomeWhen_stageEnds (d : Bool) (owner : Option String) (stage description : String)
    (f : Option Fault) : (stageEnds owner stage description f).outcomeWhen d = .ok () := by
  cases f <;> unfold stageEnds <;>
    rw [outcomeWhen_bind (steady_note _) fun _ => steady_record ..,
      outcomeWhen_note_of_writable d rfl] <;> rfl

theorem Steady.stageOf {x : Traced α} (hx : Steady x) (owner : Option String) (stage description : String) :
    Steady (x.stageOf owner stage description) :=
  (steady_stageStarts ..).bind fun _ => hx.observe.bind fun _ => (steady_stageEnds ..).bind fun _ =>
    steady_liftExcept _

theorem outcomeWhen_stageOf {x : Traced α} (hx : Steady x) (d : Bool) (owner : Option String)
    (stage description : String) : (x.stageOf owner stage description).outcomeWhen d = x.outcomeWhen d := by
  have h₁ : ∀ r : Except Fault α, Steady (do stageEnds owner stage description (faultOf r); liftExcept r) :=
    fun r => (steady_stageEnds ..).bind fun _ => steady_liftExcept r
  unfold stageOf
  rw [outcomeWhen_bind (steady_stageStarts ..) fun _ => hx.observe.bind h₁, outcomeWhen_stageStarts]
  show (x.observe >>= fun r => _).outcomeWhen d = _
  rw [outcomeWhen_bind hx.observe h₁, outcomeWhen_observe]
  show (stageEnds _ _ _ _ >>= fun _ => _).outcomeWhen d = _
  rw [outcomeWhen_bind (steady_stageEnds ..) fun _ => steady_liftExcept _, outcomeWhen_stageEnds]
  exact outcomeWhen_liftExcept d _

theorem Steady.inStage {x : Traced α} (hx : Steady x) (stage description : String) :
    Steady (x.inStage stage description) := by
  -- whose stage it is does not show in the outcome
  have howner : ∀ owner d, (x.stageOf owner stage description).outcomeWhen d = x.outcomeWhen d :=
    fun owner d => outcomeWhen_stageOf hx d owner stage description
  refine ⟨fun c => ?_, fun c => ?_⟩
  · rw [runFrom_inStage_eq, (hx.stageOf ..).outcome, howner]
    unfold outcomeWhen
    rw [runFrom_inStage_eq]
    exact (howner _ _).symm
  · rw [runFrom_inStage_eq]
    exact (hx.stageOf ..).debugging c

/-- A stage leaves marks and does not change the outcome. -/
@[simp] theorem outcomeWhen_inStage {x : Traced α} (hx : Steady x) (d : Bool) (stage description : String) :
    (x.inStage stage description).outcomeWhen d = x.outcomeWhen d := by
  unfold outcomeWhen
  rw [runFrom_inStage_eq]
  exact outcomeWhen_stageOf hx d _ stage description

/-- Notes one after the other do not depend on the journal either. -/
theorem steady_notes (entries : List Entry) : Steady (entries.forM note) := by
  induction entries with
  | nil => exact steady_pure ()
  | cons e rest ih => exact (steady_note e).bind fun _ => ih

theorem debugging_turnEnds (before : Option Trace) (c : Context) :
    ((turnEnds before).runFrom c).2.debugging = c.debugging :=
  debugging_bind (fun _ => rfl) (fun _ => debugging_bind (steady_note _).debugging fun _ _ => rfl) c

end Traced

end Outfitter.Journal
