import Outfitter.Assistant.Turn
import Outfitter.Proofs.Dialogue.Reply
import Outfitter.Proofs.Journal.Turns
import Outfitter.Proofs.Text.Blank

/-!
The turn of a message comes to the reply that is planned for the message alone.

A turn decides on the text as it stands whether it is a reset, reads it once, and hands on what it says.
The reply to a message alone (`Dialogue.replied`) trims the text first and reads it again. `plan_of_replied`
and `plan_of_fault` say that both agree, for a message, filters and known brands of any shape.
-/

namespace Outfitter.Message

open Journal Text

theorem extractWith_congr {text other : List Char} (h : clean text = clean other)
    (known : Except Fault (List String)) : extractWith text known = extractWith other known := by
  unfold extractWith
  rw [h]

/-- Messages that are cleaned alike say the same, and leave the same entry. -/
theorem extracted_congr {text other : List Char} (h : clean text = clean other)
    (known : Except Fault (List String)) : extracted text known = extracted other known := by
  unfold extracted
  rw [extractWith_congr h, h]

theorem extracted_trim (text : List Char) (known : Except Fault (List String)) :
    extracted (trim text) known = extracted text known :=
  extracted_congr (clean_trim text) known

theorem steady_extracted (text : List Char) (known : Except Fault (List String)) :
    Traced.Steady (extracted text known) := by
  refine (Traced.steady_liftExcept _).bind fun e => ?_
  split
  · exact Traced.steady_pure e
  · exact (Traced.steady_note _).bind fun _ => Traced.steady_pure e

theorem quiet_extracted (text : List Char) (known : Except Fault (List String)) :
    Traced.Quiet (extracted text known) := by
  refine (Traced.quiet_liftExcept _).bind fun e => ?_
  split
  · exact Traced.quiet_pure e
  · exact (Traced.quiet_note _).bind fun _ => Traced.quiet_pure e

/-- The brands of a list are the names in it, whether there are any or not. -/
theorem brandsOf_list (known : List Value) : brandsOf (.list known) = brandNames known := by
  cases known <;> rfl

/-- The names among some texts are those that are not empty. -/
theorem brandNames_texts (known : List String) :
    brandNames (known.map .str) = .ok (known.filter (!·.isEmpty)) := by
  induction known with
  | nil => rfl
  | cons b known ih =>
    rw [List.map_cons, brandNames, ih, List.filter_cons]
    have hgiven : (Value.str b).isGiven = !b.isEmpty := rfl
    rw [hgiven]
    cases b.isEmpty <;> rfl

end Outfitter.Message

namespace Outfitter.Dialogue

open Journal Message Text

/-- The reply to a trimmed message that says this, when it is no reset. -/
def concluded (trimmed : List Char) (active : Value) (e : Extraction) : Traced Reply := do
  let filters ← Filters.merged (active.orElse (.object [])) (.object e.filters)
  let reply ← liftExcept (Reply.ofMerged trimmed e.intent filters)
  Traced.note reply.entry
  return reply

theorem steady_merged (base delta : Value) : Traced.Steady (Filters.merged base delta) :=
  (Traced.steady_liftExcept _).bind fun _ => (Traced.steady_liftExcept _).bind fun _ =>
    (Traced.steady_liftExcept _).bind fun _ => (Traced.steady_note _).bind fun _ => Traced.steady_pure _

theorem steady_concluded (trimmed : List Char) (active : Value) (e : Extraction) :
    Traced.Steady (concluded trimmed active e) :=
  (steady_merged ..).bind fun _ => (Traced.steady_liftExcept _).bind fun _ =>
    (Traced.steady_note _).bind fun _ => Traced.steady_pure _

theorem steady_planned (text active : Value) {extraction : List Char → Traced Extraction}
    (h : ∀ t, Traced.Steady (extraction t)) : Traced.Steady (planned text active extraction) := by
  refine (Traced.steady_liftExcept _).bind fun s => ?_
  show Traced.Steady (if isReset (trim s.toList) then _ else _)
  split
  · exact (Traced.steady_note _).bind fun _ => Traced.steady_pure _
  · exact (h _).bind fun e => steady_concluded _ active e

theorem quiet_concluded (trimmed : List Char) (active : Value) (e : Extraction) :
    Traced.Quiet (concluded trimmed active e) := by
  have hmerged : ∀ base delta, Traced.Quiet (Filters.merged base delta) := fun base delta =>
    (Traced.quiet_liftExcept _).bind fun _ => (Traced.quiet_liftExcept _).bind fun _ =>
      (Traced.quiet_liftExcept _).bind fun _ => (Traced.quiet_note _).bind fun _ => Traced.quiet_pure _
  exact (hmerged _ _).bind fun _ => (Traced.quiet_liftExcept _).bind fun _ =>
    (Traced.quiet_note _).bind fun _ => Traced.quiet_pure _

theorem quiet_planned (text active : Value) {extraction : List Char → Traced Extraction}
    (h : ∀ t, Traced.Quiet (extraction t)) : Traced.Quiet (planned text active extraction) := by
  refine (Traced.quiet_liftExcept _).bind fun s => ?_
  show Traced.Quiet (if isReset (trim s.toList) then _ else _)
  split
  · exact (Traced.quiet_note _).bind fun _ => Traced.quiet_pure _
  · exact (h _).bind fun e => quiet_concluded _ active e

/-- The outcome for a text: a reset is answered at once, anything else is read first. -/
theorem outcomeWhen_planned {text : Value} {s : String} (hs : text.demandOptionalText "strip" = .ok s)
    (active : Value) {extraction : List Char → Traced Extraction} (h : ∀ t, Traced.Steady (extraction t))
    (d : Bool) : (planned text active extraction).outcomeWhen d =
      if isReset s.toList then .ok Reply.afterReset
      else (extraction (trim s.toList)).outcomeWhen d >>= fun e =>
        (concluded (trim s.toList) active e).outcomeWhen d := by
  have he : planned text active extraction =
      if isReset s.toList then (do Traced.note Reply.resetEntry; return Reply.afterReset)
      else extraction (trim s.toList) >>= concluded (trim s.toList) active := by
    unfold planned
    rw [hs, ← isReset_trim]
    rfl
  rw [he]
  split
  · rw [Traced.outcomeWhen_bind (Traced.steady_note _) fun _ => Traced.steady_pure _,
      Traced.outcomeWhen_note_of_writable d rfl]
    rfl
  · exact Traced.outcomeWhen_bind (h _) (steady_concluded _ active) d

end Outfitter.Dialogue

namespace Outfitter.Assistant.Turn

open Journal Message Text

theorem steady_extractedFrom (text known : Value) : Traced.Steady (extractedFrom text known) :=
  (Traced.steady_liftExcept _).bind fun _ => steady_extracted ..

theorem quiet_extractedFrom (text known : Value) : Traced.Quiet (extractedFrom text known) :=
  (Traced.quiet_liftExcept _).bind fun _ => quiet_extracted _ _

theorem steady_extractBy {reading : Traced Extraction} (h : Traced.Steady reading) (text : Value) :
    Traced.Steady (extractBy reading text) := by
  refine (Traced.steady_liftExcept _).bind fun reset => ?_
  split
  · exact Traced.steady_pure _
  · exact (h.inStage ..).map _

theorem steady_extract (known : List Value) (text : Value) : Traced.Steady (extract known text) :=
  steady_extractBy (steady_extractedFrom ..) text

theorem steady_planReply (known : List Value) (text base : Value) (e : Option Extraction) :
    Traced.Steady (planReply known text base e) := by
  refine (Dialogue.steady_planned text base fun t => ?_).inStage ..
  cases e with
  | some e => exact Traced.steady_pure e
  | none => exact steady_extracted ..

theorem steady_planBy {reading : Traced Extraction} (h : Traced.Steady reading) (known : List Value)
    (session : Session) (text given : Value) : Traced.Steady (planBy reading known session text given) :=
  (steady_extractBy h text).bind fun _ => (steady_planReply ..).bind fun _ => Traced.steady_pure _

theorem grows_extractBy {reading : Traced Extraction} (h : Traced.Quiet reading) (text : Value) :
    Traced.Grows 1 (extractBy reading text) := by
  rw [← Nat.zero_add 1]
  refine (Traced.quiet_liftExcept _).grows.bind fun reset => ?_
  split
  · exact ((Traced.quiet_pure _).grows).mono (Nat.zero_le 1)
  · rw [map_eq_pure_bind]
    exact (h.grows_inStage _ _).bind fun _ => (Traced.quiet_pure _).grows

theorem grows_planReply (known : List Value) (text base : Value) (e : Option Extraction) :
    Traced.Grows 1 (planReply known text base e) := by
  refine (Dialogue.quiet_planned text base fun t => ?_).grows_inStage _ _
  cases e with
  | some e => exact Traced.quiet_pure e
  | none => exact quiet_extracted _ _

/-- A turn leaves two records: of the reading, and of the planning. -/
theorem grows_planBy {reading : Traced Extraction} (h : Traced.Quiet reading) (known : List Value)
    (session : Session) (text given : Value) : Traced.Grows 2 (planBy reading known session text given) :=
  (grows_extractBy h text).bind fun _ => (grows_planReply _ _ _ _).bind fun _ => (Traced.quiet_pure _).grows

/-- What a message without a text comes to: nothing is read in it. -/
theorem extract_of_fault {text : Value} {f : Fault} (h : text.demandOptionalText "strip" = .error f)
    (known : List Value) (d : Bool) : ∃ f', (extract known text).outcomeWhen d = .error f' := by
  have : ∃ f', Dialogue.isResetOf text = .error f' := by
    unfold Value.demandOptionalText at h
    unfold Dialogue.isResetOf
    split at h
    · rename_i hg
      rw [if_pos hg]
      cases text with
      | str s => cases h
      | _ => exact ⟨_, rfl⟩
    · cases h
  obtain ⟨f', h'⟩ := this
  refine ⟨f', ?_⟩
  unfold extract extractBy
  rw [h']
  rfl

/-- What a text says; nothing is asked of a reset. -/
theorem outcomeWhen_extract {text : Value} {s : String} (h : text.demandOptionalText "strip" = .ok s)
    (known : List Value) (d : Bool) : (extract known text).outcomeWhen d =
      if Dialogue.isReset s.toList then .ok none
      else some <$> (Message.extracted s.toList (brandNames known)).outcomeWhen d := by
  have hreset : Dialogue.isResetOf text = .ok (Dialogue.isReset s.toList) := by
    unfold Value.demandOptionalText at h
    unfold Dialogue.isResetOf
    split at h
    · rename_i hg
      rw [if_pos hg]
      cases text with
      | str t =>
        obtain rfl : t = s := Except.ok.inj h
        rfl
      | _ => cases h
    · rename_i hg
      obtain rfl : "" = s := Except.ok.inj h
      rw [if_neg hg]
      rfl
  have hlower : text.demandOptionalText "lower" = .ok s := by
    unfold Value.demandOptionalText at h ⊢
    split
    · rename_i hg
      rw [if_pos hg] at h
      cases text with
      | str t => exact h
      | _ => cases h
    · rename_i hg
      rw [if_neg hg] at h
      exact h
  have he : extract known text = (if Dialogue.isReset s.toList then pure none
      else some <$> Traced.inStage "EXTRACT" "extract_filters"
        (Message.extracted s.toList (brandNames known))) := by
    unfold extract extractBy extractedFrom
    rw [hreset, hlower, brandsOf_list]
    rfl
  rw [he]
  split
  · rfl
  · rw [map_eq_pure_bind, Traced.outcomeWhen_bind ((steady_extracted ..).inStage ..) fun _ =>
      Traced.steady_pure _, Traced.outcomeWhen_inStage (steady_extracted ..)]
    cases (Message.extracted s.toList (brandNames known)).outcomeWhen d <;> rfl

/-- The reply of a turn: the reply to the message alone, given what the turn has read in it. -/
theorem outcomeWhen_planReply {text : Value} {s : String} (h : text.demandOptionalText "strip" = .ok s)
    (known : List Value) (base : Value) (e : Option Extraction) (d : Bool) :
    (planReply known text base e).outcomeWhen d =
      if Dialogue.isReset s.toList then .ok Dialogue.Reply.afterReset
      else (e.elim ((Message.extracted s.toList (brandNames known)).outcomeWhen d) .ok) >>= fun e =>
        (Dialogue.concluded (trim s.toList) base e).outcomeWhen d := by
  have hplanned : ∀ {extraction : List Char → Traced Extraction}, (∀ t, Traced.Steady (extraction t)) →
      (Traced.inStage "PLAN" "plan_reply" (Dialogue.planned text base extraction)).outcomeWhen d = _ :=
    fun hx => (Traced.outcomeWhen_inStage (Dialogue.steady_planned text base hx) d ..).trans
      (Dialogue.outcomeWhen_planned h base hx d)
  cases e with
  | some e => exact hplanned fun _ => Traced.steady_pure e
  | none =>
    refine (hplanned fun _ => steady_extracted ..).trans ?_
    simp only [extracted_trim, Option.elim]

theorem outcomeWhen_replied {text : Value} {s : String} (h : text.demandOptionalText "strip" = .ok s)
    (known : List Value) (active : Value) (d : Bool) :
    (Dialogue.replied text active (.list known)).outcomeWhen d =
      if Dialogue.isReset s.toList then .ok Dialogue.Reply.afterReset
      else (Message.extracted s.toList (brandNames known)).outcomeWhen d >>= fun e =>
        (Dialogue.concluded (trim s.toList) active e).outcomeWhen d := by
  unfold Dialogue.replied
  rw [Dialogue.outcomeWhen_planned h active fun t => steady_extracted ..]
  simp only [extracted_trim, brandsOf_list]

theorem replied_of_fault {text : Value} {f : Fault} (h : text.demandOptionalText "strip" = .error f)
    (active known : Value) (d : Bool) : (Dialogue.replied text active known).outcomeWhen d = .error f := by
  unfold Dialogue.replied Dialogue.planned
  rw [h]
  rfl

theorem outcomeWhen_plan (known : List Value) (session : Session) (text given : Value) (d : Bool) :
    (plan known session text given).outcomeWhen d = do
      let e ← (extract known text).outcomeWhen d
      let r ← (planReply known text (base session given) e).outcomeWhen d
      return ⟨session.record text r.message r.filters, r, (e.map (·.filters)).getD []⟩ := by
  unfold plan planBy
  show (extract known text >>= fun e => planReply known text (base session given) e >>= fun _ => _).outcomeWhen d =
    _
  rw [Traced.outcomeWhen_bind (steady_extract known text) fun e =>
    (steady_planReply ..).bind fun _ => Traced.steady_pure _]
  congr 1
  funext e
  rw [Traced.outcomeWhen_bind (steady_planReply ..) fun _ => Traced.steady_pure _]
  rfl

/-- The filters of the message alone are those that it has been found to ask for. -/
theorem extracted_of_plan {known : List Value} {session : Session} {text given : Value} {d : Bool} {t : Turn}
    (h : (plan known session text given).outcomeWhen d = .ok t) :
    ∃ e, (extract known text).outcomeWhen d = .ok e ∧ t.extracted = (e.map (·.filters)).getD [] := by
  rw [outcomeWhen_plan] at h
  cases he : (extract known text).outcomeWhen d with
  | error f =>
    rw [he] at h
    cases h
  | ok e =>
    rw [he] at h
    refine ⟨e, rfl, ?_⟩
    change (planReply known text (base session given) e).outcomeWhen d >>= _ = _ at h
    cases hr : (planReply known text (base session given) e).outcomeWhen d with
    | error f =>
      rw [hr] at h
      cases h
    | ok r =>
      rw [hr] at h
      obtain rfl := Except.ok.inj h
      rfl

/-- What a turn comes to for a message with a text: the reply to the message alone, if there is one. -/
theorem exists_outcomeWhen_plan {text : Value} {s : String} (hs : text.demandOptionalText "strip" = .ok s)
    (known : List Value) (session : Session) (given : Value) (d : Bool) :
    ∃ extracted, (plan known session text given).outcomeWhen d =
      ((Dialogue.replied text (base session given) (.list known)).outcomeWhen d).map fun r =>
        ⟨session.record text r.message r.filters, r, extracted⟩ := by
  rw [outcomeWhen_plan, outcomeWhen_replied hs, outcomeWhen_extract hs]
  simp only [outcomeWhen_planReply hs]
  by_cases hr : Dialogue.isReset s.toList = true
  · simp only [if_pos hr]
    exact ⟨_, rfl⟩
  · simp only [if_neg hr]
    -- what the turn has read is what the reply alone would read
    cases (Message.extracted s.toList (brandNames known)).outcomeWhen d with
    | error f => exact ⟨[], rfl⟩
    | ok e =>
      refine ⟨e.filters, ?_⟩
      show (Dialogue.concluded (trim s.toList) (base session given) e).outcomeWhen d >>= _ =
        ((Dialogue.concluded (trim s.toList) (base session given) e).outcomeWhen d).map _
      cases (Dialogue.concluded (trim s.toList) (base session given) e).outcomeWhen d <;> rfl

/-- **A turn gives the reply that is planned for the message alone**, and the session after it. -/
theorem plan_of_replied {known : List Value} {session : Session} {text given : Value} {d : Bool}
    {r : Dialogue.Reply}
    (h : (Dialogue.replied text (base session given) (.list known)).outcomeWhen d = .ok r) :
    ∃ extracted, (plan known session text given).outcomeWhen d =
      .ok ⟨session.record text r.message r.filters, r, extracted⟩ := by
  cases hs : text.demandOptionalText "strip" with
  | error f =>
    rw [replied_of_fault hs] at h
    cases h
  | ok s =>
    obtain ⟨extracted, hplan⟩ := exists_outcomeWhen_plan hs known session given d
    rw [h] at hplan
    exact ⟨extracted, hplan⟩

/-- A turn fails if no reply can be planned for the message alone. -/
theorem plan_of_fault {known : List Value} {session : Session} {text given : Value} {d : Bool} {f : Fault}
    (h : (Dialogue.replied text (base session given) (.list known)).outcomeWhen d = .error f) :
    ∃ f', (plan known session text given).outcomeWhen d = .error f' := by
  cases hs : text.demandOptionalText "strip" with
  | error f =>
    obtain ⟨f', hf⟩ := extract_of_fault hs known d
    rw [outcomeWhen_plan, hf]
    exact ⟨f', rfl⟩
  | ok s =>
    obtain ⟨extracted, hplan⟩ := exists_outcomeWhen_plan hs known session given d
    rw [h] at hplan
    exact ⟨f, hplan⟩

end Outfitter.Assistant.Turn
