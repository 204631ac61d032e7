import Outfitter.Proofs.Api.Chat
import Outfitter.Proofs.Dialogue.Answered
import Outfitter.Proofs.Json.Reading

/-!
A message to a session is saved before its response is built.

Whatever has been requested of a server, the filters in its records fit a payload (`Server.Sound`): so every
message can be replied to, and the filters of the reply make a body. Those of the message alone make one unless
its budget is beyond all doubles. The request for such a message fails, and what it says is in the record all
the same (`Server.allOrNothing_iff`).
-/

namespace Outfitter

open Filters Schema

/-! ### checks of bodies -/

namespace Schema

variable {α : Type}

theorem Checked.isOk_sequence {cs : List (Checked α)} : (Checked.sequence cs).IsOk ↔ ∀ c ∈ cs, c.IsOk := by
  induction cs with
  | nil => exact ⟨fun _ _ hc => absurd hc List.not_mem_nil, fun _ => ⟨[], rfl⟩⟩
  | cons c cs ih =>
    rw [List.forall_mem_cons, ← ih]
    constructor
    · rintro ⟨_, h⟩
      obtain ⟨_, rest, hc, hrest, -⟩ := Checked.seq_eq_ok.mp h
      obtain ⟨a, ha, -⟩ := Checked.map_eq_ok.mp hc
      exact ⟨⟨a, ha⟩, rest, hrest⟩
    · rintro ⟨hc, hrest⟩
      exact (hc.map _).seq hrest

theorem Checked.isOk_map {β : Type} {c : Checked α} {f : α → β} : (f <$> c).IsOk ↔ c.IsOk := by
  refine ⟨?_, fun h => h.map f⟩
  rintro ⟨_, h⟩
  obtain ⟨a, ha, -⟩ := Checked.map_eq_ok.mp h
  exact ⟨a, ha⟩

theorem Checked.isOk_within {step : Step} {c : Checked α} : (c.within step).IsOk ↔ c.IsOk := by
  cases c with
  | ok a => exact ⟨fun _ => ⟨a, rfl⟩, fun _ => ⟨a, rfl⟩⟩
  | faulty => exact ⟨nofun, nofun⟩

theorem Checked.of_toExcept {ε : Type} {fault : List Problem → ε} {c : Checked α} {a : α}
    (h : c.toExcept fault = .ok a) : c = .ok a := by
  cases c with
  | ok b => exact congrArg Checked.ok (Except.ok.inj h)
  | faulty => cases h

theorem of_required {fields : Fields} {name : String} {check : Value → Checked α} {a : α}
    (h : required fields name check = .ok a) : ∃ v, check v = .ok a := by
  unfold required at h
  split at h
  · exact ⟨_, Checked.of_part h⟩
  · cases h

end Schema

namespace Api

open Assistant

theorem isOk_payloadBody {filters : Fields} :
    (payloadBody filters).IsOk ↔ (Payload.check .notRecord (.object filters)).IsOk :=
  Checked.isOk_map

/-- The body about a turn can be built exactly if both filters in it make a payload. -/
theorem isOk_turnBody {id : String} {t : Turn} :
    (turnBody id t).IsOk ↔ (payloadBody t.reply.filters).IsOk ∧ (payloadBody t.extracted).IsOk := by
  have hplain : ∀ (name : String) (v : Value), (plain name v).IsOk := fun name v => ⟨_, rfl⟩
  have hpart : ∀ (name : String) (c : Checked Value), (part name c).IsOk ↔ c.IsOk := fun name c =>
    Checked.isOk_map.trans Checked.isOk_within
  unfold turnBody replyParts parts
  rw [Checked.isOk_map, Checked.isOk_sequence]
  simp only [List.cons_append, List.nil_append, List.forall_mem_cons, List.not_mem_nil, false_imp_iff,
    implies_true, and_true, hplain, hpart, true_and]

/-! ### requests that are read -/

theorem isWritable_of_jsonContent {text : String} {v : Value} (h : jsonContent text = .ok (.value v)) :
    v.isWritable = true := by
  unfold jsonContent at h
  split at h
  · cases h
  · dsimp only at h
    split at h
    · rename_i hread
      cases h
      exact Json.isWritable_of_readWithin hread
    · cases h
    · cases h
    · cases h

/-- A value that a body holds can be written. -/
theorem isWritable_of_content {b : Body} {v : Value} (h : b.content = .ok (.value v)) : v.isWritable = true := by
  unfold Body.content at h
  split at h
  · cases h
  · split at h
    · rename_i hwritable
      cases h
      exact hwritable
    · cases h
  · split at h
    · cases h
    · split at h
      · exact isWritable_of_jsonContent h
      · cases h

theorem of_read {α : Type} {check : Value → Checked α} {b : Body} {a : α} (h : b.read check = .ok a) :
    ∃ v, v.isWritable = true ∧ check v = .ok a := by
  unfold Body.read at h
  cases hc : b.content with
  | error refused =>
    rw [hc] at h
    cases h
  | ok content =>
    rw [hc] at h
    cases content with
    | nothing | other => cases h
    | value v => exact ⟨v, isWritable_of_content hc, Checked.of_part (Checked.of_toExcept h)⟩

/-- The filters given with a message are none, or fit and can be written. -/
def FitsIfGiven (given : Value) : Prop :=
  given = .null ∨ ∃ filters, given = .object filters ∧ Filters.Holds Kept filters

/-- A message that is accepted is not too long, and the filters that come with it fit and can be written. -/
theorem of_withCurrent {v : Value} {asked : Asked} (hv : v.isWritable = true) (h : Asked.withCurrent v = .ok asked) :
    asked.text.length ≤ maxMessage ∧ FitsIfGiven asked.given := by
  cases v with
  | object fields =>
    obtain ⟨_, filters, hg, hfilters, rfl⟩ := Checked.seq_eq_ok.mp h
    obtain ⟨text, htext, rfl⟩ := Checked.map_eq_ok.mp hg
    refine ⟨?_, ?_⟩
    · obtain ⟨w, hw⟩ := of_required htext
      obtain ⟨s, -, hs⟩ := Checked.andThen_eq_ok hw
      split at hs
      · cases hs
      · rename_i hlength
        cases hs
        exact Nat.not_lt.mp hlength
    · cases filters with
      | none => exact .inl rfl
      | some p =>
        obtain ⟨w, ⟨_, hget⟩, hw⟩ := of_optional hfilters p rfl
        have hwritable := (Value.haveWritable_iff fields).mp hv _ (Fields.mem_of_get? hget)
        exact .inr ⟨_, rfl, kept_toFilters hwritable hw⟩
  | _ => cases h

end Api

namespace Assistant

open Api

/-! ### calls of the server -/

/-- The identifiers in the call are texts, and so is the message; the filters given with it fit. -/
def Call.IsPlain : Call → Prop
  | .read id | .delete id => ∃ s : String, id = .str s
  | .message id text given => (∃ s : String, id = .str s) ∧ (∃ s : String, text = .str s) ∧ FitsIfGiven given
  | .prepare | .create | .health => True

theorem Call.IsPlain.isNamed {c : Call} (h : c.IsPlain) : c.IsNamed := by
  cases c with
  | message => exact h.1
  | _ => exact h

/-- The filters in the records fit, and can be written. -/
def RecordsFit (records : String → Option Session) : Prop :=
  ∀ id session, records id = some session → Filters.Holds Kept session.filters

theorem haveWritable_of_kept {filters : Fields} (h : Filters.Holds Kept filters) :
    Value.haveWritable filters = true := by
  refine (Value.haveWritable_iff filters).mpr fun p hp => ?_
  obtain ⟨_, -, -, hwritable⟩ := h.values p hp
  exact hwritable

variable {e : Setting} {names : List String} {id : String} {given : Value} {records : String → Option Session}

/-- The filters into which those of a message are merged fit, and can be written. -/
theorem exists_base (hgiven : FitsIfGiven given) (hrecords : RecordsFit records) (id : String) :
    ∃ base, (Turn.base (sessionOf (.str id) (records id)) given).orElse (.object []) = .object base ∧
      Filters.Holds Kept base := by
  rcases hgiven with rfl | ⟨filters, rfl, hfilters⟩
  · refine ⟨(sessionOf (.str id) (records id)).filters, orElse_object _, ?_⟩
    cases hr : records id with
    | none => exact holds_nil
    | some session => exact hrecords id session hr
  · exact ⟨filters, orElse_object _, hfilters⟩

/-- A call of the server leaves filters that fit in the records. -/
theorem RecordsFit.done (h : RecordsFit records) (hknown : Message.brandNames e.known = .ok names) {c : Call}
    (hc : c.IsPlain) {n : Nat} {outcome : Except Fault Answer} {records' : String → Option Session}
    (hdone : Done e n records c outcome records') : RecordsFit records' := by
  -- all records but one are the same
  have hchanged : ∀ here : String,
      (∀ session, records' here = some session → Filters.Holds Kept session.filters) →
      (∀ other, other ≠ here → records' other = records other) → RecordsFit records' := by
    intro here hhere helse other session hs
    by_cases ho : other = here
    · exact hhere session (ho ▸ hs)
    · exact h other session ((helse other ho).symm.trans hs)
  cases hdone with
  | created hhere helse =>
    refine hchanged _ (fun session hs => ?_) helse
    obtain rfl := Option.some.inj (hhere.symm.trans hs)
    exact holds_nil
  | read | prepared | health | failed | unwritten => exact h
  | deleted hhere helse => exact hchanged _ (fun session hs => nomatch hhere.symm.trans hs) helse
  | @replied id text given turn r _ hreply _ _ _ hfilters _ hhere helse =>
    refine hchanged id (fun session hs => ?_) helse
    obtain rfl := Option.some.inj (hhere.symm.trans hs)
    obtain ⟨-, ⟨s, rfl⟩, hgiven⟩ := hc
    obtain ⟨base, hbase, hfits⟩ := exists_base hgiven h id
    have hr := Dialogue.holds_of_replied (Message.merges_kept names) hknown hbase hfits hreply
    rw [hfilters, kept_of_named hr.named]
    exact hr

end Assistant

namespace Api.Server

open Assistant

/-- The server after some requests, each of which is made when the one before it has been answered. -/
def after (s : Server) (requests : List Request) : Server :=
  requests.foldl (fun s r => (s.respond r).2) s

/-- The record of a session. -/
def record? (s : Server) (id : String) : Option Session :=
  s.assistant.record? id

/-- No call is under way on the server, its store serves, and the filters in the records fit. -/
structure Sound (known : List Value) (s : Server) : Prop where
  rest : AtRest ⟨s.assistant.journal.debugging, known⟩ s.assistant
  records : RecordsFit s.assistant.record?

variable {known : List Value} {names : List String} {s : Server} {id : String} {r : Request}

theorem sound_of_atRest {debugging : Bool} (hrest : AtRest ⟨debugging, known⟩ s.assistant)
    (hrecords : RecordsFit s.assistant.record?) : s.Sound known := by
  refine ⟨?_, hrecords⟩
  rw [hrest.serving.debugging]
  exact hrest

theorem sound_started (settings : Settings) (address : String) (journal : Journal.Context)
    (catalog : Catalog.Table) :
    Sound (settings.knownBrands.map .str) (started settings address (assistantOf journal settings) catalog) := by
  obtain ⟨hrest, hnone⟩ := prepared journal (settings.knownBrands.map .str) (assistantOf journal settings).setup
  exact sound_of_atRest hrest fun id session hs => nomatch (hnone id).symm.trans hs

/-! ### one request -/

theorem Sound.answerTraced (h : s.Sound known) {α : Type} (x : Journal.Traced α)
    (respond : α → Except Fault Response) : (s.answerTraced x respond).2.Sound known :=
  ⟨⟨⟨h.rest.serving.ready, h.rest.serving.store, h.rest.serving.known, rfl⟩, h.rest.table, h.rest.users,
    h.rest.written⟩, h.records⟩

theorem Sound.answerCall (h : s.Sound known) (hknown : Message.brandNames known = .ok names) {c : Call}
    (hc : c.IsPlain) (respond : Answer → Except Fault Response) : (s.answerCall c respond).2.Sound known := by
  obtain ⟨outcome, -, hrest, hdone⟩ := call_done h.rest hc.isNamed
  exact sound_of_atRest hrest (h.records.done hknown hc hdone)

theorem Sound.reading (h : s.Sound known) {α : Type} {check : Value → Checked α} {go : α → Outcome}
    (hgo : ∀ a, r.body.read check = .ok a → (go a).2.Sound known) : (s.reading r check go).2.Sound known := by
  unfold Server.reading
  split
  · rename_i a ha
    exact hgo a ha
  · exact h

theorem Sound.message (h : s.Sound known) (hknown : Message.brandNames known = .ok names) (id : String)
    (r : Request) : (s.message id r).2.Sound known := by
  refine h.reading fun asked hasked => h.answerCall hknown ?_ _
  obtain ⟨v, hwritable, hv⟩ := of_read hasked
  exact ⟨⟨id, rfl⟩, ⟨asked.text, rfl⟩, (of_withCurrent hwritable hv).2⟩

theorem Sound.health (h : s.Sound known) (hknown : Message.brandNames known = .ok names) :
    s.health.2.Sound known := by
  have hcall := h.answerCall hknown (c := .health) trivial fun _ => mismatched
  exact hcall.answerTraced (Catalog.health _) fun _ => .ok (.empty 200)

/-- **A request leaves filters that fit in the records.** -/
theorem Sound.respond (h : s.Sound known) (hknown : Message.brandNames known = .ok names) (r : Request) :
    (s.respond r).2.Sound known := by
  show (s.respondInFull r).2.Sound known
  unfold respondInFull
  split
  · exact h
  · rename_i route _
    split
    · cases route with
      | home | root => exact h
      | sessions => exact h.answerCall hknown (c := .create) trivial _
      | session id =>
        unfold follow
        dsimp only
        split
        · exact h.answerCall hknown (c := .read (.str id)) ⟨id, rfl⟩ _
        · exact h.answerCall hknown (c := .delete (.str id)) ⟨id, rfl⟩ _
      | message id => exact h.message hknown id r
      | reply => exact h.reading fun _ _ => h.answerTraced _ _
      | extraction => exact h.reading fun _ _ => h.answerTraced _ _
      | image => exact h.reading fun _ _ => h
      | queryPlan => exact h.answerTraced _ _
      | health => exact h.health hknown
    · exact h

/-- **Whatever is requested, the filters in the records fit.** -/
theorem Sound.after (h : s.Sound known) (hknown : Message.brandNames known = .ok names)
    (requests : List Request) : (s.after requests).Sound known := by
  induction requests generalizing s with
  | nil => exact h
  | cons r requests ih => exact ih (h.respond hknown r)

/-! ### a message to a session -/

/-- The filters that a message alone is found to ask for make a body exactly if it is a reset or its budget is
not beyond all doubles. -/
theorem isOk_extracted (hknown : Message.brandNames known = .ok names) {text : String} {debugging : Bool}
    {x : Option Message.Extraction}
    (hx : (Turn.extract known (.str text)).outcomeWhen debugging = .ok x) :
    (payloadBody ((x.map (·.filters)).getD [])).IsOk ↔
      Dialogue.isReset text.toList = true ∨ Message.HasFiniteBudget text.toList := by
  rw [Turn.outcomeWhen_extract (Dialogue.demandOptionalText_str text "strip"), hknown] at hx
  rw [isOk_payloadBody]
  split at hx
  · rename_i hreset
    obtain rfl := Except.ok.inj hx
    exact iff_of_true (isOk_check holds_nil _) (.inl hreset)
  · rename_i hreset
    cases he : (Message.extracted text.toList (.ok names)).outcomeWhen debugging with
    | error f =>
      rw [he] at hx
      cases hx
    | ok e =>
      rw [he] at hx
      obtain rfl := Except.ok.inj hx
      rw [or_iff_right hreset]
      exact Message.isOk_check_iff (Dialogue.extractWith_of_extracted he) _

/-- What the message of a session has come to: the turn is in the record. -/
structure Turned (s : Server) (id text : String) (turn : Turn) (s' : Server) : Prop where
  saved : s'.record? id = some turn.session
  messages : ∃ reply, turn.session.messages = (sessionOf (.str id) (s.record? id)).messages ++
    [⟨.user, .str text, Clock.moment⟩, ⟨.assistant, .str reply, Clock.moment⟩]
  fits : Filters.Holds Fitting turn.reply.filters
  extracted : (payloadBody turn.extracted).IsOk ↔
    Dialogue.isReset text.toList = true ∨ Message.HasFiniteBudget text.toList

/-- **A message that is accepted is replied to, and the turn is saved.** -/
theorem Sound.exists_turn (h : s.Sound known) (hknown : Message.brandNames known = .ok names) {text : String}
    (hlen : text.length ≤ maxMessage) {given : Value} (hgiven : FitsIfGiven given) (id : String) :
    ∃ turn, (s.assistant.call (.message (.str id) (.str text) given)).1 = some (.ok (.replied turn)) ∧
      Turned s id text turn
        { s with assistant := (s.assistant.call (.message (.str id) (.str text) given)).2 } := by
  obtain ⟨outcome, hcall, -, hdone⟩ := call_done h.rest (c := .message (.str id) (.str text) given) ⟨id, rfl⟩
  obtain ⟨base, hbase, hfits⟩ := exists_base hgiven h.records id
  have hread : 2 * text.toList.length + 2 ≤ Numeral.maxDigits := by
    rw [String.length_toList]
    unfold maxMessage at hlen
    unfold Numeral.maxDigits
    omega
  have hbaseFits : Filters.Holds Fitting base :=
    ⟨hfits.nodup, fun p hp => (hfits.values p hp).imp fun _ hkept => ⟨hkept.1, hkept.2.1⟩⟩
  obtain ⟨r, hr⟩ := Dialogue.exists_replied hknown hread hbase hbaseFits s.assistant.journal.debugging
  have hkept := Dialogue.holds_of_replied (Message.merges_kept names) hknown hbase hfits hr
  have hwritable : Value.haveWritable r.filters.kept = true := by
    rw [kept_of_named hkept.named]
    exact haveWritable_of_kept hkept
  have hsaid : (Value.str text).isWritable = true := rfl
  have hwritten := h.rest.written.sessionAfter id hsaid hwritable
  generalize hafter : (s.assistant.call (.message (.str id) (.str text) given)).2.record? = records' at hdone
  cases hdone with
  | failed hf => cases hr.symm.trans hf
  | unwritten hreply hunwritten =>
    obtain rfl := Except.ok.inj (hr.symm.trans hreply)
    exact absurd hwritten hunwritten
  | @replied _ _ _ turn r' _ hreply _ hturn hmessages _ hextracted hhere _ =>
    obtain rfl := Except.ok.inj (hr.symm.trans hreply)
    obtain ⟨x, hx, hturned⟩ := hextracted
    refine ⟨turn, hcall, (congrFun hafter id).trans hhere, ⟨r.message, hmessages⟩, ?_, ?_⟩
    · rw [hturn]
      exact Dialogue.holds_of_replied (Message.merges_fitting names) hknown hbase hbaseFits hr
    · rw [hturned]
      exact isOk_extracted hknown hx

/-- The request has been answered with a reply. -/
def Replied (outcome : Except Fault Response) : Prop :=
  ∃ body, outcome = .ok ⟨200, body, none⟩

theorem replied_respondWith {body : Checked Value} : Replied (respondWith body) ↔ body.IsOk := by
  cases body with
  | ok v => exact iff_of_true ⟨_, rfl⟩ ⟨v, rfl⟩
  | faulty => exact iff_of_false nofun nofun

/-- The request is answered with a reply, or the record of the session is the same as before. -/
def AllOrNothing (s : Server) (id : String) (r : Request) : Prop :=
  Replied (s.respond r).1 ∨ (s.respond r).2.record? id = s.record? id

/-- The request of a message: it is answered with a reply exactly if the message is a reset or its budget is not
beyond all doubles, and it is saved in any case. -/
theorem Sound.respond_message (h : s.Sound known) (hknown : Message.brandNames known = .ok names) {asked : Asked}
    (hmethod : r.method = "POST") (hroute : Route.ofPath? r.target.path = some (.message id))
    (hasked : r.body.read Asked.withCurrent = .ok asked) :
    (Replied (s.respond r).1 ↔
      Dialogue.isReset asked.text.toList = true ∨ Message.HasFiniteBudget asked.text.toList) ∧
    ∃ turn, Turned s id asked.text turn (s.respond r).2 := by
  obtain ⟨v, hwritable, hv⟩ := of_read hasked
  obtain ⟨hlen, hgiven⟩ := of_withCurrent hwritable hv
  obtain ⟨turn, hcall, hturned⟩ := h.exists_turn hknown hlen hgiven id
  have hrespond : s.respond r = (respondWith (turnBody id turn),
      { s with assistant := (s.assistant.call (.message (.str id) (.str asked.text) asked.given)).2 }) := by
    rw [respond_of_route r hroute (List.mem_singleton.mpr hmethod) (hmethod ▸ post_ne_head)]
    unfold Server.follow Server.message Server.reading
    simp only [hasked]
    exact answerCall_of_call hcall rfl _
  rw [hrespond]
  refine ⟨?_, turn, hturned⟩
  rw [replied_respondWith, isOk_turnBody, and_iff_right (isOk_payloadBody.mpr (isOk_check hturned.fits _))]
  exact hturned.extracted

/-- A turn that is saved has changed the record. -/
theorem Turned.changed {text : String} {turn : Turn} {s' : Server} (h : Turned s id text turn s') :
    s'.record? id ≠ s.record? id := by
  intro hsame
  obtain ⟨reply, hmessages⟩ := h.messages
  have hrecord : s.record? id = some turn.session := hsame.symm.trans h.saved
  rw [hrecord] at hmessages
  have hlength := congrArg List.length hmessages
  rw [List.length_append] at hlength
  exact absurd hlength (Nat.ne_of_lt (Nat.lt_add_of_pos_right (Nat.zero_lt_succ 1)))

/-- **A message request is all or nothing exactly if the message is a reset or its budget is not beyond all
doubles.** Whatever has been requested before: the turn of any message that is accepted is saved, and one whose
budget is beyond all doubles cannot be told of in a response. -/
theorem allOrNothing_iff (settings : Settings) (address : String) (journal : Journal.Context)
    (catalog : Catalog.Table) (requests : List Request) {asked : Asked} (hmethod : r.method = "POST")
    (hroute : Route.ofPath? r.target.path = some (.message id))
    (hasked : r.body.read Asked.withCurrent = .ok asked) :
    ((started settings address (assistantOf journal settings) catalog).after requests).AllOrNothing id r ↔
      Dialogue.isReset asked.text.toList = true ∨ Message.HasFiniteBudget asked.text.toList := by
  have hknown := Message.brandNames_texts settings.knownBrands
  have hsound := (sound_started settings address journal catalog).after hknown requests
  obtain ⟨hreplied, turn, hturned⟩ := hsound.respond_message hknown hmethod hroute hasked
  rw [← hreplied]
  exact or_iff_left hturned.changed

/-- A budget beyond all doubles. -/
def endlessBudget : String :=
  "under 1" ++ String.ofList (List.replicate 309 '0')

/-- The request for it, to a session. -/
def endlessRequest : Request :=
  ⟨"POST", ⟨pathOfSession, []⟩, .value (messageBody endlessBudget)⟩

/-- On a server that has just been started, the request for an endless budget fails, and leaves a record. -/
theorem not_allOrNothing_of_endlessBudget :
    ¬ (started .defaults "http://localhost:8080" (assistantOf (.initial false) .defaults) []).AllOrNothing "s"
      endlessRequest := by
  have hroute : Route.ofPath? endlessRequest.target.path = some (.message "s") := by decide +kernel
  have hasked : endlessRequest.body.read Asked.withCurrent = .ok ⟨endlessBudget, none⟩ :=
    read_of_ok rfl (withCurrent_messageBody (by decide +kernel))
  have hendless : ¬ (Dialogue.isReset endlessBudget.toList = true ∨
      Message.HasFiniteBudget endlessBudget.toList) := by
    decide +kernel
  have hiff := allOrNothing_iff .defaults "http://localhost:8080" (.initial false) [] [] rfl hroute hasked
  exact fun h => hendless (hiff.mp h)

end Api.Server

end Outfitter
