import Outfitter.Api.Server
import Outfitter.Proofs.Journal.Writable
import Outfitter.Proofs.Json.Exchange
import Outfitter.Proofs.Schema.Payload

/-!
The bodies of a conversation.

Filters that ask for something natural go into a body as a payload, and the payload comes back as filters
that ask for the same, tidied (`shows_toFilters`).
-/

namespace Outfitter.Api

open Filters Schema

variable {filters : Fields} {l : Look}

/-! ### bodies of responses -/

theorem answerTraced_of_ok {α : Type} {s : Server} {x : Journal.Traced α} {v : α}
    (h : (x.runFrom s.assistant.journal).1 = .ok v) (respond : α → Except Fault Response) :
    s.answerTraced x respond = (respond v, { s with assistant := (s.assistant.observe x).2 }) := by
  show ((x.runFrom s.assistant.journal).1 >>= respond, _) = _
  rw [h]
  rfl

/-- The body of what is asked for. -/
def lookBody (l : Look) : Value :=
  .object (payloadOf l).toFields

theorem payloadBody_of_means (h : Shows Means filters l) (hl : l.Neat) :
    payloadBody filters = .ok (lookBody l) := by
  unfold payloadBody
  rw [check_of_shows h hl]
  rfl

theorem Shows.means (h : Shows Is filters l) (hl : l.Neat) : Shows Means filters l :=
  h.mono fun _ x hx hc => hc.means (hx.elim (hl.least x) (hl.most x))

theorem payloadBody_of_shows (h : Shows Is filters l) (hl : l.Neat) :
    payloadBody filters = .ok (lookBody l) :=
  payloadBody_of_means (Shows.means h hl) hl

/-- What is told of a reply besides its filters. -/
def metaBody (r : Dialogue.Reply) : Value :=
  .object [("missing", .ofStrings r.missing), ("complements", .ofStrings r.complements),
    ("quick_replies", .ofStrings r.quickReplies), ("cleared", .bool r.cleared)]

/-- The body of a reply with these filters, and with more parts behind. -/
def bodyOf (r : Dialogue.Reply) (filters : Value) (more : Fields) : Value :=
  .object <| ("message", .str r.message) :: ("filters", filters) ::
    ("apply_filters", .bool r.applyFilters) :: ("meta", metaBody r) :: more

theorem replyBody_of_ok {r : Dialogue.Reply} {v : Value} (h : payloadBody r.filters = .ok v) :
    replyBody r = .ok (bodyOf r v []) := by
  unfold replyBody replyParts part
  rw [h]
  rfl

theorem turnBody_of_ok {id : String} {t : Assistant.Turn} {v w : Value}
    (h : payloadBody t.reply.filters = .ok v) (hw : payloadBody t.extracted = .ok w) :
    turnBody id t = .ok (bodyOf t.reply v [("session_id", .str id), ("extracted", w)]) := by
  unfold turnBody replyParts part
  rw [h, hw]
  rfl

theorem isFinite_lookBody (l : Look) : (lookBody l).isFinite = true :=
  isFinite_of_shows (shows_payloadOf l)

/-- A body with finite numbers is sent as it is. -/
theorem ofBody_of_finite {status : Nat} {body : Value} (h : body.isFinite = true) :
    Response.ofBody status body = ⟨status, body, none⟩ := by
  unfold Response.ofBody
  rw [Value.exchanged_of_isFinite body h]

theorem isFinite_metaBody (r : Dialogue.Reply) : (metaBody r).isFinite = true := by
  show (Value.isFinite (.ofStrings _) && (Value.isFinite (.ofStrings _) &&
    (Value.isFinite (.ofStrings _) && true))) = true
  rw [Value.isFinite_texts, Value.isFinite_texts, Value.isFinite_texts]
  rfl

theorem isFinite_bodyOf (r : Dialogue.Reply) {filters : Value} (hf : filters.isFinite = true) {more : Fields}
    (hm : ∀ p ∈ more, p.2.isFinite = true) : (bodyOf r filters more).isFinite = true := by
  refine (Value.haveFinite_iff _).mpr fun p hp => ?_
  simp only [List.mem_cons] at hp
  rcases hp with rfl | rfl | rfl | rfl | hp
  · rfl
  · exact hf
  · rfl
  · exact isFinite_metaBody r
  · exact hm p hp

/-! ### bodies of requests -/

/-- The body of a message. -/
def messageBody (text : String) : Value :=
  .object [("text", .str text)]

/-- The body of a message with filters. -/
def messageBodyWith (text : String) (filters : Value) : Value :=
  .object [("text", .str text), ("active_filters", filters)]

theorem isWritable_lookBody (hl : l.Neat) : (lookBody l).isWritable = true := by
  unfold lookBody Value.isWritable
  exact haveWritable_of_shows (Shows.means (shows_payloadOf l) hl) hl

theorem isWritable_messageBodyWith (text : String) {filters : Value} (h : filters.isWritable = true) :
    (messageBodyWith text filters).isWritable = true := by
  show (true && (filters.isWritable && true)) = true
  rw [h]
  rfl

theorem read_of_ok {α : Type} {check : Value → Checked α} {v : Value} {a : α} (hv : v.isWritable = true)
    (h : check v = .ok a) : (Body.value v).read check = .ok a := by
  have hcontent : (Body.value v).content = .ok (.value v) := if_pos hv
  unfold Body.read
  rw [hcontent]
  show inBody ((check v).about v) = .ok a
  rw [h]
  rfl

theorem required_text {fields : Fields} {text : String} (hget : Fields.get? fields "text" = some (.str text))
    (hlen : text.length ≤ maxMessage) : required fields "text" (textAtMost maxMessage) = .ok text :=
  required_present hget (if_neg (Nat.not_lt.mpr hlen))

theorem withCurrent_messageBody {text : String} (hlen : text.length ≤ maxMessage) :
    Asked.withCurrent (messageBody text) = .ok ⟨text, none⟩ := by
  show Asked.mk <$> required _ "text" (textAtMost maxMessage) <*> filtersUnder _ _ = _
  rw [required_text rfl hlen]
  rfl

theorem withActive_null {text : String} (hlen : text.length ≤ maxMessage) :
    Asked.withActive (messageBodyWith text .null) = .ok ⟨text, none⟩ := by
  show Asked.mk <$> required _ "text" (textAtMost maxMessage) <*> filtersUnder _ _ = _
  rw [required_text rfl hlen]
  rfl

theorem withActive_lookBody {text : String} (hlen : text.length ≤ maxMessage) (hl : l.Neat) :
    Asked.withActive (messageBodyWith text (lookBody l)) = .ok ⟨text, some (payloadOf l)⟩ := by
  have hfilters : filtersUnder [("text", .str text), ("active_filters", lookBody l)]
      ["active_filters", "activeFilters"] = .ok (some (payloadOf l)) :=
    optional_present rfl _ (orNone_ok nofun (check_of_shows (Shows.means (shows_payloadOf l) hl) hl _))
  show Asked.mk <$> required _ "text" (textAtMost maxMessage) <*> filtersUnder _ _ = _
  rw [required_text rfl hlen, hfilters]
  rfl

/-- **A payload comes back as filters that ask for the same**, tidied. -/
theorem shows_toFilters (l : Look) : Shows Is (payloadOf l).toFilters l.tidied :=
  shows_normalize (shows_payloadOf l).gives fun v x h => by
    cases h with
    | int => exact .inl ⟨_, rfl⟩
    | float => exact .inr ⟨_, rfl⟩

end Outfitter.Api
