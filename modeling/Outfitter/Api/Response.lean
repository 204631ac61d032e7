import Outfitter.Assistant.Turn
import Outfitter.Assistant.Call
import Outfitter.Json.Exchange
import Outfitter.Message.Extraction
import Outfitter.Plan.Record
import Outfitter.Schema.Payload

/-!
Responses: a status, a body, and for a redirection the place to go to.

The filters in a body have the form of a payload. Filters that do not fit it make no body.
-/

namespace Outfitter.Api

open Schema

structure Response where
  status : Nat
  body : Value
  location : Option String

namespace Response

/-- A body with a status. What is no finite number in it is sent as null. -/
def ofBody (status : Nat) (body : Value) : Response :=
  ⟨status, body.exchanged, none⟩

/-- The response without its body. -/
def headOnly (r : Response) : Response :=
  { r with body := .null }

/-- Nothing more than a status. -/
def empty (status : Nat) : Response :=
  ofBody status .null

/-- A refusal with a reason. -/
def refusal (status : Nat) (reason : String) : Response :=
  ofBody status (.object [("detail", .str reason)])

def notFound : Response :=
  refusal 404 "Not Found"

def sessionNotFound (id : String) : Response :=
  refusal 404 s!"Session {id} not found"

def methodNotAllowed : Response :=
  refusal 405 "Method Not Allowed"

def unreadable : Response :=
  refusal 400 "There was an error parsing the body"

/-- The refusal of a request with these problems. What is shown of a problem has room for the value at
fault, so this has to be one that can be sent. -/
def unprocessable (problems : List Problem) : Except Fault Response :=
  if problems.all fun p => (p.value.map Value.isFinite).getD true then
    .ok (ofBody 422 (.object [("detail", .list (problems.map Problem.toValue))]))
  else .error .notSendable

/-- The other place to go to. -/
def redirection (location : String) : Response :=
  ⟨307, .null, some location⟩

end Response

/-! ### bodies -/

/-- Filters as a payload in a body. -/
def payloadBody (filters : Fields) : Checked Value :=
  (fun p => .object p.toFields) <$> Payload.check .notRecord (.object filters)

/-- The part of a body under a name. -/
def part (name : String) (c : Checked Value) : Checked Fields :=
  (fun v => [(name, v)]) <$> c.within (.field name)

/-- Parts of a body in one. -/
def parts (cs : List (Checked Fields)) : Checked Value :=
  (fun fields => .object fields.flatten) <$> Checked.sequence cs

/-- A part that always fits. -/
def plain (name : String) (v : Value) : Checked Fields :=
  .ok [(name, v)]

/-- The parts of a body about a reply. -/
def replyParts (r : Dialogue.Reply) : List (Checked Fields) :=
  [plain "message" (.str r.message), part "filters" (payloadBody r.filters),
    plain "apply_filters" (.bool r.applyFilters),
    plain "meta" (.object [("missing", .ofStrings r.missing),
      ("complements", .ofStrings r.complements), ("quick_replies", .ofStrings r.quickReplies),
      ("cleared", .bool r.cleared)])]

/-- The body about a reply. -/
def replyBody (r : Dialogue.Reply) : Checked Value :=
  parts (replyParts r)

/-- The body about a turn of a session. -/
def turnBody (id : String) (t : Assistant.Turn) : Checked Value :=
  parts (replyParts t.reply ++
    [plain "session_id" (.str id), part "extracted" (payloadBody t.extracted)])

/-- The body about what a message says. -/
def extractionBody (e : Message.Extraction) : Checked Value :=
  parts [part "filters" (payloadBody e.filters),
    plain "intent" (.object [("is_event_flow", .bool e.intent.isEventFlow),
      ("wants_outfit", .bool e.intent.wantsOutfit)])]

/-- An utterance in a body; what was said has to be a text. -/
def utteranceBody (u : Utterance) : Checked Value :=
  parts [plain "role" (.str u.role.name), part "text" (Value.str <$> text u.text),
    plain "ts" (.str u.time)]

/-- The body about a session. -/
def sessionBody (s : Session) : Checked Value :=
  parts [part "id" (Value.str <$> text s.id), plain "created_at" (.str s.created),
    part "messages" (.list <$> Checked.sequence (s.messages.zipIdx.map fun (u, i) =>
      (utteranceBody u).within (.item i))),
    part "filters" (payloadBody s.filters)]

/-- The body about a plan and the filters that it was made from. -/
def planBody (filters : Fields) (plan : QueryPlan) : Checked Value :=
  (payloadBody filters).map fun filters =>
    .object [("filters", filters), ("sort", .str plan.sort), ("page", .int plan.page),
      ("limit", .int plan.limit), ("stages", .ofStrings plan.kinds),
      ("pipeline", .list plan.pipeline)]

/-- How one part of the service is: its status, the time it took to answer, a complaint, and a number of
sessions. -/
def partHealth (status : String) (latency complaint sessions : Value) : Value :=
  .object [("status", .str status), ("latency_ms", latency), ("error", complaint),
    ("sessions", sessions)]

/-- How the store is. -/
def storeHealth : Assistant.Health → Value
  | .ok sessions => partHealth "ok" (.int 0) .null (.int sessions)
  | .unavailable => partHealth "unavailable" .null (.str Assistant.Health.unavailableReason) .null
  | .failing complaint => partHealth "error" .null (.str complaint) .null

/-- The body about how the service is. The catalog always is well. -/
def healthBody (h : Assistant.Health) : Value :=
  let healthy := match h with
    | .ok _ => true
    | _ => false
  .object [("status", .str (if healthy then "healthy" else "unhealthy")),
    ("services", .object [("session_store", storeHealth h),
      ("catalog", partHealth "ok" .null .null .null)]),
    ("timestamp", .str Clock.moment)]

end Outfitter.Api
