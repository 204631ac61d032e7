import Outfitter.Api.Request
import Outfitter.Api.Route
import Outfitter.Assistant.Direct
import Outfitter.Assistant.Round
import Outfitter.Catalog.Traced
import Outfitter.Message.Image
import Outfitter.Settings

/-!
The server: requests and their responses.

A request is answered by the assistant or by the catalog. It fails where its response cannot be built;
what has been done by then stays done.
-/

namespace Outfitter.Api

open Journal

structure Server where
  settings : Settings
  /-- The address by which the server is reached. -/
  address : String
  assistant : Assistant
  catalog : Catalog.Table

namespace Server

/-- The assistant under some settings. -/
def assistantOf (journal : Context) (s : Settings) : Assistant :=
  .unready journal (s.knownBrands.map .str) <|
    match s.sessionBackend with
    | .memory => .memory
    | .redis => .server {
        host := .str s.redisHost
        port := .int s.redisPort
        password := (Value.str s.redisPassword).orElse .null
        database := .int s.redisDatabase
        lifetime := .int s.sessionLifetime }

/-- A server that has been started. The assistant has made its store. -/
def started (settings : Settings) (address : String) (a : Assistant) (catalog : Catalog.Table) :
    Server :=
  ⟨settings, address, (a.call .prepare).2, catalog⟩

/-- An outcome, and the server after it. -/
abbrev Outcome :=
  Except Fault Response × Server

/-- A response from a body that may not fit. -/
def respondWith (body : Schema.Checked Value) : Except Fault Response :=
  (body.toExcept .invalid).map (Response.ofBody 200)

/-- A computation with marks in the journal, and the response to what it comes to. -/
def answerTraced {α : Type} (s : Server) (x : Traced α) (respond : α → Except Fault Response) :
    Outcome :=
  let (outcome, assistant) := s.assistant.observe x
  (outcome >>= respond, { s with assistant := assistant })

/-- A call of the assistant, and the response to its answer. -/
def answerCall (s : Server) (c : Assistant.Call)
    (respond : Assistant.Answer → Except Fault Response) : Outcome :=
  let (outcome, assistant) := s.assistant.call c
  ((outcome.getD (.error .noStore)) >>= respond, { s with assistant := assistant })

/-- The request as read from its body, or the refusal of it. -/
def reading {α : Type} (s : Server) (r : Request) (check : Value → Schema.Checked α)
    (go : α → Outcome) : Outcome :=
  match r.body.read check with
  | .ok a => go a
  | .error refused => (refused, s)

/-- The answer of another kind than the call asks for. -/
def mismatched : Except Fault Response :=
  .error .unsupported

/-! ### endpoints -/

def create (s : Server) : Outcome :=
  s.answerCall .create fun
    | .created session => .ok (.ofBody 201 (.object [("id", session.id)]))
    | _ => mismatched

def read (s : Server) (id : String) : Outcome :=
  s.answerCall (.read (.str id)) fun
    | .read (some session) => respondWith (sessionBody session)
    | .read none => .ok (.sessionNotFound id)
    | _ => mismatched

def delete (s : Server) (id : String) : Outcome :=
  s.answerCall (.delete (.str id)) fun
    | .deleted existed => .ok (if existed then .empty 204 else .sessionNotFound id)
    | _ => mismatched

def message (s : Server) (id : String) (r : Request) : Outcome :=
  s.reading r Asked.withCurrent fun asked =>
    s.answerCall (.message (.str id) (.str asked.text) asked.given) fun
      | .replied turn => respondWith (turnBody id turn)
      | _ => mismatched

def reply (s : Server) (r : Request) : Outcome :=
  s.reading r Asked.withActive fun asked =>
    s.answerTraced (Assistant.replyTo s.assistant.known (.str asked.text) asked.given) fun reply =>
      respondWith (replyBody reply)

def extract (s : Server) (r : Request) : Outcome :=
  s.reading r ToRead.check fun asked =>
    s.answerTraced
      (Assistant.extractFrom s.assistant.known (.str asked.text) (.ofStrings asked.brands)) fun e =>
        respondWith (extractionBody e)

def image (s : Server) (r : Request) : Outcome :=
  s.reading r Picture.check fun picture =>
    (do respondWith (payloadBody (← Message.imageFilters picture.toFields)), s)

/-- The fields that a plan is to show, from a parameter that lists them. -/
def shownFields (v : Value) : Value :=
  match Filters.listed v with
  | [] => .null
  | names => .object (Fields.ofPairs (names.map fun (name : String) => (name, .int 1)))

def queryPlan (s : Server) (r : Request) : Outcome :=
  let params := r.target.params
  let shown := shownFields (Fields.value params "fields")
  s.answerTraced (Catalog.listed s.catalog (.object (params.without "fields")) shown)
    fun (filters, plan) => respondWith (planBody filters plan)

def health (s : Server) : Outcome :=
  let (outcome, s) := s.answerCall .health fun
    | .health h => .ok (.ofBody 200 (healthBody h))
    | _ => mismatched
  let (_, s) := s.answerTraced (Catalog.health s.catalog) fun _ => .ok (.empty 200)
  (outcome, s)

/-- What the service says of itself. -/
def root (s : Server) : Response :=
  .ofBody 200 (.object [("name", .str s.settings.appName), ("version", .str s.settings.appVersion),
    ("status", .str "running"), ("docs", .str "/docs")])

/-! ### dispatch -/

/-- Characters that stay as they are in the address of a redirection. -/
def isAddressChar (c : Char) : Bool :=
  c.isAlphanum || ":/%#?=@[]!$&'()*+,;_.-~".toList.contains c

/-- Characters that would end a path. -/
def endsPath (c : Char) : Bool :=
  c == '?' || c == '#'

/-- The address of a path on the server, with the query of a request. -/
def addressOf (s : Server) (path : List Char) (r : Request) : String :=
  let path := Text.percentEncoded (!endsPath ·) path
  let query := if r.target.query.isEmpty then [] else '?' :: r.target.query
  String.ofList (Text.percentEncoded isAddressChar (s.address.toList ++ path ++ query))

/-- The response to a request whose path leads nowhere. -/
def astray (s : Server) (r : Request) : Response :=
  match Route.detour? r.target.path with
  | some path => .redirection (s.addressOf path r)
  | none => .notFound

/-- The response to a request by a method that the route knows. -/
def follow (s : Server) (r : Request) : Route → Outcome
  | .home => (.ok (.redirection "/docs"), s)
  | .root => (.ok s.root, s)
  | .sessions => s.create
  | .session id => if r.method = "GET" then s.read id else s.delete id
  | .message id => s.message id r
  | .reply => s.reply r
  | .extraction => s.extract r
  | .image => s.image r
  | .queryPlan => s.queryPlan r
  | .health => s.health

/-- The full response to a request. -/
def respondInFull (s : Server) (r : Request) : Outcome :=
  match Route.ofPath? r.target.path with
  | none => (.ok (s.astray r), s)
  | some route =>
    if r.method ∈ route.methods then s.follow r route else (.ok .methodNotAllowed, s)

/-- The response to a request. One by `HEAD` is not answered with a body. -/
def respond (s : Server) (r : Request) : Outcome :=
  let (outcome, s) := s.respondInFull r
  (if r.method = "HEAD" then outcome.map Response.headOnly else outcome, s)

end Server

end Outfitter.Api
