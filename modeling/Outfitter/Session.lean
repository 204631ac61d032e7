import Outfitter.Clock
import Outfitter.Json.Exchange

/-!
Sessions: what is remembered of a conversation.
-/

namespace Outfitter

/-- Who said something in a conversation. -/
inductive Role where
  | user
  | assistant
  deriving DecidableEq

def Role.name : Role → String
  | user => "user"
  | assistant => "assistant"

/-- Something said in a conversation, and when. What a user says may be of any shape. -/
structure Utterance where
  role : Role
  text : Value
  time : String

/-- A session has an identifier, in general a text. -/
structure Session where
  id : Value
  created : String
  messages : List Utterance
  filters : Fields

/-- An utterance as a value. -/
def Utterance.toValue (u : Utterance) : Value :=
  .object [("role", .str u.role.name), ("text", u.text), ("ts", .str u.time)]

namespace Session

/-- The identifier that is generated after `n` others. -/
def generatedId (n : Nat) : String :=
  String.ofList (Text.hex 8 (n + 1) ++ List.replicate 24 '0')

/-- A session in which nothing has been said. -/
def empty (id : Value) : Session :=
  ⟨id, Clock.moment, [], []⟩

/-- A new session. Unless its identifier says something it gets one that follows on `n` others; with it
comes the number of identifiers generated from then on. -/
def fresh (id : Value) (n : Nat) : Session × Nat :=
  if id.isGiven then (empty id, n) else (empty (.str (generatedId n)), n + 1)

/-- The session after a message and the reply to it, with the filters from then on as they are kept. -/
def record (s : Session) (text : Value) (reply : String) (filters : Fields) : Session :=
  { s with
    messages := s.messages ++
      [⟨.user, text, Clock.moment⟩, ⟨.assistant, .str reply, Clock.moment⟩]
    filters := filters.kept }

/-- A session as a value. -/
def toValue (s : Session) : Value :=
  .object [("id", s.id), ("created_at", .str s.created),
    ("messages", .list (s.messages.map Utterance.toValue)), ("filters", .object s.filters)]

end Session

end Outfitter
