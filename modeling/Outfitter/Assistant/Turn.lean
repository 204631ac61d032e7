import Outfitter.Dialogue.Traced
import Outfitter.Session

/-!
A turn of a session: a message is read, the reply is planned, and both are added to the session, whose
filters become those of the reply.
-/

namespace Outfitter.Assistant

open Journal

/-- What a turn comes to: the session after it, the reply, and the filters of the message alone. -/
structure Turn where
  session : Session
  reply : Dialogue.Reply
  extracted : Fields

namespace Turn

/-- The filters into which those of the message are merged: the ones that are given with it, else the
ones of the session. -/
def base (session : Session) (given : Value) : Value :=
  match given with
  | .null => .object session.filters
  | v => v

/-- What a message says when this is how it is read; nothing is asked of a reset. -/
def extractBy (reading : Traced Message.Extraction) (text : Value) : Traced (Option Message.Extraction) := do
  if ← liftExcept (Dialogue.isResetOf text) then return none
  some <$> Traced.inStage "EXTRACT" "extract_filters" reading

/-- What a message says. -/
def extract (known : List Value) (text : Value) : Traced (Option Message.Extraction) :=
  extractBy (Message.extractedFrom text (.list known)) text

/-- The reply to a message that says this. -/
def planReply (known : List Value) (text base : Value) (e : Option Message.Extraction) :
    Traced Dialogue.Reply :=
  Traced.inStage "PLAN" "plan_reply" <| Dialogue.planned text base fun trimmed =>
    match e with
    | some e => pure e
    | none => Message.extracted trimmed (Message.brandNames known)

/-- The turn of a message in a session when this is how it is read and these brands are known. -/
def planBy (reading : Traced Message.Extraction) (known : List Value) (session : Session)
    (text given : Value) : Traced Turn := do
  let e ← extractBy reading text
  let r ← planReply known text (base session given) e
  return ⟨session.record text r.message r.filters, r, (e.map (·.filters)).getD []⟩

/-- The turn of a message in a session, when these brands are known. -/
def plan (known : List Value) (session : Session) (text given : Value) : Traced Turn :=
  planBy (Message.extractedFrom text (.list known)) known session text given

end Turn

end Outfitter.Assistant
