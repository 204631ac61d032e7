import Outfitter.Api.Response
import Outfitter.Api.Target
import Outfitter.Json.Reader
import Outfitter.Text.Encoding
import Outfitter.Text.LetterCase

/-!
Requests, and what their bodies have to look like.
-/

namespace Outfitter.Api

open Schema Text

/-- What comes with a request. -/
inductive Body where
  | none
  | value (v : Value)
  /-- A text of a media type. -/
  | text (content type : String)

/-- The body, if it can be sent. -/
def Body.demandSendable (b : Body) : Except Fault Body :=
  match b with
  | .value v => if v.isFinite then v.demandWritable.map .value else .error .notSendable
  | b => .ok b

structure Request where
  method : String
  target : Target
  body : Body

/-- The request by a method, in letters of either case, that asks for a target. -/
def Request.prepare (method target : String) (body : Body) : Except Fault Request := do
  let target ← Target.read target
  let body ← body.demandSendable
  return ⟨method.map Char.toUpper, target, body⟩

/-! ### bodies -/

/-- A media type without its parameters, if it has two parts. -/
def mediaType? (type : String) : Option (List Char × List Char) :=
  let name := lower (trim (cut ';' type.toList).1)
  if name.count '/' = 1 then some (cut '/' name) else Option.none

/-- Texts of this media type are JSON. A text without a media type is JSON, too. -/
def isJson (type : String) : Bool :=
  type.isEmpty ||
    match mediaType? type with
    | some (main, sub) =>
      main == "application".toList && (sub == "json".toList || "+json".toList.isSuffixOf sub)
    | Option.none => false

/-- What a body holds. -/
inductive Content where
  | nothing
  | value (v : Value)
  /-- Something that is no value. -/
  | other

/-- Why a body is not gone into: a refusal, or the fault for which there can be none. -/
abbrev Refused :=
  Except Fault Response

/-- The problems of a body, told from the request. -/
def inBody {α : Type} (c : Checked α) : Except Refused α :=
  (c.within (.field "body")).toExcept Response.unprocessable

/-- How far lists and objects in a body may stand within each other. -/
def maxNesting : Nat :=
  950

/-- What a text of JSON holds. It is sent as bytes, which may turn out to be units of more than one. A mark
of the byte order is passed over. -/
def jsonContent (content : String) : Except Refused Content :=
  match Encoding.decode? (content.toList.flatMap utf8) with
  | none => .error (.ok .unreadable)
  | some chars =>
    let chars := match chars with
      | '\ufeff' :: rest => rest
      | chars => chars
    match Json.readWithin maxNesting (String.ofList chars) with
    | .ok v => .ok (.value v)
    | .error (.malformed _ position) =>
      inBody ((Checked.fail .badJson).within (.item position))
    | .error (.tooManyDigits _) | .error (.tooDeep _) => .error (.ok .unreadable)

/-- What a body holds. A whole number with too many digits cannot be read. -/
def Body.content : Body → Except Refused Content
  | .none => .ok .nothing
  | .value v => if v.isWritable then .ok (.value v) else .error (.ok .unreadable)
  | .text content type =>
    if content.isEmpty then .ok .nothing
    else if isJson type then jsonContent content
    else .ok .other

/-- What a body stands for. -/
def Body.read {α : Type} (check : Value → Checked α) (b : Body) : Except Refused α := do
  match ← b.content with
  | .nothing => inBody (.fail .missing)
  | .value v => inBody ((check v).about v)
  | .other => inBody (.fail .noFields)

/-! ### what is asked -/

/-- The length that a message may have. -/
def maxMessage : Nat :=
  1000

/-- Filters under one of some names. -/
def filtersUnder (fields : Fields) (names : List String) : Checked (Option Payload) :=
  optional fields names none (orNone (Payload.check fun _ => .noFields))

/-- A message, and filters that come with it. -/
structure Asked where
  text : String
  filters : Option Payload

/-- A message with the filters of the caller. -/
def Asked.withActive : Value → Checked Asked :=
  record .noFields fun fields =>
    Asked.mk <$> required fields "text" (textAtMost maxMessage)
      <*> filtersUnder fields ["active_filters", "activeFilters"]

/-- A message for a session, with filters in the place of those of the session. -/
def Asked.withCurrent : Value → Checked Asked :=
  record .noFields fun fields =>
    Asked.mk <$> required fields "text" (textAtMost maxMessage)
      <*> filtersUnder fields ["current_filters", "currentFilters"]

/-- The filters as a value, null if there are none. -/
def Asked.given (a : Asked) : Value :=
  (a.filters.map fun p => .object p.toFilters).getD .null

/-- A message that is to be read, and further brands. -/
structure ToRead where
  text : String
  brands : List String

def ToRead.check : Value → Checked ToRead :=
  record .noFields fun fields =>
    ToRead.mk <$> required fields "text" (textAtMost maxMessage)
      <*> optional fields ["known_brands", "knownBrands"] [] texts

/-- What is seen in a picture. -/
structure Picture where
  piece : Option String
  colors : List String
  pattern : Option String
  material : Option String

namespace Picture

def check : Value → Checked Picture :=
  record .noFields fun fields =>
    let text (name : String) : Checked (Option String) :=
      optional fields [name] none (orNone Schema.text)
    Picture.mk <$> text "item_type" <*> optional fields ["colors"] [] texts
      <*> text "pattern" <*> text "material"

def optionalText (s : Option String) : Value :=
  (s.map Value.str).getD .null

/-- The picture as an analysis. -/
def toFields (p : Picture) : Fields :=
  [("item_type", optionalText p.piece), ("colors", .ofStrings p.colors),
    ("pattern", optionalText p.pattern), ("material", optionalText p.material)]

end Picture

end Outfitter.Api
