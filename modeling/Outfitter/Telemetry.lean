import Outfitter.Value.Demand
import Outfitter.Text.UpperCase

/-!
Telemetry: the records and spans that named services report.

A span encloses an operation. An operation of a store is reported before its span, and inside it when it
succeeds; when it fails, the fault is reported behind it.

Attributes come with the text that they are about, and cannot have its name. Among the attributes of an
error may be the error itself, of any shape.
-/

namespace Outfitter.Telemetry

open Text

inductive Severity where
  | debug
  | info
  | warn
  | error
  deriving DecidableEq

def Severity.name : Severity → String
  | debug => "debug"
  | info => "info"
  | warn => "warn"
  | error => "error"

/-- How much of what is reported the console shows. -/
structure Console where
  service : Value
  level : String
  debugging : Bool

inductive Event where
  | record (severity : Severity) (text : String) (attributes : Fields)
  | spanBegins (name : String) (attributes : Fields)
  | spanEnds
  | configured (console : Console)
  /-- From now on other records are written in this format. -/
  | formatted (level format : String)

/-- What a service does, with attributes. -/
inductive Action where
  | info (message : String) (attributes : Fields)
  | debug (message : String) (attributes : Fields)
  | warning (message : String) (attributes : Fields)
  | success (message : String) (attributes : Fields)
  | error (message : String) (attributes : Fields) (fault : Option Fault)
  | span (operation : String) (attributes : Fields)
  /-- An operation of a store, and the fault with which it fails. -/
  | storeSpan (operation : String) (attributes : Fields) (fault : Option Fault)
  | setup (arguments : Fields)

/-- A text of a service behind an icon. -/
def titled (icon service text : String) : String :=
  s!"{icon} [{service}] {text}"

/-- The kind and the wording of an error: those of a fault, else those of the attribute that tells of it,
if it says something. -/
def errorTold (attributes : Fields) : Option Fault → Option (String × String)
  | some f => some (f.name, f.message)
  | none =>
    let v := Fields.value attributes "error"
    if v.isGiven then some (v.kind.name, v.text) else none

/-- The attributes with the kind and the wording of an error in the place of the error itself. -/
def withError (attributes : Fields) (fault : Option Fault) : Fields :=
  let others := attributes.without "error"
  match errorTold attributes fault with
  | some (kind, wording) =>
    (others.put "error_type" (.str kind)).put "error_message" (.str wording)
  | none => others

/-- The first of some names that an attribute has. -/
def nameTaken? (names : List String) (attributes : Fields) : Option String :=
  names.find? fun name => Fields.has attributes name

/-- Names that the attributes of a record cannot have. -/
def recordNames : List String :=
  ["self", "message"]

/-- Names that the attributes of a span cannot have. -/
def spanNames : List String :=
  ["self", "operation"]

/-- What can be set up. -/
def setupNames : List Key :=
  ["service_name", "level"]

/-- Everything takes no time. -/
def duration : Value :=
  .float (Double.ofInt 0)

/-- The events of an operation of a store. -/
def storeEvents (service operation : String) (attributes : Fields) (fault : Option Fault) :
    List Event :=
  let took : Fields := [("operation", .str operation), ("duration_ms", duration)]
  let begins : List Event :=
    [.record .debug (titled "💾" service s!"store: {operation}") attributes,
      .spanBegins s!"store.{operation}" attributes]
  match fault with
  | none =>
    begins ++ [.record .debug (titled "✅" service "store operation completed") took, .spanEnds]
  | some f =>
    begins ++ [.spanEnds, .record .error (titled "❌" service s!"store operation failed: {f.message}")
      (took.put "error_type" (.str f.name))]

/-- The format of records that come from elsewhere. -/
def recordFormat : String :=
  "%(asctime)s - %(name)s - %(levelname)s - %(message)s"

/-- The events of setting up. -/
def setupEvents (debugging : Bool) (service level : Value) : Except Fault (List Event) := do
  let service := service.orElse (.str "stylist")
  let level ←
    if level.isGiven then (level.demandText "upper").map fun s => String.ofList (upper s.toList)
    else pure (if debugging then "DEBUG" else "INFO")
  return [.configured ⟨service, level, debugging⟩, .formatted level recordFormat,
    .record .info s!"🚀 Logging configured for {service.text}" []]

/-- The least severity that the console shows. -/
def Console.least (c : Console) : Severity :=
  if c.level == "DEBUG" then .debug else .info

/-- How the console shows spans. -/
def Console.spanStyle (c : Console) : String :=
  if c.debugging then "show-parents" else "simple"

/-- A service that reports. -/
structure Service where
  name : String
  debugging : Bool
  /-- Setting up has been done, and is not done again. -/
  isSetUp : Bool

/-- A service of this name that has yet to be set up. A name that says something has to be a text. -/
def Service.named (name : Value) (debugging : Bool) : Except Fault Service :=
  if name.isGiven && name.string?.isNone then .error .notNamed else .ok ⟨name.text, debugging, false⟩

/-- What is wrong with the names of the attributes of an action. -/
def Action.misnamed? : Action → Option Fault
  | .info _ attributes | .debug _ attributes | .warning _ attributes | .success _ attributes
  | .error _ attributes _ => (nameTaken? recordNames attributes).map .givenTwice
  | .span _ attributes | .storeSpan _ attributes _ =>
    (nameTaken? spanNames attributes).map .givenTwice
  | .setup arguments =>
    (arguments.keys.find? fun k => !setupNames.contains k).map fun k => .notTaken k.shown

/-- The events of an action whose attributes are well named, and the service after it. -/
def Service.events (s : Service) : Action → Except Fault (List Event × Service)
  | .info message attributes => .ok ([.record .info (titled "ℹ️" s.name message) attributes], s)
  | .debug message attributes =>
    .ok (if s.debugging then [.record .debug (titled "🔍" s.name message) attributes] else [], s)
  | .warning message attributes => .ok ([.record .warn (titled "⚠️" s.name message) attributes], s)
  | .success message attributes => .ok ([.record .info (titled "✅" s.name message) attributes], s)
  | .error message attributes fault =>
    .ok ([.record .error (titled "❌" s.name message) (withError attributes fault)], s)
  | .span operation attributes =>
    .ok ([.spanBegins s!"{s.name}.{operation}" attributes, .spanEnds], s)
  | .storeSpan operation attributes fault => .ok (storeEvents s.name operation attributes fault, s)
  | .setup arguments =>
    if s.isSetUp then .ok ([], s)
    else do
      let events ← setupEvents s.debugging (Fields.value arguments "service_name")
        (Fields.value arguments "level")
      return (events, { s with isSetUp := true })

/-- The events of an action, and the service after it. -/
def Service.act (s : Service) (a : Action) : Except Fault (List Event × Service) :=
  match a.misnamed? with
  | some f => .error f
  | none => s.events a

end Outfitter.Telemetry
