import Outfitter.Environment
import Outfitter.Journal.Trace
import Outfitter.Text.Slug
import Outfitter.Text.UpperCase

/-!
How the journal is kept: what is kept of it and where it is written, read from environment variables.
-/

namespace Outfitter.Journal

open Text

/-- Where entries are written. -/
inductive Sink where
  | console
  /-- Files of which the oldest gives way to a new one. -/
  | files
  deriving DecidableEq

structure Setup where
  service : String
  debugging : Bool
  /-- The name of the least level that is written. -/
  level : String
  /-- The weight of that level. -/
  threshold : Int
  toFile : Bool
  /-- How many bytes a file may take. -/
  maxBytes : Int
  /-- How many full files are kept. -/
  backups : Int
  /-- What is complained of while the setup is read. -/
  complaint : Option String

/-- The weights of levels. -/
def levelWeights : List (String × Int) :=
  [("CRITICAL", 50), ("FATAL", 50), ("ERROR", 40), ("WARNING", 30), ("WARN", 30), ("INFO", 20),
    ("DEBUG", 10), ("NOTSET", 0)]

/-- The weight of a level, and that of information for a name that means nothing. Two names among those
of the levels mean something else: one the basic format of a line, which is taken for another name, and
one the table of the styles of formats, which is no name at all. -/
def weightOf (level : String) : Except Fault Int :=
  match level with
  | "BASIC_FORMAT" => .error (.unknownLevel "%(levelname)s:%(name)s:%(message)s")
  | "_STYLES" => .error .notLevel
  | _ => .ok ((levelWeights.lookup level).getD infoLevel)

namespace Setup

/-- The variables from which the setup is read. -/
def variableNames : List String :=
  ["DEBUG_LOG", "DEBUG_MODE", "LOGFIRE_SERVICE_NAME", "LOGFIRE_TOKEN", "PIPELINE_LOG_BACKUP_COUNT",
    "PIPELINE_LOG_LEVEL", "PIPELINE_LOG_MAX_BYTES", "PIPELINE_LOG_TO_FILE", "PIPELINE_SERVICE_NAME",
    "USE_LOGFIRE"]

/-- Entries can only be sent on with a token. -/
def complaintOf (e : Environment) : Option String :=
  if e.flag "USE_LOGFIRE" false && (e.nonempty? "LOGFIRE_TOKEN").isNone then
    some ("Logfire disabled for pipeline logger: LOGFIRE_TOKEN environment variable is not set")
  else none

/-- The setup under some environment variables. -/
def ofEnvironment (e : Environment) : Except Fault Setup := do
  let debugging := e.flag "DEBUG_LOG" (e.flag "DEBUG_MODE" false)
  let level := (e.lookup "PIPELINE_LOG_LEVEL").getD (if debugging then "DEBUG" else "INFO")
  let level := String.ofList (upper level.toList)
  let service := (e.nonempty? "PIPELINE_SERVICE_NAME").getD
    ((e.lookup "LOGFIRE_SERVICE_NAME").getD "stylist")
  return {
    service := slug "stylist" service
    debugging
    level
    threshold := ← weightOf level
    toFile := e.flag "PIPELINE_LOG_TO_FILE" false
    maxBytes := e.number "PIPELINE_LOG_MAX_BYTES" 5000000
    backups := e.number "PIPELINE_LOG_BACKUP_COUNT" 3
    complaint := complaintOf e }

/-- The context in which nothing has happened under the setup. If the setup sets no level, that of the program
as a whole stands in its place. -/
def context (s : Setup) (level : Int) : Context :=
  { Context.initial s.debugging with threshold := if s.threshold = 0 then level else s.threshold }

/-- The name of the file that is written to. -/
def fileName (s : Setup) : String :=
  s!"pipeline-{s.service}.log"

def sinks (s : Setup) : List Sink :=
  .console :: if s.toFile then [.files] else []

end Setup

end Outfitter.Journal
