import Outfitter.Environment
import Outfitter.Fault
import Outfitter.Json.Reader
import Outfitter.Schema.Check

/-!
The settings of the service, read from environment variables.
-/

namespace Outfitter

open Schema

/-- Where sessions are kept. -/
inductive SessionBackend where
  | memory
  | redis
  deriving DecidableEq

namespace SessionBackend

def name : SessionBackend → String
  | memory => "memory"
  | redis => "redis"

def check : Value → Checked SessionBackend
  | .str "memory" => .ok memory
  | .str "redis" => .ok redis
  | _ => .fail (.notAllowed "'memory' or 'redis'")

end SessionBackend

structure Settings where
  appName : String
  appVersion : String
  debug : Bool
  host : String
  port : Int
  corsOrigins : List String
  sessionBackend : SessionBackend
  /-- How many seconds a session is kept. -/
  sessionLifetime : Int
  redisHost : String
  redisPort : Int
  redisPassword : String
  redisDatabase : Int
  knownBrands : List String
  categoriesFile : Option String

namespace Settings

def defaults : Settings where
  appName := "Stylist Filter Assistant"
  appVersion := "1.0.0"
  debug := false
  host := "0.0.0.0"
  port := 8080
  corsOrigins := ["http://localhost:3000", "http://127.0.0.1:3000"]
  sessionBackend := .memory
  sessionLifetime := 86400
  redisHost := "127.0.0.1"
  redisPort := 6379
  redisPassword := ""
  redisDatabase := 0
  knownBrands := []
  categoriesFile := none

/-- The variables that hold lists, and the names of their fields. -/
def listVariables : List (String × String) :=
  [("CORS_ORIGINS", "cors_origins"), ("KNOWN_BRANDS", "known_brands")]

/-- The variables that hold plain texts. -/
def plainVariables : List String :=
  ["APP_NAME", "APP_VERSION", "DEBUG", "HOST", "PORT", "SESSION_BACKEND", "SESSION_TTL", "REDIS_HOST",
    "REDIS_PORT", "REDIS_PASSWORD", "REDIS_DB", "CATEGORIES_FILE"]

/-- The plain texts that are set. -/
def plainValues (e : Environment) : Fields :=
  plainVariables.filterMap fun name => (e.anyCase? name).map fun text => (name, .str text)

/-- A list is written in JSON; null stands for a variable that is not set. -/
def listValue (e : Environment) (name field : String) : Except Fault Fields :=
  match e.anyCase? name with
  | none => .ok []
  | some text =>
    match Json.read text with
    | .ok .null => .ok []
    | .ok v => .ok [(name, v)]
    | .error (.tooDeep innermost) => .error (.tooDeeplyNested innermost)
    | .error _ => .error (.unreadableSetting field)

/-- The lists that are set. -/
def listValues (e : Environment) : Except Fault Fields := do
  return (← listVariables.mapM fun (name, field) => listValue e name field).flatten

/-- The settings that some values under the names of variables give. -/
def check (values : Fields) : Checked Settings :=
  let setting {α : Type} (name : String) (default : α) (check : Value → Checked α) : Checked α :=
    optional values [name] default check
  let d := defaults
  Settings.mk <$> setting "APP_NAME" d.appName text
    <*> setting "APP_VERSION" d.appVersion text
    <*> setting "DEBUG" d.debug truth
    <*> setting "HOST" d.host text
    <*> setting "PORT" d.port whole
    <*> setting "CORS_ORIGINS" d.corsOrigins texts
    <*> setting "SESSION_BACKEND" d.sessionBackend SessionBackend.check
    <*> setting "SESSION_TTL" d.sessionLifetime whole
    <*> setting "REDIS_HOST" d.redisHost text
    <*> setting "REDIS_PORT" d.redisPort whole
    <*> setting "REDIS_PASSWORD" d.redisPassword text
    <*> setting "REDIS_DB" d.redisDatabase whole
    <*> setting "KNOWN_BRANDS" d.knownBrands texts
    <*> setting "CATEGORIES_FILE" d.categoriesFile (orNone text)

/-- The settings under some environment variables. -/
def ofEnvironment (e : Environment) : Except Fault Settings := do
  (check (plainValues e ++ (← listValues e))).toExcept .invalid

end Settings

end Outfitter
