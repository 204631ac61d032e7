import Outfitter.Journal.Entry
import Outfitter.Keyed
import Outfitter.Session
import Outfitter.Value.Demand

/-!
Stores of sessions.

A store keeps records under identifiers. Either it keeps them itself, or it is the client of a server
that keeps each for a time; then the operations fail while the server is down, and come to nothing while
the client is not in touch with it.

What an operation comes to is told by an `Effect`: the outcome, the store afterwards, and what is noted.
-/

namespace Outfitter

open Journal

namespace Store

/-- How a server is reached, and for how many seconds it is to keep a record. The client passes all this
on as it is given, whatever it may be. -/
structure Config where
  host : Value
  port : Value
  password : Value
  database : Value
  lifetime : Value

/-- The names under which a configuration is given, and what stands for what is not given. -/
def Config.defaults : Fields :=
  [("redis_host", .str "127.0.0.1"), ("redis_port", .int 6379), ("redis_password", .str ""),
    ("redis_db", .int 0), ("default_ttl", .int 86400)]

/-- The configuration that some fields give. A password that says nothing is none. -/
def Config.ofFields (fields : Fields) : Except Fault Config :=
  match fields.keys.find? fun k => !Config.defaults.has k with
  | some k => .error (.notTaken k.shown)
  | none =>
    let given (key : Key) : Value := (Fields.get? fields key).getD (Config.defaults.value key)
    .ok ⟨given "redis_host", given "redis_port", (given "redis_password").orElse .null,
      given "redis_db", given "default_ttl"⟩

/-- What a server keeps: the records, and the seconds that each was given when it was last put. -/
structure Server (ρ : Type) where
  records : List (String × ρ)
  lifetimes : List (String × Value)

/-- The link from a client to a server. -/
inductive Link (ρ : Type) where
  /-- No server has been asked for. -/
  | none
  | closed (server : Server ρ)
  | live (server : Server ρ)

end Store

inductive Store (ρ : Type) where
  | memory (records : List (Key × ρ))
  | client (config : Store.Config) (link : Store.Link ρ)
  /-- A store whose operations are left to other kinds of store. -/
  | bare

namespace Store

variable {ρ : Type}

/-- What an operation comes to. -/
structure Effect (ρ α : Type) where
  outcome : Except Fault α
  store : Store ρ
  entries : List Entry

/-- A kind of record, with the value that is written of a record of this kind, and the number of its messages. -/
class Record (ρ : Type) where
  toValue : ρ → Value
  messageCount : ρ → Except Fault Nat

/-- What the keys of all records begin with. -/
def keyPrefix : String :=
  "session:v1:"

/-- The key under which a server keeps the record of an identifier. -/
def key (id : Value) : String :=
  keyPrefix ++ id.text

/-- The key of an identifier that can be written. -/
def demandKey (id : Value) : Except Fault String :=
  id.writtenText.map (keyPrefix ++ ·)

/-- A server that keeps nothing yet. -/
def Server.empty : Server ρ :=
  ⟨[], []⟩

/-- The server to which a store is linked. -/
def server? : Store ρ → Option (Server ρ)
  | client _ (.live s) | client _ (.closed s) => some s
  | _ => none

/-- The store can be used: it is not a client that is out of touch. -/
def isAvailable : Store ρ → Bool
  | client _ (.live _) => true
  | client .. => false
  | _ => true

/-- The operations have to wait for a server. -/
def waits : Store ρ → Bool
  | client _ (.live _) => true
  | _ => false

/-! ### entries -/

def connectedEntry (config : Config) : Entry :=
  .info "SESSION" "RedisSessionStore connected"
    [("host", config.host), ("port", config.port)]

def unreachableEntry : Entry :=
  .error "SESSION" s!"Redis connection failed: {Fault.storeDown.message}" (some .storeDown)

def missEntry (id : Value) : Entry :=
  .info "SESSION" "session MISS" [("key", .str (key id))]

def setEntry (id : Value) (lifetime : Value) (messages : Nat) : Entry :=
  .info "SESSION" "session SET"
    [("key", .str (key id)), ("ttl", lifetime), ("messages", .int messages)]

/-! ### operations

`down` tells whether the servers are down. -/

/-- An operation of a table in memory on the key of an identifier, which has to be a scalar. -/
def underKey {α : Type} (records : List (Key × ρ)) (id : Value)
    (operation : Key → α × List (Key × ρ)) : Effect ρ α :=
  match id.key? with
  | some k =>
    let (a, records) := operation (k.among (records.map (·.1)))
    ⟨.ok a, memory records, []⟩
  | none => ⟨.error (.notLookedUp id.kind.name), memory records, []⟩

/-- What a client asks of its server: with the answer come what the server keeps then, and what is noted. The server
is asked only if the question can be put. -/
def ask {α : Type} (down : Bool) (config : Config) (s : Server ρ)
    (question : Except Fault (Except Fault α × Server ρ × List Entry)) : Effect ρ α :=
  match question with
  | .error fault => ⟨.error fault, client config (.live s), []⟩
  | .ok (answer, after, entries) =>
    if down then ⟨.error .storeDown, client config (.live s), []⟩
    else ⟨answer, client config (.live after), entries⟩

/-- Getting in touch with a new server. A client that fails to is out of touch. -/
def connect (down : Bool) : Store ρ → Effect ρ Bool
  | client config _ =>
    if down then ⟨.ok false, client config (.closed .empty), [unreachableEntry]⟩
    else ⟨.ok true, client config (.live .empty), [connectedEntry config]⟩
  | s => ⟨.error .noClient, s, []⟩

/-- The record of an identifier. -/
def get (down : Bool) (id : Value) : Store ρ → Effect ρ (Option ρ)
  | memory records => underKey records id fun k => (records.lookup k, records)
  | client config (.live s) => ask down config s do
    let found := s.records.lookup (← demandKey id)
    return (.ok found, s, if found.isNone then [missEntry id] else [])
  | client config link => ⟨.ok none, client config link, []⟩
  | bare => ⟨.error .unsupported, bare, []⟩

/-- Keeping what is written of a record of so many messages. A record whose messages cannot be counted is kept all the
same. -/
def keep (down : Bool) (id : Value) (written : Except Fault ρ) (count : Except Fault Nat) :
    Store ρ → Effect ρ Bool
  | memory records =>
    match written with
    | .ok r => underKey records id fun k => (true, Keyed.put records k r)
    | .error fault => ⟨.error fault, memory records, []⟩
  | client config (.live s) => ask down config s do
    let k ← demandKey id
    let r ← written
    return (count.map fun _ => true,
      ⟨Keyed.put s.records k r, Keyed.put s.lifetimes k config.lifetime⟩,
      (count.toOption.map (setEntry id config.lifetime)).toList)
  | client config link => ⟨.ok false, client config link, []⟩
  | bare => ⟨.error .unsupported, bare, []⟩

/-- Keeping a record, which has to be one that can be written. -/
def put [Record ρ] (down : Bool) (id : Value) (r : ρ) : Store ρ → Effect ρ Bool :=
  keep down id ((Record.toValue r).demandWritable.map fun _ => r) (Record.messageCount r)

/-- Removing the record of an identifier; the outcome tells whether there was one. -/
def delete (down : Bool) (id : Value) : Store ρ → Effect ρ Bool
  | memory records =>
    underKey records id fun k => ((records.lookup k).isSome, Keyed.without records k)
  | client config (.live s) => ask down config s do
    let k ← demandKey id
    return (.ok (s.records.lookup k).isSome, ⟨Keyed.without s.records k, s.lifetimes⟩, [])
  | client config link => ⟨.ok false, client config link, []⟩
  | bare => ⟨.error .unsupported, bare, []⟩

/-- The number of records. -/
def count (down : Bool) : Store ρ → Effect ρ Nat
  | memory records => ⟨.ok records.length, memory records, []⟩
  | client config (.live s) =>
    ⟨if down then .error .storeDown else .ok s.records.length, client config (.live s), []⟩
  | client config link => ⟨.ok 0, client config link, []⟩
  | bare => ⟨.error .unsupported, bare, []⟩

/-- Getting out of touch with the server, which need not answer. -/
def close : Store ρ → Effect ρ Unit
  | client config (.live s) =>
    ⟨.ok (), client config (.closed s), []⟩
  | s => ⟨.ok (), s, []⟩

end Store

/-- Values of any shape as records: the messages are counted where the field that holds them has a
size. -/
instance : Store.Record Value where
  toValue v := v
  messageCount
    | .object fields =>
      match Fields.get? fields "messages" with
      | none => .ok 0
      | some v =>
        match v.elements? with
        | some elements => .ok elements.length
        | none => .error (.notSized v.kind)
    | v => .error (.notOffered v.kind "get")

instance : Store.Record Session where
  toValue := Session.toValue
  messageCount s := .ok s.messages.length

end Outfitter
