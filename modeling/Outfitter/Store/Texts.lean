import Outfitter.Json.Codec
import Outfitter.Store

/-!
Stores that keep records as texts.

A record is written as JSON before it is kept and read from its text again, both down to a depth. A server
tells its keys page by page, and whoever wants to know how many there are asks for page after page.
-/

namespace Outfitter.Store

/-! ### records as texts -/

/-- The text of a record in which values stand no deeper within each other than `reach`. -/
def encode (reach : Nat) (r : Value) : Except Fault String :=
  if reach < r.depth then .error .tooDeepToKeep
  else if r.isWritable then .ok (Json.write Json.spaced r)
  else .error .tooLongToWrite

/-- The record of a text. -/
def decode (reach : Nat) (text : String) : Except Fault Value :=
  (Json.readWithin reach text).mapError (Fault.ofReadError text)

/-- The record of an identifier. -/
def load (down : Bool) (reach : Nat) (id : Value) (s : Store String) : Effect String (Option Value) :=
  let found := get down id s
  { found with outcome := found.outcome.bind fun text => text.mapM (decode reach) }

/-- Keeping a record. -/
def save (down : Bool) (reach : Nat) (id : Value) (r : Value) : Store String → Effect String Bool :=
  keep down id (encode reach r) (Record.messageCount r)

/-! ### pages of keys -/

/-- What a server tells at a cursor: the cursor at which it goes on, which is zero after the last page, and
a page of keys. -/
abbrev Pages :=
  Nat → Nat × List String

/-- The keys of all records. -/
def Server.keys {ρ : Type} (s : Server ρ) : List String :=
  (s.records.map (·.1)).filter fun k => keyPrefix.toList.isPrefixOf k.toList

/-- Pages of so many keys each, in the order of the keys. -/
def Server.pages {ρ : Type} (size : Nat) (s : Server ρ) : Pages := fun cursor =>
  let next := cursor + size
  (if next < s.keys.length then next else 0, (s.keys.drop cursor).take size)

/-- The number of keys from a cursor on, and of those that were found before; none if there is a page after
every page. -/
def Pages.countFrom (pages : Pages) (cursor found : Nat) : Option Nat :=
  let (next, keys) := pages cursor
  let found := found + keys.length
  if next = 0 then some found else pages |>.countFrom next found
partial_fixpoint

/-- The number of records, where a server tells its keys in these pages; none if that does not come to an
end. -/
def countPaged {ρ : Type} (down : Bool) (pages : Server ρ → Pages) : Store ρ → Effect ρ (Option Nat)
  | client config (.live s) =>
    ⟨if down then .error .storeDown else .ok ((pages s).countFrom 0 0), client config (.live s), []⟩
  | s => { count down s with outcome := (count down s).outcome.map some }

end Outfitter.Store
