import Outfitter.Dialogue.Reply
import Outfitter.Filters.Untyped
import Outfitter.Message.Traced

/-!
Replies to messages of any shape, with entries in the journal.
-/

namespace Outfitter.Dialogue

open Journal Message

namespace Reply

/-- The entry about a reset. -/
def resetEntry : Entry :=
  .info "PLAN" "filters cleared" []

/-- The entry about a reply. -/
def entry (r : Reply) : Entry :=
  .info "PLAN" "reply planned" [("missing", .ofStrings r.missing),
    ("apply_filters", .bool r.applyFilters), ("complements", .ofStrings r.complements)]

/-- The fields of a reply. -/
def toFields (r : Reply) : Fields :=
  [("message", .str r.message), ("filters", .object r.filters),
    ("apply_filters", .bool r.applyFilters),
    ("meta", .object [("missing", .ofStrings r.missing), ("complements", .ofStrings r.complements),
      ("quick_replies", .ofStrings r.quickReplies), ("cleared", .bool r.cleared)])]

end Reply

/-- The text is a reset. What is no text cannot be searched. -/
def isResetOf (v : Value) : Except Fault Bool :=
  if v.isGiven then v.demandSearchable.map isReset else .ok (isReset [])

/-- The reply to a message of any shape with these active filters, when this is what the trimmed
message says. -/
def planned (text active : Value) (extraction : List Char → Traced Extraction) : Traced Reply := do
  let text ← liftExcept (text.demandOptionalText "strip")
  let trimmed := Text.trim text.toList
  if isReset trimmed then
    Traced.note Reply.resetEntry
    return Reply.afterReset
  let e ← extraction trimmed
  let filters ← Filters.merged (active.orElse (.object [])) (.object e.filters)
  let reply ← liftExcept (Reply.ofMerged trimmed e.intent filters)
  Traced.note reply.entry
  return reply

/-- The reply to a message of any shape with active filters and brands of any shape. -/
def replied (text active known : Value) : Traced Reply :=
  planned text active fun trimmed => extracted trimmed (brandsOf known)

end Outfitter.Dialogue
