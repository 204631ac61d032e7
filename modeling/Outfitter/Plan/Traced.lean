import Outfitter.Journal.Trace
import Outfitter.Plan.Construct

/-!
Compiling with an entry in the journal.
-/

namespace Outfitter.Plan

open Journal

/-- The entry about a plan. -/
def entry (plan : QueryPlan) : Entry :=
  .info "COMPILE" "query plan compiled"
    [("stages", .ofStrings plan.kinds), ("page", .int plan.page), ("limit", .int plan.limit)]

/-- The plan for filters of any shape. -/
def compiled (filters fields : Value) : Traced QueryPlan := do
  let plan ← liftExcept (constructValue filters fields)
  Traced.note (entry plan)
  return plan

end Outfitter.Plan
