import Outfitter.Journal.Entry
import Outfitter.Number.Numeral
import Outfitter.Number.Double

/-!
Summaries of latency: how long a component took, and its parts.
-/

namespace Outfitter.Journal

/-- A count of milliseconds, without the fraction. -/
def milliseconds : Value → Except Fault Int
  | .int n => .ok n
  | .bool b => .ok (if b then 1 else 0)
  | .float (.finite x) => .ok x.truncate
  | .float (.infinite _) => .error .infiniteWhole
  | .float .nan => .error .undefinedWhole
  | .str s => (Numeral.integer s).mapError (Fault.ofDefect s)
  | v => .error (.notConverted v.kind)

/-- The milliseconds of each part. -/
def breakdown (parts : Value) : Except Fault Fields :=
  match parts with
  | .object fields => fields.mapM fun (k, v) => do return (k, .int (← milliseconds v))
  | v => .error (.notOffered v.kind "items")

/-- The summary of what a component of a stage took. -/
def latency (stage : String) (component : Value) (total : Int) (details : Fields) : Entry :=
  .info stage "LATENCY_SUMMARY" (("component", component) :: ("total_ms", .int total) :: details)

/-- The summary from values of any shape; parts and further data that say nothing are left out. -/
def latencyOf (stage : String) (component total parts further : Value) : Except Fault Entry := do
  let total ← milliseconds total
  let parts : Fields ←
    if parts.isGiven then (breakdown parts).map fun fields => [("breakdown_ms", .object fields)]
    else pure []
  let further : Fields := if further.isGiven then [("meta", further)] else []
  return latency stage component total (parts ++ further)

end Outfitter.Journal
