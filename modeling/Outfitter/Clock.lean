/-!
The clock. It stands still, so that no answer depends on when it is given, and everything takes no time.
-/

namespace Outfitter.Clock

/-- The date and time at which the clock stands. -/
def moment : String :=
  "1970-01-01T00:00:00"

/-- The time of day at which the clock stands. -/
def timeOfDay : String :=
  "00:00:00.000"

end Outfitter.Clock
