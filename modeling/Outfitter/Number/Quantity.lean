import Outfitter.Value

/-!
Quantities: the finite numbers that stand for prices, pages and counts. A quantity without a fraction is
a whole number, however it was written.
-/

namespace Outfitter

/-- A finite number: a whole one, or one with a fraction. -/
inductive Quantity where
  | whole (n : Int)
  | fraction (x : Double.Finite)

namespace Quantity

/-- The number that a double is, if it is finite. -/
def ofDouble? : Double → Option Quantity
  | .finite x => some (if x.isWhole then whole x.truncate else fraction x)
  | _ => none

def toValue : Quantity → Value
  | whole n => .int n
  | fraction x => .float (.finite x)

/-- The value in units of the least positive double. -/
def units : Quantity → Int
  | whole n => n * Double.unitsPerOne
  | fraction x => x.units

def isBelow (q r : Quantity) : Bool :=
  q.units < r.units

/-- The greatest whole number that is not above the quantity. -/
def floor : Quantity → Int
  | whole n => n
  | fraction x => x.floor

end Quantity

end Outfitter
