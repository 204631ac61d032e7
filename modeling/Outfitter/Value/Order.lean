import Outfitter.Fault

/-!
The order of values: numbers by size, texts by their characters, lists by the first item in which they
differ. Values of other kinds, or of two kinds, have no order.
-/

namespace Outfitter.Value

/-- The first number is the smaller one. What is not a number is neither smaller nor greater. -/
def isBelowNumber : Value → Value → Option Bool
  | float (.finite x), float (.finite y) => some (x.units < y.units)
  | float (.infinite a), float (.infinite b) => some (a && !b)
  | float .nan, float _ | float _, float .nan => some false
  | float (.finite _), float (.infinite b) => some !b
  | float (.infinite a), float (.finite _) => some a
  | float x, w => (w.asInt?).map x.isBelow
  | v, float .nan => v.asInt?.map fun _ => false
  | v, float (.infinite b) => v.asInt?.map fun _ => !b
  | v, float (.finite y) => v.asInt?.map fun n => n * Double.unitsPerOne < y.units
  | v, w => do return (← v.asInt?) < (← w.asInt?)

mutual

/-- The first value comes before the second. -/
def isBefore : Value → Value → Except Fault Bool
  | str s, str t => .ok (s < t)
  | list items, list others => itemsBefore items others
  | v, w =>
    match isBelowNumber v w with
    | some b => .ok b
    | none => .error (.notOrdered v.kind w.kind)

def itemsBefore : List Value → List Value → Except Fault Bool
  | _, [] => .ok false
  | [], _ :: _ => .ok true
  | v :: vs, w :: ws => if v.same w then itemsBefore vs ws else isBefore v w

end

/-! ### sorting

Two values are compared only where the sort needs it, so that it is known which two have no order if
some have none.
-/

/-- The value among sorted ones, behind those that are equal to it. Its place is found by halving. -/
def insertSorted (v : Value) (kept : List Value) : Except Fault (List Value) :=
  if h : kept = [] then .ok [v]
  else
    have inside : kept.length / 2 < kept.length := by
      have := List.length_pos_iff.mpr h
      omega
    let w := kept.get ⟨kept.length / 2, inside⟩
    let before := kept.take (kept.length / 2)
    let after := kept.drop (kept.length / 2 + 1)
    do
      if ← isBefore v w then return (← insertSorted v before) ++ w :: after
      else return before ++ w :: (← insertSorted v after)
termination_by kept.length
decreasing_by
  · simp only [List.length_take]
    omega
  · simp only [List.length_drop]
    omega

/-- The values that follow on a run: in a falling one each comes before the value in front of it, in a
rising one none does. The run comes last first, and what is left of the values behind it. -/
def takeRun (falling : Bool) (last : Value) (run : List Value) :
    List Value → Except Fault (List Value × List Value)
  | [] => .ok (last :: run, [])
  | v :: vs => do
    if (← isBefore v last) == falling then takeRun falling v (last :: run) vs
    else return (last :: run, v :: vs)

/-- The values in order: the run with which they begin, and the others one by one. -/
def sorted : List Value → Except Fault (List Value)
  | v :: w :: rest => do
    let falling ← isBefore w v
    let (run, rest) ← takeRun falling w [v] rest
    rest.foldlM (fun kept v => insertSorted v kept) (if falling then run else run.reverse)
  | values => .ok values

/-- The elements of a value in order. -/
def sortedElements (v : Value) : Except Fault (List Value) :=
  sorted (v.elements?.getD [])

end Outfitter.Value
