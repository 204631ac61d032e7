import Mathlib.Order.WithBot
import Outfitter.Proofs.Documents.Syntax

/-!
What the document store does with a document.

Operations act on one document after the other: a document goes on, perhaps changed, or is left out. Where a
result is `none`, nothing is said about the case here: the store would complain, or compare what is no number.
-/

namespace Outfitter.Documents

/-! ### numbers -/

/-- Where a number stands among all numbers. -/
def Rank :=
  WithBot (WithTop Int)

instance : LinearOrder Rank :=
  @WithBot.linearOrder _ (@WithTop.linearOrder _ Int.instLinearOrder)

/-- The rank of so many units of the least positive double. -/
def Rank.ofUnits (units : Int) : Rank :=
  WithBot.some (WithTop.some units)

/-- The ranks of the infinite numbers. -/
def Rank.infinite (negative : Bool) : Rank :=
  if negative then none else WithBot.some none

theorem Rank.ofUnits_lt_iff {m n : Int} : ofUnits m < ofUnits n ↔ m < n :=
  WithBot.coe_lt_coe.trans WithTop.coe_lt_coe

/-- The rank of a number. What is not a number has none. -/
def rank? : Value → Option Rank
  | .int n => some (.ofUnits (n * Double.unitsPerOne))
  | .float (.finite x) => some (.ofUnits x.units)
  | .float (.infinite negative) => some (.infinite negative)
  | _ => none

/-- Two numbers whose ranks are as asked. Nothing but numbers compares with a number. -/
def compares (holds : Rank → Rank → Bool) (v w : Value) : Bool :=
  match rank? v, rank? w with
  | some a, some b => holds a b
  | _, _ => false

/-- The least of some numbers, the first of several; null if there is none. -/
def leastOf? : List Value → Option Value
  | [] => some .null
  | .null :: rest => leastOf? rest
  | v :: rest => do
    let least ← leastOf? rest
    let a ← rank? v
    match rank? least with
    | some b => if b < a then some least else some v
    | none => some v

/-! ### conditions -/

/-- What stands under a path. A list on the way stands for each of its items, other than lists. -/
def reach : Path → Value → List Value
  | [], v => [v]
  | name :: path, .object fields =>
    match Fields.get? fields name with
    | some (.list items) => if path.isEmpty then [.list items] else items.flatMap (reach path)
    | some v => reach path v
    | none => []
  | _ :: _, _ => []

/-- The test holds of the value, or of one of its items. -/
def ofSome (test : Value → Bool) : Value → Bool
  | .list items => test (.list items) || items.any test
  | v => test v

/-- The value is one of some texts. -/
def isText (texts : List String) : Value → Bool
  | .str s => s ∈ texts
  | _ => false

mutual

def Test.holds : Test → Value → Bool
  | .isIn texts, v => ofSome (isText texts) v
  | .above bound, v => ofSome (fun w => compares (fun a b => decide (b < a)) w bound) v
  | .atLeast bound, v => ofSome (fun w => compares (fun a b => decide (b ≤ a)) w bound) v
  | .atMost bound, v => ofSome (fun w => compares (fun a b => decide (a ≤ b)) w bound) v
  | .someElement conditions, .list items => items.any (meets conditions)
  | .someElement _, _ => false

/-- Every test holds of one of the values. -/
def eachHolds : List Test → List Value → Bool
  | [], _ => true
  | t :: ts, values => values.any t.holds && eachHolds ts values

/-- The document meets all conditions. -/
def meets : List (Path × List Test) → Value → Bool
  | [], _ => true
  | (path, tests) :: rest, doc => eachHolds tests (reach path doc) && meets rest doc

end

/-! ### expressions -/

/-- What expressions are about. -/
structure Scope where
  document : Value
  locals : List (String × Value)
  score : Value

def Scope.bind (s : Scope) (name : String) (v : Value) : Scope :=
  { s with locals := (name, v) :: s.locals }

/-- What stands under a path, `none` inside if nothing does. A list may not stand on the way. -/
def follow : Path → Value → Option (Option Value)
  | [], v => some (some v)
  | name :: path, .object fields =>
    match Fields.get? fields name with
    | some v => follow path v
    | none => some none
  | _ :: _, .list _ => none
  | _ :: _, _ => some none

/-- The items of a list. -/
def items? (result : Option (Option Value)) : Option (List Value) :=
  match result with
  | some (some (.list items)) => some items
  | _ => none

def truth? (result : Option (Option Value)) : Option Bool :=
  match result with
  | some (some (.bool b)) => some b
  | _ => none

/-- The items of which a test holds. -/
def keepWhere? (test : Value → Option Bool) : List Value → Option (List Value)
  | [] => some []
  | v :: vs => do
    let kept ← test v
    let rest ← keepWhere? test vs
    return if kept then v :: rest else rest

mutual

/-- The value of an expression, `none` inside if it is absent. -/
def Expr.eval : Expr → Scope → Option (Option Value)
  | .literal v, _ => some (some v)
  | .array items, s => (evalItems items s).map fun items => some (.list items)
  | .record _, _ => none
  | .field path, s => follow path s.document
  | .variable name path, s => (s.locals.lookup name).bind (follow path)
  | .ifNull e alternative, s =>
    match e.eval s with
    | some none | some (some .null) => alternative.eval s
    | result => result
  | .reduce input initial body, s => do
    let items ← items? (input.eval s)
    let start ← (initial.eval s).join
    let result ← items.foldlM (fun value this => (body.eval ((s.bind "value" value).bind "this" this)).join) start
    return some result
  | .concatArrays items, s => do
    let lists ← (← evalItems items s).mapM fun v => items? (some (some v))
    return some (.list lists.flatten)
  | .map input name body, s => do
    let items ← items? (input.eval s)
    let results ← items.mapM fun v => (body.eval (s.bind name v)).map (·.getD .null)
    return some (.list results)
  | .filter input name condition, s => do
    let items ← items? (input.eval s)
    let kept ← keepWhere? (fun v => truth? (condition.eval (s.bind name v))) items
    return some (.list kept)
  | .isNotNull e, s =>
    match e.eval s with
    | some (some .null) => some (some (.bool false))
    | some _ => some (some (.bool true))
    | none => none
  | .least e, s => do
    let least ← leastOf? (← items? (e.eval s))
    return some least
  | .score, s => some (some s.score)

/-- The values of the items of a list; what is absent is null there. -/
def evalItems : List Expr → Scope → Option (List Value)
  | [], _ => some []
  | e :: es, s => do
    let v ← e.eval s
    let vs ← evalItems es s
    return v.getD .null :: vs

end

/-! ### pipelines -/

/-- What is left open: in which documents a text is found, and how well they fit it. -/
structure Engine where
  finds : String → Value → Bool
  score : Value → Value

/-- The scope of expressions about a document. -/
def Engine.scope (engine : Engine) (doc : Fields) : Scope :=
  ⟨.object doc, [], engine.score (.object doc)⟩

/-- The document with the values of expressions put into it. What is absent is taken out. -/
def putEach (s : Scope) : List (String × Expr) → Fields → Option Fields
  | [], doc => some doc
  | (name, e) :: rest, doc => do
    let v ← e.eval s
    putEach s rest <|
      match v with
      | some v => Fields.put doc name v
      | none => Fields.without doc name

/-- What an operation makes of a document, `none` inside if it is left out. -/
def Operation.run (engine : Engine) : Operation → Fields → Option (Option Fields)
  | keep conditions, doc => some (if meets conditions (.object doc) then some doc else none)
  | search text, doc => some (if engine.finds text (.object doc) then some doc else none)
  | put fields, doc => (putEach (engine.scope doc) fields doc).map some
  | drop names, doc => some (some (names.foldl (fun doc (name : String) => Fields.without doc name) doc))
  | arrange, doc => some (some doc)

def runAll (engine : Engine) : List Operation → Fields → Option (Option Fields)
  | [], doc => some (some doc)
  | op :: ops, doc => do
    match ← op.run engine doc with
    | some doc => runAll engine ops doc
    | none => return none

/-- Whether the document comes through a pipeline. -/
def passes (engine : Engine) (pipeline : List Value) (doc : Fields) : Option Bool := do
  let ops ← readAll? pipeline
  let result ← runAll engine ops doc
  return result.isSome

end Outfitter.Documents
