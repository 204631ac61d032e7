import Outfitter.Plan.Stage
import Outfitter.Text.Blank

/-!
The language of the document store.

A pipeline is a list of values, each an operation on documents. Reading turns such a value into the operation
that it stands for. Only the part of the language is read that plans make use of; reading fails on anything
else.
-/

namespace Outfitter.Documents

/-- Names of fields, from the outside to the inside of a document. -/
abbrev Path :=
  List String

/-- The path that a text writes, with a point between two names. -/
def Path.ofText (text : List Char) : Path :=
  (Text.splitAt '.' text).map String.ofList

/-! ### conditions -/

/-- A test of what is found in a field. -/
inductive Test where
  | isIn (texts : List String)
  | above (bound : Value)
  | atLeast (bound : Value)
  | atMost (bound : Value)
  /-- One element of a list meets all conditions. -/
  | someElement (conditions : List (Path × List Test))

/-- Some tests of what is found under a path. -/
abbrev Condition :=
  Path × List Test

/-- The texts in a list of nothing else. -/
def texts? (items : List Value) : Option (List String) :=
  items.mapM Value.string?

/-- The comparison with a number under its name. -/
def comparison? (name : Key) (bound : Value) : Option Test :=
  if name = "$gt" then some (.above bound)
  else if name = "$gte" then some (.atLeast bound)
  else if name = "$lte" then some (.atMost bound)
  else none

mutual

/-- The conditions that the fields of an object write. -/
def readConditions? : List (Key × Value) → Option (List Condition)
  | [] => some []
  | (k, v) :: rest => do
    let .text name := k | none
    let tests ← readTests? v
    let others ← readConditions? rest
    return (Path.ofText name.toList, tests) :: others

/-- The tests that an object writes. -/
def readTests? : Value → Option (List Test)
  | .object tests => readEach? tests
  | _ => none

def readEach? : List (Key × Value) → Option (List Test)
  | [] => some []
  | (k, v) :: rest => do
    let test ← readTest? k v
    let others ← readEach? rest
    return test :: others

/-- A test under its name. -/
def readTest? (name : Key) : Value → Option Test
  | .list items => if name = "$in" then (texts? items).map .isIn else none
  | .object fields => if name = "$elemMatch" then (readConditions? fields).map .someElement else none
  | .int n => comparison? name (.int n)
  | .float x => comparison? name (.float x)
  | _ => none

end

/-! ### expressions -/

inductive Expr where
  | literal (v : Value)
  | array (items : List Expr)
  /-- Several expressions by name: what some operators are applied to. -/
  | record (fields : List (String × Expr))
  /-- What is found in the document. -/
  | field (path : Path)
  /-- What is found in a variable. -/
  | variable (name : String) (path : Path)
  /-- The first expression unless it is null or absent, else the second one. -/
  | ifNull (e alternative : Expr)
  /-- The body for each item, where `this` is the item and `value` what has come out so far. -/
  | reduce (input initial body : Expr)
  | concatArrays (items : List Expr)
  | map (input : Expr) (name : String) (body : Expr)
  | filter (input : Expr) (name : String) (condition : Expr)
  | isNotNull (e : Expr)
  /-- The least of some numbers; nulls do not count. -/
  | least (e : Expr)
  /-- How well the document fits the text searched for. -/
  | score

namespace Expr

/-- A text is a variable, a field or merely a text, by the signs at its front. -/
def ofText : List Char → Expr
  | '$' :: '$' :: text =>
    match Path.ofText text with
    | name :: path => .variable name path
    | [] => .literal (.str (String.ofList text))
  | '$' :: text => .field (Path.ofText text)
  | text => .literal (.str (String.ofList text))

/-- An operator applied to what stands under its name. -/
def application? : String → Expr → Option Expr
  | "$ifNull", .array [e, alternative] => some (.ifNull e alternative)
  | "$reduce", .record [("input", input), ("initialValue", initial), ("in", body)] =>
    some (.reduce input initial body)
  | "$concatArrays", .array items => some (.concatArrays items)
  | "$map", .record [("input", input), ("as", .literal (.str name)), ("in", body)] =>
    some (.map input name body)
  | "$filter", .record [("input", input), ("as", .literal (.str name)), ("cond", condition)] =>
    some (.filter input name condition)
  | "$ne", .array [e, .literal .null] => some (.isNotNull e)
  | "$min", e => some (.least e)
  | "$meta", .literal (.str "textScore") => some .score
  | _, _ => none

/-- An object with an operator is applied, any other one is a record. -/
def ofFields? : List (String × Expr) → Option Expr
  | [(name, e)] => if name.toList.head? = some '$' then application? name e else some (.record [(name, e)])
  | fields => some (.record fields)

mutual

/-- The expression that a value writes. -/
def read? : Value → Option Expr
  | .str s => some (ofText s.toList)
  | .list items => (readItems? items).map .array
  | .object fields => (readFields? fields).bind ofFields?
  | v => some (.literal v)

def readItems? : List Value → Option (List Expr)
  | [] => some []
  | v :: vs => do
    let e ← read? v
    let es ← readItems? vs
    return e :: es

def readFields? : List (Key × Value) → Option (List (String × Expr))
  | [] => some []
  | (k, v) :: rest => do
    let .text name := k | none
    let e ← read? v
    let others ← readFields? rest
    return (name, e) :: others

end

end Expr

/-! ### operations -/

inductive Operation where
  /-- Only documents that meet the conditions stay. -/
  | keep (conditions : List Condition)
  /-- Only documents in which a text is found stay. -/
  | search (text : String)
  | put (fields : List (String × Expr))
  | drop (names : List String)
  /-- Documents are ordered, or some of them picked, and none is changed. -/
  | arrange

namespace Operation

/-- The names of fields that are all to be left out. -/
def dropped? (fields : Fields) : Option (List String) :=
  fields.mapM fun
    | (.text name, .int 0) => some name
    | _ => none

/-- The documents that stay: those in which a text is found, or those that meet conditions. -/
def ofMatch? : Fields → Option Operation
  | [(.text "$text", .object [(.text "$search", .str text)])] => some (.search text)
  | fields => (readConditions? fields).map .keep

/-- The operation with a name on what stands under it. -/
def ofName? (name : Key) : Value → Option Operation
  | .object fields =>
    if name = "$match" then ofMatch? fields
    else if name = "$addFields" then (Expr.readFields? fields).map .put
    else if name = "$project" then (dropped? fields).map .drop
    else if name = "$sort" then some .arrange
    else none
  | .int _ => if name = "$skip" ∨ name = "$limit" then some .arrange else none
  | _ => none

/-- The operation that a value writes. -/
def read? : Value → Option Operation
  | .object [(name, v)] => ofName? name v
  | _ => none

end Operation

/-- The operations that some values write. -/
def readAll? (pipeline : List Value) : Option (List Operation) :=
  pipeline.mapM Operation.read?

end Outfitter.Documents
