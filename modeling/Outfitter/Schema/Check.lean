import Outfitter.Number.Numeral
import Outfitter.Schema.Problem

/-!
Checking values against a schema.

A check turns a value into what it stands for, or lists everything that is wrong with it, in the order
of the schema. Numbers and truth values may also be written as text.
-/

namespace Outfitter.Schema

open Text

/-- The outcome of a check: all problems, or what the value stands for if there are none. -/
inductive Checked (α : Type) where
  | ok (a : α)
  | faulty (problems : List Problem)

namespace Checked

variable {α β : Type}

protected def map (f : α → β) : Checked α → Checked β
  | ok a => ok (f a)
  | faulty ps => faulty ps

/-- Two checks side by side: the problems of both are kept. -/
protected def seq (f : Checked (α → β)) (x : Unit → Checked α) : Checked β :=
  match f, x () with
  | ok f, ok a => ok (f a)
  | ok _, faulty ps => faulty ps
  | faulty ps, ok _ => faulty ps
  | faulty ps, faulty qs => faulty (ps ++ qs)

instance : Applicative Checked where
  pure := ok
  map := Checked.map
  seq := Checked.seq

def fail (m : Mismatch) : Checked α :=
  faulty [⟨m, [], none⟩]

/-- The problems with another one in the place of each. -/
def mapProblems (f : Problem → Problem) : Checked α → Checked α
  | ok a => ok a
  | faulty ps => faulty (ps.map f)

/-- The problems of a part, told from the whole. -/
def within (step : Step) (c : Checked α) : Checked α :=
  c.mapProblems fun p => { p with path := step :: p.path }

/-- The check of a value: problems that are not about one of its parts are about the value. -/
def about (v : Value) (c : Checked α) : Checked α :=
  c.mapProblems fun p => { p with value := p.value.or (some v) }

/-- The check of a part of a value. -/
def part (step : Step) (check : Value → Checked α) (v : Value) : Checked α :=
  ((check v).about v).within step

/-- A check of the outcome, if there is one. -/
def andThen (c : Checked α) (f : α → Checked β) : Checked β :=
  match c with
  | ok a => f a
  | faulty ps => faulty ps

/-- Several outcomes in one, with the problems of all. -/
def sequence : List (Checked α) → Checked (List α)
  | [] => ok []
  | c :: cs => (· :: ·) <$> c <*> sequence cs

/-- The outcome, or its problems as a fault made from them. -/
def toExcept {ε : Type} (fault : List Problem → ε) : Checked α → Except ε α
  | ok a => .ok a
  | faulty ps => .error (fault ps)

end Checked

open Checked

variable {α : Type}

/-! ### scalars -/

def text : Value → Checked String
  | .str s => ok s
  | _ => fail .notText

def textAtLeast (least : Nat) (v : Value) : Checked String :=
  (text v).andThen fun s => if s.length < least then fail (.textTooShort least) else ok s

def textAtMost (most : Nat) (v : Value) : Checked String :=
  (text v).andThen fun s => if most < s.length then fail (.textTooLong most) else ok s

/-- Texts for true and false, in any case. -/
def truthOfText (s : String) : Checked Bool :=
  let word := String.ofList (s.toList.map Char.toLower)
  if word ∈ ["1", "on", "t", "true", "y", "yes"] then ok true
  else if word ∈ ["0", "off", "f", "false", "n", "no"] then ok false
  else fail .unreadableTruthValue

/-- The number is one of 64 bits with a sign. -/
def isWord (n : Int) : Bool :=
  -(Nat.pow 2 63 : Int) ≤ n && n < (Nat.pow 2 63 : Int)

/-- A double as a whole number, if it is one of 64 bits and not the least of these. -/
def wholeOfDouble (x : Double) : Checked Int :=
  match x with
  | .finite y =>
    match x.toInt? with
    | some n => if y.units.natAbs < Nat.pow 2 63 * Double.unitsPerOne then ok n else fail .wholeTooLarge
    | none => fail .fractional
  | _ => fail .notFiniteNumber

/-- Of the whole numbers, zero and one stand for truth values. -/
def truthOfWhole : Int → Checked Bool
  | 0 => ok false
  | 1 => ok true
  | _ => fail .unreadableTruthValue

def truth : Value → Checked Bool
  | .bool b => ok b
  | .int n => if isWord n then truthOfWhole n else fail .notTruthValue
  | .float x =>
    match wholeOfDouble x with
    | .ok n => truthOfWhole n
    | .faulty _ => fail .notTruthValue
  | .str s => truthOfText s
  | _ => fail .notTruthValue

/-! ### whole numbers in text -/

/-- Why a text is not read as a whole number. -/
inductive WholeDefect where
  | unreadable
  | tooLong

/-- A whole number as it is plainly written: a minus sign perhaps, and digits. The sign and the digits
from the first that is no zero have together at most as many characters as a number may have digits, and
only then is it looked at what follows them. -/
def plainWhole (text : List Char) : Except WholeDefect Int :=
  let (negative, unsigned) :=
    match text with
    | '-' :: rest => (true, rest)
    | rest => (false, rest)
  let digits := unsigned.takeWhile Char.isDigit
  let size := (digits.dropWhile (· = '0')).length
  let n : Int := ofDigits digits
  if Numeral.maxDigits < (if negative then 1 else 0) + size then .error .tooLong
  else if digits.isEmpty || unsigned.length ≠ digits.length then .error .unreadable
  else .ok (if negative then -n else n)

/-- The text without zeros and underscores at its front, if a zero comes first. A last character stays,
and a zero before a point. -/
def withoutZeros? (text : List Char) : Option (List Char) :=
  match text with
  | '0' :: rest =>
    let idle := rest.takeWhile fun c => c = '0' || c = '_'
    match rest.drop idle.length with
    | [] => some [(idle.getLast?).getD '0']
    | '.' :: fraction => some ((idle.getLast?).getD '0' :: '.' :: fraction)
    | c :: more => if c = '-' || c.isDigit then some (c :: more) else none
  | c :: _ => if c = '-' || c.isDigit then some text else none
  | [] => none

/-- The text without a fraction, which may hold zeros only, and one of them at least. -/
def withoutFraction? (text : List Char) : Option (List Char) :=
  match text.dropWhile (· != '.') with
  | [] => some text
  | _ :: fraction =>
    if fraction.isEmpty || fraction.any (· != '0') then none else some (text.takeWhile (· != '.'))

/-- The text without underscores, if each of them stands alone and none at an end. -/
def ungrouped? (text : List Char) : Option (List Char) :=
  if text.head? = some '_' || text.getLast? = some '_' || hasInfix ['_', '_'] text then none
  else some (text.filter (· != '_'))

/-- The text as it would be plainly written: without blanks around it, a plus sign, zeros at the front,
a fraction of zeros, and underscores. -/
def tidied? (text : List Char) : Option (List Char) := do
  let text := trimBy Numeral.isMargin text
  let unsigned ←
    match text with
    | '+' :: '-' :: _ => none
    | '+' :: rest => some rest
    | text => some text
  let whole ← withoutFraction? (← withoutZeros? unsigned)
  return (ungrouped? whole).getD whole

/-- A whole number in text. What is not plainly written is tidied first. -/
def wholeOfText (s : String) : Checked Int :=
  let outcome :=
    match plainWhole s.toList, tidied? s.toList with
    | .error .unreadable, some tidied => plainWhole tidied
    | outcome, _ => outcome
  match outcome with
  | .ok n => ok n
  | .error .tooLong => fail .wholeTooLarge
  | .error .unreadable => fail .unreadableWhole

def whole : Value → Checked Int
  | .int n => ok n
  | .bool b => ok (if b then 1 else 0)
  | .float x => wholeOfDouble x
  | .str s => wholeOfText s
  | _ => fail .notWhole

/-- A decimal in text. Blanks may stand around it, or single underscores within it. -/
def numberOfText (s : String) : Checked Double :=
  let plain := Numeral.plain.double? (trimBy Numeral.isMargin s.toList)
  match plain.or ((ungrouped? s.toList).bind Numeral.plain.double?) with
  | some x => ok x
  | none => fail .unreadableNumber

def number : Value → Checked Double
  | .float x => ok x
  | .int n =>
    match Double.ofInt n with
    | .finite x => ok (.finite x)
    | _ => fail .notNumber
  | .bool b => ok (Double.ofInt (if b then 1 else 0))
  | .str s => numberOfText s
  | _ => fail .notNumber

/-- A whole number within bounds. -/
def wholeWithin (least : Int) (most : Option Int) (v : Value) : Checked Int :=
  (whole v).andThen fun n =>
    if n < least then fail (.belowLeast least)
    else
      match most with
      | some m => if m < n then fail (.aboveMost m) else ok n
      | none => ok n

/-- The double is a number, and zero at least. -/
def isNonNegative : Double → Bool
  | .finite x => 0 ≤ x.units
  | .infinite negative => !negative
  | .nan => false

def nonNegativeNumber (v : Value) : Checked Double :=
  (number v).andThen fun x => if isNonNegative x then ok x else fail (.belowLeast 0)

/-- One of some texts; `allowed` writes them out. -/
def oneOf (texts : List String) (allowed : String) (v : Value) : Checked String :=
  match v with
  | .str s => if s ∈ texts then ok s else fail (.notAllowed allowed)
  | _ => fail (.notAllowed allowed)

/-! ### structures -/

/-- Null, or a value that fits. -/
def orNone (check : Value → Checked α) : Value → Checked (Option α)
  | .null => ok none
  | v => some <$> check v

/-- The items of a list, each checked. -/
def listOf (check : Value → Checked α) : Value → Checked (List α)
  | .list items => Checked.sequence (items.zipIdx.map fun (v, i) => part (.item i) check v)
  | _ => fail .notList

def texts : Value → Checked (List String) :=
  listOf text

/-- A value lacks a part. -/
def missing (step : Step) (whole : Value) : Checked α :=
  part step (fun _ => fail .missing) whole

/-- The fields of an object, each checked. -/
def objectOf (check : Value → Checked α) : Value → Checked (List (String × α))
  | .object fields =>
    Checked.sequence (fields.map fun (k, v) =>
      match k with
      | .text name => (name, ·) <$> part (.field name) check v
      | k => part (.field k) (fun _ => fail .notText) k.toValue)
  | _ => fail .notObject

/-- The first of some spellings of a field that is there. -/
def spelling? (fields : Fields) (names : List String) : Option (String × Value) :=
  names.findSome? fun (name : String) => (Fields.get? fields name).map fun v => (name, v)

/-- A field that may be left out. -/
def optional (fields : Fields) (names : List String) (default : α) (check : Value → Checked α) :
    Checked α :=
  match spelling? fields names with
  | some (name, v) => part (.field name) check v
  | none => ok default

/-- A field that has to be there. -/
def required (fields : Fields) (name : String) (check : Value → Checked α) : Checked α :=
  match Fields.get? fields name with
  | some v => part (.field name) check v
  | none => missing (.field name) (.object fields)

/-- A check of the fields of a value; `otherwise` is what is wrong with a value without fields. -/
def record (otherwise : Mismatch) (check : Fields → Checked α) : Value → Checked α
  | .object fields => check fields
  | _ => fail otherwise

end Outfitter.Schema
