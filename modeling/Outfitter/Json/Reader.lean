import Outfitter.Value
import Outfitter.Number.Numeral
import Outfitter.Text.Encoding

/-!
Reading values from JSON text.

`Json.read` reads the whole text as one value, or says what is amiss and where; `Json.readWithin` does so
down to a depth of its own. Beyond the JSON grammar both know the words `NaN`, `Infinity` and `-Infinity`.
A number with a fraction or an exponent is a double, any other a whole number. Of two fields with one name
the later counts.
-/

namespace Outfitter.Json

/-- What may be amiss with a text. -/
inductive Complaint where
  | valueExpected
  | nameExpected
  | colonExpected
  | commaExpected
  | moreAfterValue
  | stringNotClosed
  | controlCharacter
  | badEscape
  | badUnicodeEscape
  | byteOrderMark
  deriving DecidableEq

namespace Complaint

def message : Complaint → String
  | valueExpected => "Expecting value"
  | nameExpected => "Expecting property name enclosed in double quotes"
  | colonExpected => "Expecting ':' delimiter"
  | commaExpected => "Expecting ',' delimiter"
  | moreAfterValue => "Extra data"
  | stringNotClosed => "Unterminated string starting at"
  | controlCharacter => "Invalid control character at"
  | badEscape => "Invalid \\escape"
  | badUnicodeEscape => "Invalid \\uXXXX escape"
  | byteOrderMark => "Unexpected UTF-8 BOM (decode using utf-8-sig)"

end Complaint

/-- What values may stand in. -/
inductive Enclosure where
  | array
  | object
  deriving DecidableEq

def Enclosure.name : Enclosure → String
  | array => "array"
  | object => "object"

/-- Why a text is no JSON. -/
inductive ReadError where
  | malformed (complaint : Complaint) (position : Nat)
  | tooManyDigits (count : Nat)
  /-- One of this kind stands within more others than is allowed. -/
  | tooDeep (enclosure : Enclosure)
  deriving DecidableEq

/-- The line and the column of a position, both counted from one. -/
def lineAndColumn (text : List Char) (position : Nat) : Nat × Nat :=
  let before := text.take position
  (before.count '\n' + 1, (before.reverse.takeWhile (· != '\n')).length + 1)

/-- A complaint with the place that it is about. -/
def Complaint.messageAt (complaint : Complaint) (text : String) (position : Nat) : String :=
  let (line, column) := lineAndColumn text.toList position
  s!"{complaint.message}: line {line} column {column} (char {position})"

/-- What is left to read, and how much was read before it. -/
structure Rest where
  position : Nat
  text : List Char

/-- A value just read, and what follows it. -/
abbrev Step (α : Type) :=
  Except ReadError (α × Rest)

def Rest.fail {α : Type} (r : Rest) (complaint : Complaint) : Except ReadError α :=
  .error (.malformed complaint r.position)

def isJsonBlank (c : Char) : Bool :=
  c == ' ' || c == '\t' || c == '\n' || c == '\r'

def Rest.skipBlanks (r : Rest) : Rest :=
  let text := r.text.dropWhile isJsonBlank
  ⟨r.position + (r.text.length - text.length), text⟩

/-- The rest after `n` characters. -/
def Rest.advance (r : Rest) (n : Nat) : Rest :=
  ⟨r.position + n, r.text.drop n⟩

/-- The code unit that four hexadecimal digits write. -/
def hexUnit? (a b c d : Char) : Option Nat :=
  match Text.hexValue? a, Text.hexValue? b, Text.hexValue? c, Text.hexValue? d with
  | some a, some b, some c, some d => some (((a * 16 + b) * 16 + c) * 16 + d)
  | _, _, _, _ => none

/-- The character behind a backslash, if it is one of the short escapes. -/
def shortEscape? : Char → Option Char
  | '"' => some '"'
  | '\\' => some '\\'
  | '/' => some '/'
  | 'b' => some '\x08'
  | 'f' => some '\x0c'
  | 'n' => some '\n'
  | 'r' => some '\r'
  | 't' => some '\t'
  | _ => none

/-- The code units of a string up to its closing quote. `opened` is where the string began, `position`
where the text stands. -/
def stringUnits (opened position : Nat) (units : List Nat) : List Char → Step (List Nat)
  | [] => .error (.malformed .stringNotClosed opened)
  | '"' :: rest => .ok (units.reverse, ⟨position + 1, rest⟩)
  | ['\\'] => .error (.malformed .stringNotClosed opened)
  | '\\' :: 'u' :: a :: b :: c :: d :: e :: rest =>
    match hexUnit? a b c d with
    | some unit => stringUnits opened (position + 6) (unit :: units) (e :: rest)
    | none => .error (.malformed .badUnicodeEscape (position + 1))
  | '\\' :: 'u' :: _ => .error (.malformed .badUnicodeEscape (position + 1))
  | '\\' :: c :: rest =>
    match shortEscape? c with
    | some c => stringUnits opened (position + 2) (c.toNat :: units) rest
    | none => .error (.malformed .badEscape position)
  | c :: rest =>
    if c.toNat < 0x20 then .error (.malformed .controlCharacter position)
    else stringUnits opened (position + 1) (c.toNat :: units) rest

/-- A string whose opening quote has been read. -/
def readString (r : Rest) : Step String :=
  (stringUnits (r.position - 1) r.position [] r.text).map fun (units, rest) =>
    (String.ofList (Text.joinPairs units), rest)

/-- The exponent of a number, if one stands here: its value and its length. -/
def exponent? : List Char → Option (Int × Nat)
  | c :: rest =>
    if c == 'e' || c == 'E' then
      let (negative, digits) := Numeral.sign rest
      let exponent := digits.takeWhile Char.isDigit
      if exponent.isEmpty then none
      else
        let n : Int := Text.ofDigits exponent
        some (if negative then -n else n, 1 + (rest.length - digits.length) + exponent.length)
    else none
  | [] => none

/-- The sign at the front of a number (negative or not) and what follows it. -/
def minus : List Char → Bool × List Char
  | '-' :: text => (true, text)
  | text => (false, text)

/-- The digits before the point; a zero at the front stands alone. -/
def wholeDigits : List Char → List Char
  | '0' :: _ => ['0']
  | text => text.takeWhile Char.isDigit

/-- The digits behind the point, if a point stands here. -/
def fractionDigits : List Char → List Char
  | '.' :: text => text.takeWhile Char.isDigit
  | _ => []

/-- The number with these digits before and behind the point, and this exponent. Without digits behind the
point and without an exponent it is a whole number. -/
def numberOf (negative : Bool) (whole fraction : List Char) (exponent : Option Int) :
    Except ReadError Value :=
  if fraction.isEmpty && exponent.isNone then
    if Numeral.maxDigits < whole.length then .error (.tooManyDigits whole.length)
    else
      let n : Int := Text.ofDigits whole
      .ok (.int (if negative then -n else n))
  else
    let power := exponent.getD 0 - fraction.length
    .ok (.float (Double.ofDecimal negative (Text.ofDigits (whole ++ fraction)) power))

/-- A number. -/
def readNumber (r : Rest) : Step Value :=
  let (negative, unsigned) := minus r.text
  let whole := wholeDigits unsigned
  if whole.isEmpty then r.fail .valueExpected
  else
    let rest := unsigned.drop whole.length
    let fraction := fractionDigits rest
    let fractionSize := if fraction.isEmpty then 0 else fraction.length + 1
    let exponent := exponent? (rest.drop fractionSize)
    let size := (if negative then 1 else 0) + whole.length + fractionSize + (exponent.map (·.2)).getD 0
    (numberOf negative whole fraction (exponent.map (·.1))).map (·, r.advance size)

/-- The words that stand for values, the values, and how long the words are. -/
def wordValues : List (List Char × Value) :=
  [("null".toList, .null), ("true".toList, .bool true), ("false".toList, .bool false),
    ("NaN".toList, .float .nan), ("Infinity".toList, .float (.infinite false)),
    ("-Infinity".toList, .float (.infinite true))]

/-- A word or a number. -/
def readScalar (r : Rest) : Step Value :=
  match wordValues.find? (·.1.isPrefixOf r.text) with
  | some (word, v) => .ok (v, r.advance word.length)
  | none => readNumber r

mutual

/-- A value; `fuel` bounds the number of values and fields still to come, and `depth` the number of lists
and objects within each other. -/
def readValue : (fuel depth : Nat) → Rest → Except ReadError (Value × Rest)
  | 0, _, r => r.fail .valueExpected
  | fuel + 1, depth, r =>
    match r.text, depth with
    | '"' :: _, _ => (readString (r.advance 1)).map fun (s, rest) => (.str s, rest)
    | '[' :: _, 0 => .error (.tooDeep .array)
    | '\x7b' :: _, 0 => .error (.tooDeep .object)
    | '[' :: _, depth + 1 =>
      let r := (r.advance 1).skipBlanks
      match r.text with
      | ']' :: _ => .ok (.list [], r.advance 1)
      | _ => (readItems fuel depth r).map fun (items, rest) => (.list items, rest)
    | '\x7b' :: _, depth + 1 =>
      let r := (r.advance 1).skipBlanks
      match r.text with
      | '\x7d' :: _ => .ok (.object [], r.advance 1)
      | _ =>
        (readFields fuel depth r).map fun (fields, rest) => (.object (Fields.ofPairs fields), rest)
    | _, _ => readScalar r

/-- One or more items up to the closing bracket. -/
def readItems : (fuel depth : Nat) → Rest → Except ReadError (List Value × Rest)
  | 0, _, r => r.fail .valueExpected
  | fuel + 1, depth, r => do
    let (v, r) ← readValue fuel depth r
    let r := r.skipBlanks
    match r.text with
    | ']' :: _ => .ok ([v], r.advance 1)
    | ',' :: _ =>
      let (vs, r) ← readItems fuel depth (r.advance 1).skipBlanks
      .ok (v :: vs, r)
    | _ => r.fail .commaExpected

/-- One or more fields up to the closing brace. -/
def readFields : (fuel depth : Nat) → Rest → Except ReadError (List (Key × Value) × Rest)
  | 0, _, r => r.fail .valueExpected
  | fuel + 1, depth, r =>
    match r.text with
    | '"' :: _ => do
      let (key, r) ← readString (r.advance 1)
      let r := r.skipBlanks
      match r.text with
      | ':' :: _ =>
        let (v, r) ← readValue fuel depth (r.advance 1).skipBlanks
        let r := r.skipBlanks
        match r.text with
        | '\x7d' :: _ => .ok ([(.text key, v)], r.advance 1)
        | ',' :: _ =>
          let (fields, r) ← readFields fuel depth (r.advance 1).skipBlanks
          .ok ((.text key, v) :: fields, r)
        | _ => r.fail .commaExpected
      | _ => r.fail .colonExpected
    | _ => r.fail .nameExpected

end

/-- The value that a text writes, if lists and objects stand within each other down to this depth at most.
Every value and field takes a character at least, so the length of the text bounds their number. -/
def readWithin (depth : Nat) (text : String) : Except ReadError Value := do
  let chars := text.toList
  if chars.head? == some '\ufeff' then Rest.fail ⟨0, chars⟩ .byteOrderMark
  let (v, rest) ← readValue (2 * chars.length + 2) depth (Rest.skipBlanks ⟨0, chars⟩)
  let rest := rest.skipBlanks
  if rest.text.isEmpty then return v else rest.fail .moreAfterValue

/-- How many lists and objects may stand within each other. -/
def maxNesting : Nat :=
  980

/-- The value that a text writes. -/
def read (text : String) : Except ReadError Value :=
  readWithin maxNesting text

end Outfitter.Json
