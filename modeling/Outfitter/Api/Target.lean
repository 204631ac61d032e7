import Outfitter.Fault
import Outfitter.Text.Blank
import Outfitter.Text.Percent
import Outfitter.Value

/-!
Targets of requests: a path, and behind a question mark a query.

A path begins with a slash. Its segments `.` and `..` are resolved before it is decoded. A query gives
parameters with an equals sign and separates them by ampersands. A parameter that is given once is a
text, and one that is given several times a list of texts.
-/

namespace Outfitter.Api

open Text

structure Target where
  /-- The path, decoded. -/
  path : List Char
  /-- The query as it is written. -/
  query : List Char

/-- The part of a text before the first of a character, and the part behind it. -/
def cut (separator : Char) (text : List Char) : List Char × List Char :=
  (text.takeWhile (· != separator), (text.dropWhile (· != separator)).drop 1)

namespace Target

/-- The text behind the name of a host, which stands behind two slashes. -/
def withoutHost : List Char → List Char
  | '/' :: '/' :: rest => rest.dropWhile fun c => c != '/' && c != '?' && c != '#'
  | text => text

/-- The segments kept so far, and one more: `.` is none, and `..` undoes the one before it. -/
def addSegment (kept : List (List Char)) (segment : List Char) : List (List Char) :=
  if segment = ['.'] then kept
  else if segment = ['.', '.'] then if kept = [[]] then kept else kept.dropLast
  else kept ++ [segment]

/-- The path from its first slash on, resolved. -/
def resolvedPath (path : List Char) : List Char :=
  let path := '/' :: path.dropWhile (· = '/')
  let resolved := ['/'].intercalate ((splitAt '/' path).foldl addSegment [])
  if resolved.isEmpty then ['/'] else resolved

/-- The target that a text writes; what stands behind a hash sign is not part of it. -/
def ofText (text : List Char) : Target :=
  let (path, query) := cut '?' (cut '#' (withoutHost text)).1
  ⟨percentDecoded (resolvedPath path), query⟩

/-- The length that a target may have. -/
def maxLength : Nat :=
  65536

/-- Characters of control, which have to be escaped in a target. -/
def isControl (c : Char) : Bool :=
  c < ' ' || c == '\x7f'

/-- The target that a text writes, if it can be one. -/
def read (text : String) : Except Fault Target :=
  let text := text.toList
  if maxLength < text.length then .error .tooLongTarget
  else
    match text.find? isControl with
    | some c => .error (.notPrintable c (text.idxOf c))
    | none => .ok (ofText text)

/-- A name or a value in a query; a plus sign stands for a space. -/
def queryPart (text : List Char) : String :=
  String.ofList (percentDecoded (text.map fun c => if c = '+' then ' ' else c))

/-- The parameters of the query in their order. -/
def pairs (t : Target) : List (String × String) :=
  ((splitAt '&' t.query).filter fun part => !part.isEmpty).map fun part =>
    let (name, value) := cut '=' part
    (queryPart name, queryPart value)

/-- The parameters with one more. -/
def addParameter (params : Fields) (name value : String) : Fields :=
  params.put name <|
    match Fields.get? params name with
    | none => .str value
    | some (.list values) => .list (values ++ [.str value])
    | some earlier => .list [earlier, .str value]

/-- The parameters by name. -/
def params (t : Target) : Fields :=
  t.pairs.foldl (fun params (name, value) => addParameter params name value) []

end Target

end Outfitter.Api
