import Outfitter.Json.Reader
import Outfitter.Schema.Problem
import Outfitter.Value.Literal

/-!
Everything that may go wrong, by cause, with the wording of each cause.
-/

namespace Outfitter

/-- The kinds of values. -/
inductive Value.Kind where
  | null
  | truth
  | whole
  | number
  | text
  | list
  | object
  deriving DecidableEq

namespace Value

def Kind.name : Kind → String
  | null => "NoneType"
  | truth => "bool"
  | whole => "int"
  | number => "float"
  | text => "str"
  | list => "list"
  | object => "dict"

def kind : Value → Kind
  | null => .null
  | bool _ => .truth
  | int _ => .whole
  | float _ => .number
  | str _ => .text
  | list _ => .list
  | object _ => .object

end Value

inductive Fault where
  /-- A value of this kind does not have this operation. -/
  | notOffered (kind : Value.Kind) (operation : String)
  /-- A value of this kind has no elements to go through. -/
  | noElements (kind : Value.Kind)
  /-- A value of this kind cannot be asked for an element. -/
  | noMembers (kind : Value.Kind)
  /-- A value of this kind is no text to search. -/
  | notSearched (kind : Value.Kind)
  /-- A value of this kind has no size. -/
  | notSized (kind : Value.Kind)
  /-- The elements of a value are to be joined, and it has none. -/
  | notJoined
  /-- Texts are to be joined, and this element is none. -/
  | notJoinedAt (index : Nat) (kind : Value.Kind)
  /-- A value of this kind has no positions. -/
  | notIndexed (kind : Value.Kind)
  /-- Something of this kind cannot be looked up. -/
  | notLookedUp (kind : String)
  /-- Fields are to be made from pairs, and this element is no sequence. -/
  | notSequence (index : Nat)
  /-- Of these two kinds, neither comes before the other. -/
  | notOrdered (later earlier : Value.Kind)
  /-- An argument comes under a name that is taken. -/
  | givenTwice (name : String)
  /-- There is no argument of this name. -/
  | notTaken (name : String)
  /-- An argument that has to be given is left out. -/
  | notGiven (name : String)
  /-- A name has to be a text. -/
  | notNamed
  /-- A value of this kind is no whole number. -/
  | notConverted (kind : Value.Kind)
  | unknownKey (key : Value)
  /-- Fields are to be made from pairs, and this element has another size. -/
  | notPair (index size : Nat)
  | tooManyDigits (count : Nat)
  | notWhole (written : Value)
  /-- A whole number is to be written that has too many digits for it. -/
  | tooLongToWrite
  /-- Lists and objects stand within each other too often to be read. -/
  | tooDeeplyNested (innermost : Json.Enclosure)
  /-- Lists and objects stand within each other too often to be sent. -/
  | tooDeepToWrite
  /-- Lists and objects stand within each other too often to be kept. -/
  | tooDeepToKeep
  /-- A number that is not finite is to be sent. -/
  | notSendable
  /-- The target of a request holds a character that cannot stand in one. -/
  | notPrintable (c : Char) (position : Nat)
  /-- The target of a request is longer than one may be. -/
  | tooLongTarget
  | infiniteWhole
  | undefinedWhole
  | malformedJson (text : String) (complaint : Json.Complaint) (position : Nat)
  | invalid (problems : List Schema.Problem)
  /-- There is no level of this name. -/
  | unknownLevel (name : String)
  /-- What stands under the name of a level can be none. -/
  | notLevel
  /-- A setting whose text is no JSON. -/
  | unreadableSetting (field : String)
  /-- The operation is left to other kinds of store. -/
  | unsupported
  /-- The store is no client of a server. -/
  | noClient
  | storeDown
  | noStore
  /-- A step gave up for a reason of its own. -/
  | raised (reason : String)

namespace Fault

/-- The kind of a fault. -/
def name : Fault → String
  | notOffered .. | noClient => "AttributeError"
  | noElements _ | noMembers _ | notSearched _ | notSized _ | notJoined | notJoinedAt .. | notIndexed _
  | notLookedUp _ | notSequence _ | notConverted _ | notOrdered ..
  | givenTwice _ | notTaken _ | notGiven _ | notNamed | notLevel => "TypeError"
  | unknownKey _ => "KeyError"
  | notPair .. | tooManyDigits _ | tooLongToWrite | notWhole _ | undefinedWhole | notSendable
  | unknownLevel _ | raised _ => "ValueError"
  | infiniteWhole => "OverflowError"
  | tooDeeplyNested _ | tooDeepToKeep => "RecursionError"
  | tooDeepToWrite => "PydanticSerializationError"
  | malformedJson .. => "JSONDecodeError"
  | invalid _ => "ValidationError"
  | unreadableSetting _ => "SettingsError"
  | notPrintable .. | tooLongTarget => "InvalidURL"
  | unsupported => "NotImplementedError"
  | storeDown => "ConnectionError"
  | noStore => "RuntimeError"

/-- How much is quoted of what is no whole number. -/
def literalBound : Nat :=
  200

/-- The wording of a fault. -/
def message : Fault → String
  | notOffered kind operation => s!"'{kind.name}' object has no attribute '{operation}'"
  | noElements kind => s!"'{kind.name}' object is not iterable"
  | noMembers kind => s!"argument of type '{kind.name}' is not iterable"
  | notSearched kind => s!"expected string or bytes-like object, got '{kind.name}'"
  | notSized kind => s!"object of type '{kind.name}' has no len()"
  | notJoined => "can only join an iterable"
  | notJoinedAt index kind => s!"sequence item {index}: expected str instance, {kind.name} found"
  | notIndexed kind => s!"'{kind.name}' object is not subscriptable"
  | notLookedUp kind => s!"unhashable type: '{kind}'"
  | notSequence index =>
    s!"cannot convert dictionary update sequence element #{index} to a sequence"
  | notOrdered later earlier =>
    s!"'<' not supported between instances of '{later.name}' and '{earlier.name}'"
  | notConverted kind =>
    "int() argument must be a string, a bytes-like object or a real number, not " ++
      s!"'{kind.name}'"
  | givenTwice name => s!"got multiple values for argument '{name}'"
  | notTaken name => s!"got an unexpected keyword argument '{name}'"
  | notGiven name => s!"missing a required argument: '{name}'"
  | notNamed => "A logger name must be a string"
  | unsupported => ""
  | unknownKey key => String.ofList key.literal
  | notPair index size =>
    s!"dictionary update sequence element #{index} has length {size}; 2 is required"
  | tooManyDigits count =>
    s!"Exceeds the limit ({Numeral.maxDigits} digits) for integer string conversion: value has " ++
      s!"{count} digits; use sys.set_int_max_str_digits() to increase the limit"
  | notWhole written =>
    "invalid literal for int() with base 10: " ++ String.ofList (written.literal.take literalBound)
  | tooLongToWrite =>
    s!"Exceeds the limit ({Numeral.maxDigits} digits) for integer string conversion; " ++
      "use sys.set_int_max_str_digits() to increase the limit"
  | unknownLevel name => "Unknown level: " ++ String.ofList (Value.str name).literal
  | notLevel => "Level not an integer or a valid string"
  | tooDeeplyNested innermost =>
    s!"maximum recursion depth exceeded while decoding a JSON {innermost.name} from a unicode string"
  | tooDeepToWrite =>
    "Error serializing to JSON: ValueError: Maximum serialization depth exceeded"
  | tooDeepToKeep => "maximum recursion depth exceeded while encoding a JSON object"
  | notSendable => "Out of range float values are not JSON compliant"
  | notPrintable c position =>
    "Invalid non-printable ASCII character in URL, " ++
      String.ofList (Value.str c.toString).literal ++ s!" at position {position}."
  | tooLongTarget => "URL too long"
  | infiniteWhole => "cannot convert float infinity to integer"
  | undefinedWhole => "cannot convert float NaN to integer"
  | malformedJson text complaint position => complaint.messageAt text position
  | invalid problems => s!"{problems.length} validation errors"
  | unreadableSetting field =>
    s!"error parsing value for field \"{field}\" from source \"EnvSettingsSource\""
  | noClient => "the store has no attribute 'connect'"
  | storeDown => "redis is down"
  | noStore => "Session store not initialized. Call initialize() first."
  | raised reason => reason

/-- A text that is no JSON, with what is amiss. -/
def ofReadError (text : String) : Json.ReadError → Fault
  | .malformed complaint position => malformedJson text complaint position
  | .tooManyDigits count => tooManyDigits count
  | .tooDeep innermost => tooDeeplyNested innermost

/-- A text that writes no whole number, with what is amiss. -/
def ofDefect (text : String) : Numeral.Defect → Fault
  | .tooLong count => tooManyDigits count
  | .malformed => notWhole (.str text)

end Fault

end Outfitter
