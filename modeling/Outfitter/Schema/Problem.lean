import Outfitter.Value

/-!
What may be wrong with a value that is checked against a schema, and where.
-/

namespace Outfitter.Schema

/-- A step from a value to one of its parts. -/
inductive Step where
  | field (name : Key)
  | item (index : Nat)

/-- Why a value does not fit. -/
inductive Mismatch where
  | missing
  | notText
  | textTooShort (least : Nat)
  | textTooLong (most : Nat)
  | notList
  | notObject
  /-- Neither an object nor a record of the named kind. -/
  | notRecord (kind : String)
  /-- No object to take fields from. -/
  | noFields
  | notPair
  | notTruthValue
  | unreadableTruthValue
  | notWhole
  | unreadableWhole
  | wholeTooLarge
  | fractional
  | notFiniteNumber
  | notNumber
  | unreadableNumber
  | belowLeast (least : Int)
  | aboveMost (most : Int)
  /-- None of the allowed values, which are written out. -/
  | notAllowed (allowed : String)
  | listTooShort (least size : Nat)
  | pairTooLong (size : Nat)
  /-- The parts fit, and the whole does not. -/
  | rejected (reason : String)
  | unknownKind (tag : String) (field : String) (known : List String)
  | noKind (field : String)
  | badJson
  /-- The text cannot be read on from a column, counted from one. -/
  | unreadableText (complaint : String) (column : Nat)

namespace Mismatch

/-- The name of the kind of mismatch. -/
def code : Mismatch → String
  | missing => "missing"
  | notText => "string_type"
  | textTooShort _ => "string_too_short"
  | textTooLong _ => "string_too_long"
  | notList => "list_type"
  | notObject => "dict_type"
  | notRecord _ => "model_type"
  | noFields => "model_attributes_type"
  | notPair => "tuple_type"
  | notTruthValue => "bool_type"
  | unreadableTruthValue => "bool_parsing"
  | notWhole => "int_type"
  | unreadableWhole => "int_parsing"
  | wholeTooLarge => "int_parsing_size"
  | fractional => "int_from_float"
  | notFiniteNumber => "finite_number"
  | notNumber => "float_type"
  | unreadableNumber => "float_parsing"
  | belowLeast _ => "greater_than_equal"
  | aboveMost _ => "less_than_equal"
  | notAllowed _ => "literal_error"
  | listTooShort .. => "too_short"
  | pairTooLong _ => "too_long"
  | rejected _ => "value_error"
  | unknownKind .. => "union_tag_invalid"
  | noKind _ => "union_tag_not_found"
  | badJson | unreadableText .. => "json_invalid"

def characters (n : Nat) : String :=
  if n = 1 then s!"{n} character" else s!"{n} characters"

def items (n : Nat) : String :=
  if n = 1 then s!"{n} item" else s!"{n} items"

/-- The texts in single quotes, with commas between them. -/
def quotedList (texts : List String) : String :=
  ", ".intercalate (texts.map fun t => "'" ++ t ++ "'")

def message : Mismatch → String
  | missing => "Field required"
  | notText => "Input should be a valid string"
  | textTooShort least => s!"String should have at least {characters least}"
  | textTooLong most => s!"String should have at most {characters most}"
  | notList => "Input should be a valid list"
  | notObject => "Input should be a valid dictionary"
  | notRecord kind => s!"Input should be a valid dictionary or instance of {kind}"
  | noFields => "Input should be a valid dictionary or object to extract fields from"
  | notPair => "Input should be a valid tuple"
  | notTruthValue => "Input should be a valid boolean"
  | unreadableTruthValue => "Input should be a valid boolean, unable to interpret input"
  | notWhole => "Input should be a valid integer"
  | unreadableWhole => "Input should be a valid integer, unable to parse string as an integer"
  | wholeTooLarge => "Unable to parse input string as an integer, exceeded maximum size"
  | fractional => "Input should be a valid integer, got a number with a fractional part"
  | notFiniteNumber => "Input should be a finite number"
  | notNumber => "Input should be a valid number"
  | unreadableNumber => "Input should be a valid number, unable to parse string as a number"
  | belowLeast least => s!"Input should be greater than or equal to {least}"
  | aboveMost most => s!"Input should be less than or equal to {most}"
  | notAllowed allowed => s!"Input should be {allowed}"
  | listTooShort least size =>
    s!"List should have at least {items least} after validation, not {size}"
  | pairTooLong size => s!"Tuple should have at most 2 items after validation, not {size}"
  | rejected reason => s!"Value error, {reason}"
  | unknownKind tag field known =>
    s!"Input tag '{tag}' found using '{field}' does not match any of the expected tags: " ++
      quotedList known
  | noKind field => s!"Unable to extract tag using discriminator '{field}'"
  | badJson => "JSON decode error"
  | unreadableText complaint column => s!"Invalid JSON: {complaint} at line 1 column {column}"

end Mismatch

/-- A mismatch and the way from the checked value to the part that it is about. -/
structure Problem where
  mismatch : Mismatch
  path : List Step
  /-- The value that does not fit, where it is known. -/
  value : Option Value

def Step.toValue : Step → Value
  | field name => name.toValue
  | item index => .int index

/-- A problem as a value. -/
def Problem.toValue (p : Problem) : Value :=
  .object [("type", .str p.mismatch.code), ("loc", .list (p.path.map Step.toValue)),
    ("msg", .str p.mismatch.message)]

end Outfitter.Schema
