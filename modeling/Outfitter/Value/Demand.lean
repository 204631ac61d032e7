import Outfitter.Fault
import Outfitter.Json.Exchange

/-!
Values of which something is demanded that not all kinds of values have.
-/

namespace Outfitter.Value

/-- The text of a value on which an operation of texts is to be done. -/
def demandText (v : Value) (operation : String) : Except Fault String :=
  match v with
  | str s => .ok s
  | v => .error (.notOffered v.kind operation)

/-- The text of a value, where what says nothing stands for the empty text. -/
def demandOptionalText (v : Value) (operation : String) : Except Fault String :=
  if v.isGiven then v.demandText operation else .ok ""

/-- The text of a value that is to be searched. -/
def demandSearchable (v : Value) : Except Fault (List Char) :=
  match v with
  | str s => .ok s.toList
  | v => .error (.notSearched v.kind)

/-- The fields of a value, where what says nothing has none. -/
def demandOptionalFields (v : Value) (operation : String) : Except Fault Fields :=
  match v with
  | object fields => .ok fields
  | v => if v.isGiven then .error (.notOffered v.kind operation) else .ok []

/-- The elements of a value. -/
def demandElements (v : Value) : Except Fault (List Value) :=
  match v.elements? with
  | some elements => .ok elements
  | none => .error (.noElements v.kind)

/-- The elements of a value, where what says nothing has none. -/
def demandOptionalElements (v : Value) : Except Fault (List Value) :=
  if v.isGiven then v.demandElements else .ok []

/-- The value, if it can be written as a text. -/
def demandWritable (v : Value) : Except Fault Value :=
  if v.isWritable then .ok v else .error .tooLongToWrite

/-- The text of a value that can be written. -/
def writtenText (v : Value) : Except Fault String :=
  v.demandWritable.map text

end Outfitter.Value
