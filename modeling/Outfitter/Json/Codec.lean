import Outfitter.Fault
import Outfitter.Json.Exchange
import Outfitter.Schema.Check

/-!
Values that are handed on as texts.

A codec prints values and reads texts (`Json.Codec`). One may have limits (`Json.Codec.limited`): `Value.depth`
tells how far lists and objects stand within each other, and `Json.Style.obstacle?` where in a text a reader
meets more of them than it may go into, or a number that is too long for it.
-/

namespace Outfitter

namespace Value

mutual

/-- The number of values within each other, the outermost among them. -/
def depth : Value → Nat
  | list items => depthOfItems items + 1
  | object fields => depthOfFields fields + 1
  | _ => 1

def depthOfItems : List Value → Nat
  | [] => 0
  | v :: vs => max (depth v) (depthOfItems vs)

def depthOfFields : List (Key × Value) → Nat
  | [] => 0
  | (_, v) :: rest => max (depth v) (depthOfFields rest)

end

end Value

namespace Json

/-- The number of bytes that some characters take. -/
def byteCount (text : List Char) : Nat :=
  (String.ofList text).utf8ByteSize

/-- How many bytes stand before the value of a field, from the beginning of its name. -/
def Style.nameSize (style : Style) (k : Key) : Nat :=
  byteCount (style.string (name k)) + style.colon.utf8ByteSize

/-- How many bytes stand before what comes first in a list or an object, from the bracket on; none are
told if nothing is in it. -/
def Style.firstAt? (style : Style) : Value → Option Nat
  | .list (_ :: _) => some 1
  | .object ((k, _) :: _) => some (1 + style.nameSize k)
  | _ => none

/-- Why a reader does not go on. -/
inductive Obstacle where
  | tooDeep
  | tooLong
  deriving DecidableEq

def Obstacle.message : Obstacle → String
  | tooDeep => "recursion limit exceeded"
  | tooLong => "number out of range"

/-- How many characters a whole number may take. -/
def maxNumeral : Nat :=
  4300

/-- The obstacle behind some bytes more. -/
def behind (before : Nat) (found : Obstacle × Nat) : Obstacle × Nat :=
  (found.1, before + found.2)

mutual

/-- What a reader of the text of a value meets that keeps it from going on, and how many bytes of the text
stand before it. There is room for so many lists and objects within each other; it does not go into an
empty one. -/
def Style.obstacle? (style : Style) : (room : Nat) → Value → Option (Obstacle × Nat)
  | _, .int n => if maxNumeral < (toString n).length then some (.tooLong, maxNumeral + 1) else none
  | 0, v => (style.firstAt? v).map (.tooDeep, ·)
  | room + 1, .list items => style.itemsObstacle? room 1 items
  | room + 1, .object fields => style.fieldsObstacle? room 1 fields
  | _, _ => none

/-- The same for items of a list that stand behind some bytes of its text. -/
def Style.itemsObstacle? (style : Style) (room before : Nat) : List Value → Option (Obstacle × Nat)
  | [] => none
  | v :: vs =>
    match style.obstacle? room v with
    | some found => some (behind before found)
    | none =>
      style.itemsObstacle? room (before + byteCount (style.value v) + style.comma.utf8ByteSize) vs

/-- The same for fields of an object that stand behind some bytes of its text. -/
def Style.fieldsObstacle? (style : Style) (room before : Nat) :
    List (Key × Value) → Option (Obstacle × Nat)
  | [] => none
  | (k, v) :: rest =>
    let start := before + style.nameSize k
    match style.obstacle? room v with
    | some found => some (behind start found)
    | none =>
      style.fieldsObstacle? room (start + byteCount (style.value v) + style.comma.utf8ByteSize) rest

end

/-! ### codecs -/

open Schema

/-- How values are printed, and what the texts are read as. -/
structure Codec where
  print : Value → Except Fault String
  read : String → Checked Value

namespace Codec

/-- Every value is printed, on as few characters as it takes, and every JSON text is read. -/
def plain : Codec where
  print v := .ok (write shortest v.exchanged)
  read text :=
    match readWithin text.length text with
    | .ok v => .ok v
    | .error _ => .fail .badJson

/-- A codec that prints values only down to a depth, and reads texts only if it meets nothing in them that
keeps it from going on where there is room for so many lists and objects within each other. -/
def limited (deepest room : Nat) (c : Codec) : Codec where
  print v := if deepest < v.depth then .error .tooDeepToWrite else c.print v
  read text := (c.read text).andThen fun v =>
    match shortest.obstacle? room v with
    | some (obstacle, n) => .fail (.unreadableText obstacle.message (n + 1))
    | none => .ok v

end Codec

end Json

end Outfitter
