import Outfitter.Text.Utf8

/-!
Encodings of texts that begin with two characters of ASCII: by bytes, or by units of two or four bytes in
either order. Which one it is shows in where zeros stand among the first bytes.
-/

namespace Outfitter.Text

/-! ### units of sixteen bits -/

/-- The character with this number; half of a pair is no character. -/
def charOf (n : Nat) : Char :=
  if h : n.isValidChar then Char.ofNatAux n h else replacement

/-- Characters from numbers of sixteen bits or more: the two halves of a pair make one character. -/
def joinPairs : List Nat → List Char
  | [] => []
  | [u] => [charOf u]
  | u :: v :: rest =>
    if 0xD800 ≤ u ∧ u < 0xDC00 ∧ 0xDC00 ≤ v ∧ v < 0xE000 then
      charOf (0x10000 + (u - 0xD800) * 0x400 + (v - 0xDC00)) :: joinPairs rest
    else charOf u :: joinPairs (v :: rest)

/-! ### encodings -/

/-- How many bytes make a unit, and whether its greatest byte comes first. -/
inductive Encoding where
  | bytes
  | pairs (greatestFirst : Bool)
  | quadruples (greatestFirst : Bool)
  deriving DecidableEq

namespace Encoding

/-- The encoding of a text, from its first bytes. -/
def ofBytes : List Nat → Encoding
  | 0 :: 0 :: _ :: _ :: _ => quadruples true
  | [0, _] | 0 :: _ :: _ :: _ :: _ => pairs true
  | _ :: 0 :: 0 :: 0 :: _ => quadruples false
  | [_, 0] | _ :: 0 :: _ :: _ :: _ => pairs false
  | _ => bytes

/-- The number that two bytes make. -/
def pairValue (greatestFirst : Bool) (a b : Nat) : Nat :=
  if greatestFirst then 256 * a + b else 256 * b + a

/-- The units of two bytes, if no byte is left over. -/
def pairUnits? (greatestFirst : Bool) : List Nat → Option (List Nat)
  | [] => some []
  | [_] => none
  | a :: b :: rest => (pairValue greatestFirst a b :: ·) <$> pairUnits? greatestFirst rest

/-- The units of four bytes, if no byte is left over and none of them is too great for a character. -/
def quadrupleUnits? (greatestFirst : Bool) : List Nat → Option (List Nat)
  | [] => some []
  | a :: b :: c :: d :: rest =>
    let front := pairValue greatestFirst a b
    let back := pairValue greatestFirst c d
    let unit := if greatestFirst then 65536 * front + back else 65536 * back + front
    if 0x10FFFF < unit then none else (unit :: ·) <$> quadrupleUnits? greatestFirst rest
  | _ => none

/-- The text that some bytes encode. -/
def decode? (bytes : List Nat) : Option (List Char) :=
  match ofBytes bytes with
  | .bytes => some (Text.ofBytes bytes)
  | pairs greatestFirst => joinPairs <$> pairUnits? greatestFirst bytes
  | quadruples greatestFirst => (·.map charOf) <$> quadrupleUnits? greatestFirst bytes

end Encoding

end Outfitter.Text
