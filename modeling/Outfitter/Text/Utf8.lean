/-!
Text as bytes. Bytes that are no text are read as the replacement character: one for each longest
beginning of a character that is not carried through, and one for each byte that begins none.
-/

namespace Outfitter.Text

/-- The bytes of a character. -/
def utf8 (c : Char) : List Nat :=
  (String.utf8EncodeChar c).map UInt8.toNat

/-- A character of which some bytes have been read: how many bytes are still to come, the bits so far,
and the bounds of the next byte. -/
structure Partial where
  missing : Nat
  bits : Nat
  least : Nat
  most : Nat

/-- The character that a first byte begins. -/
def Partial.ofFirst? (b : Nat) : Option Partial :=
  if 0xC2 ≤ b ∧ b ≤ 0xDF then some ⟨1, b - 0xC0, 0x80, 0xBF⟩
  else if b = 0xE0 then some ⟨2, 0x0, 0xA0, 0xBF⟩
  else if b = 0xED then some ⟨2, 0xD, 0x80, 0x9F⟩
  else if 0xE1 ≤ b ∧ b ≤ 0xEF then some ⟨2, b - 0xE0, 0x80, 0xBF⟩
  else if b = 0xF0 then some ⟨3, 0, 0x90, 0xBF⟩
  else if 0xF1 ≤ b ∧ b ≤ 0xF3 then some ⟨3, b - 0xF0, 0x80, 0xBF⟩
  else if b = 0xF4 then some ⟨3, 4, 0x80, 0x8F⟩
  else none

/-- The replacement character. -/
def replacement : Char :=
  '\ufffd'

/-- What a byte that follows no other comes to: the character that it begins, and the characters that it
completes. -/
def firstByte (b : Nat) : Option Partial × List Char :=
  if b < 0x80 then (none, [Char.ofNat b])
  else
    match Partial.ofFirst? b with
    | some p => (some p, [])
    | none => (none, [replacement])

/-- What a byte comes to when this character has been begun. -/
def nextByte (p : Partial) (b : Nat) : Option Partial × List Char :=
  if p.least ≤ b ∧ b ≤ p.most then
    let bits := p.bits * 64 + (b - 0x80)
    if p.missing ≤ 1 then (none, [Char.ofNat bits])
    else (some ⟨p.missing - 1, bits, 0x80, 0xBF⟩, [])
  else
    let (begun, chars) := firstByte b
    (begun, replacement :: chars)

/-- The text of some bytes when this character has been begun. -/
def ofBytesFrom : Option Partial → List Nat → List Char
  | none, [] => []
  | some _, [] => [replacement]
  | none, b :: bytes =>
    let (begun, chars) := firstByte b
    chars ++ ofBytesFrom begun bytes
  | some p, b :: bytes =>
    let (begun, chars) := nextByte p b
    chars ++ ofBytesFrom begun bytes

/-- The text of some bytes. -/
def ofBytes (bytes : List Nat) : List Char :=
  ofBytesFrom none bytes

end Outfitter.Text
