import Outfitter.Proofs.Json.Numeral

/-!
Strings in JSON texts.

A character is written as itself or by an escape, in a style of ASCII only perhaps by the two halves of a
pair; either way the code units that are read make up the character again. So a string reads back in any
style (`readString_takes`).
-/

namespace Outfitter

/-! ### characters and their code units -/

namespace Text

theorem charOf_toNat (c : Char) : charOf c.toNat = c := by
  have hvalid : c.toNat.isValidChar := c.valid
  calc charOf c.toNat = Char.ofNatAux c.toNat hvalid := dif_pos hvalid
    _ = Char.ofNat c.toNat := (dif_pos hvalid).symm
    _ = c := Char.ofNat_toNat c

theorem toNat_lt (c : Char) : c.toNat < 0x110000 := by
  have hvalid : c.toNat.isValidChar := c.valid
  unfold Nat.isValidChar at hvalid
  omega

/-- No character is the first half of a pair. -/
theorem not_half (c : Char) : ¬ (0xD800 ≤ c.toNat ∧ c.toNat < 0xDC00) := by
  have hvalid : c.toNat.isValidChar := c.valid
  unfold Nat.isValidChar at hvalid
  omega

/-- What is no first half stands for itself. -/
theorem joinPairs_cons (c : Char) (units : List Nat) : joinPairs (c.toNat :: units) = c :: joinPairs units := by
  cases units with
  | nil => exact congrArg (fun c => [c]) (charOf_toNat c)
  | cons v units =>
    rw [joinPairs, if_neg fun h => not_half c ⟨h.1, h.2.1⟩, charOf_toNat]

/-- The two halves of a pair make up the character. -/
theorem joinPairs_pair {c : Char} (h : 0x10000 ≤ c.toNat) (units : List Nat) :
    joinPairs ((0xD800 + (c.toNat - 0x10000) / 0x400) :: (0xDC00 + (c.toNat - 0x10000) % 0x400) :: units) =
      c :: joinPairs units := by
  have hlt := toNat_lt c
  have hsum : 0x10000 + (0xD800 + (c.toNat - 0x10000) / 0x400 - 0xD800) * 0x400 +
      (0xDC00 + (c.toNat - 0x10000) % 0x400 - 0xDC00) = c.toNat := by omega
  rw [joinPairs, if_pos (by omega), hsum, charOf_toNat]

end Text

namespace Json

open Text

/-- The code units by which a character is written. -/
def Style.units (style : Style) (c : Char) : List Nat :=
  if style.asciiOnly && 0x10000 ≤ c.toNat then
    [0xD800 + (c.toNat - 0x10000) / 0x400, 0xDC00 + (c.toNat - 0x10000) % 0x400]
  else [c.toNat]

theorem joinPairs_units (style : Style) (text : List Char) : joinPairs (text.flatMap style.units) = text := by
  induction text with
  | nil => rfl
  | cons c text ih =>
    rw [List.flatMap_cons, Style.units]
    split
    · next h =>
      rw [Bool.and_eq_true, decide_eq_true_iff] at h
      exact (joinPairs_pair h.2 _).trans (congrArg (c :: ·) ih)
    · exact (joinPairs_cons c _).trans (congrArg (c :: ·) ih)

/-! ### escapes -/

/-- The four digits of a code unit. -/
theorem hex_four {n : Nat} (h : n < 0x10000) : hex 4 n =
    [(n / 0x1000).digitChar, (n / 0x100 % 16).digitChar, (n / 0x10 % 16).digitChar, (n % 16).digitChar] := by
  have hzero : (0 : Nat).digitChar = '0' := rfl
  unfold hex
  dsimp only
  by_cases h₁ : n < 16
  · rw [Nat.toDigits_of_lt_base h₁, Nat.div_eq_of_lt (by omega), Nat.div_eq_of_lt (by omega),
      Nat.div_eq_of_lt (by omega), Nat.mod_eq_of_lt h₁, Nat.zero_mod, hzero]
    rfl
  rw [Nat.toDigits_of_base_le (by decide) (Nat.le_of_not_lt h₁)]
  by_cases h₂ : n / 16 < 16
  · rw [Nat.toDigits_of_lt_base h₂, Nat.div_eq_of_lt (a := n) (b := 0x1000) (by omega),
      Nat.div_eq_of_lt (a := n) (b := 0x100) (by omega), Nat.mod_eq_of_lt h₂, Nat.zero_mod, hzero]
    rfl
  rw [Nat.toDigits_of_base_le (by decide) (Nat.le_of_not_lt h₂), Nat.div_div_eq_div_mul]
  by_cases h₃ : n / (16 * 16) < 16
  · rw [Nat.toDigits_of_lt_base h₃, Nat.div_eq_of_lt (a := n) (b := 0x1000) (by omega), Nat.mod_eq_of_lt h₃, hzero]
    rfl
  · rw [Nat.toDigits_of_base_le (by decide) (Nat.le_of_not_lt h₃), Nat.div_div_eq_div_mul,
      Nat.toDigits_of_lt_base (by omega)]
    rfl

theorem hexUnit_hex {n : Nat} (h : n < 0x10000) :
    hexUnit? (n / 0x1000).digitChar (n / 0x100 % 16).digitChar (n / 0x10 % 16).digitChar (n % 16).digitChar =
      some n := by
  unfold hexUnit?
  rw [hexValue?_digitChar (by omega), hexValue?_digitChar (by omega), hexValue?_digitChar (by omega),
    hexValue?_digitChar (by omega)]
  dsimp only
  congr 1
  omega

/-! ### reading -/

section

variable {opened : Nat} {units : List Nat} {more : List Char}

/-- The code units of a text are read one after the other. -/
def Reads (opened : Nat) (text more : List Char) (read : List Nat) : Prop :=
  ∀ position units, ∃ position', stringUnits opened position units (text ++ more) =
    stringUnits opened position' (read.reverse ++ units) more

theorem Reads.append {text text' : List Char} {read read' : List Nat} (h : Reads opened text (text' ++ more) read)
    (h' : Reads opened text' more read') : Reads opened (text ++ text') more (read ++ read') := by
  intro position units
  obtain ⟨position₁, h₁⟩ := h position units
  obtain ⟨position₂, h₂⟩ := h' position₁ (read.reverse ++ units)
  refine ⟨position₂, ?_⟩
  rw [List.append_assoc, h₁, h₂, List.reverse_append, List.append_assoc]

theorem reads_unitEscape {n : Nat} (h : n < 0x10000) (hmore : more ≠ []) : Reads opened (unitEscape n) more [n] := by
  intro position units
  obtain ⟨c, more, rfl⟩ := List.exists_cons_of_ne_nil hmore
  refine ⟨position + 6, ?_⟩
  unfold unitEscape
  rw [hex_four h]
  show stringUnits opened position units ('\\' :: 'u' :: _ :: _ :: _ :: _ :: c :: more) = _
  rw [stringUnits, hexUnit_hex h]
  rfl

theorem reads_shortEscape {c d : Char} (h : shortEscape? c = some d) : Reads opened ['\\', c] more [d.toNat] := by
  intro position units
  refine ⟨position + 2, ?_⟩
  show stringUnits opened position units ('\\' :: c :: more) = _
  unfold shortEscape? at h
  split at h <;> cases h <;> simp [stringUnits, shortEscape?]

theorem reads_plain {c : Char} (hquote : c ≠ '"') (hslash : c ≠ '\\') (h : ¬ c.toNat < 0x20) :
    Reads opened [c] more [c.toNat] := by
  intro position units
  refine ⟨position + 1, ?_⟩
  show stringUnits opened position units (c :: more) = _
  rw [stringUnits, if_neg h]
  · rfl
  · exact hquote
  all_goals
    intros
    contradiction

/-- A character of less than sixteen bits is one code unit. -/
theorem units_of_lt (style : Style) {c : Char} (h : c.toNat < 0x10000) : style.units c = [c.toNat] := by
  unfold Style.units
  rw [decide_eq_false (Nat.not_le.mpr h), Bool.and_false]
  rfl

/-- A character is read as the code units by which it is written. -/
theorem reads_char (style : Style) (c : Char) (hmore : more ≠ []) :
    Reads opened (style.char c) more (style.units c) := by
  have hshort {d : Char} (hd : shortEscape? d = some c) (hc : c.toNat < 0x10000) :
      Reads opened ['\\', d] more (style.units c) :=
    units_of_lt style hc ▸ reads_shortEscape hd
  unfold Style.char
  split
  · next h =>
    rcases Bool.or_eq_true_iff.mp h with h | h <;> obtain rfl := eq_of_beq h <;> exact hshort rfl (by decide)
  next hmarks =>
  split
  · next h => obtain rfl := eq_of_beq h; exact hshort rfl (by decide)
  split
  · next h => obtain rfl := eq_of_beq h; exact hshort rfl (by decide)
  split
  · next h => obtain rfl := eq_of_beq h; exact hshort rfl (by decide)
  split
  · next h => obtain rfl := eq_of_beq h; exact hshort rfl (by decide)
  split
  · next h => obtain rfl := eq_of_beq h; exact hshort rfl (by decide)
  split
  · next h =>
    rw [units_of_lt style (by omega)]
    exact reads_unitEscape (by omega) hmore
  next hcontrol =>
  split
  · next hascii =>
    split
    · next h =>
      rw [units_of_lt style h]
      exact reads_unitEscape h hmore
    · next h =>
      have hlt := toNat_lt c
      have hunits : style.units c =
          [0xD800 + (c.toNat - 0x10000) / 0x400] ++ [0xDC00 + (c.toNat - 0x10000) % 0x400] := by
        unfold Style.units
        rw [(Bool.and_eq_true_iff.mp hascii).1, decide_eq_true (Nat.le_of_not_lt h)]
        rfl
      rw [hunits]
      exact (reads_unitEscape (by omega) (List.append_ne_nil_of_right_ne_nil _ hmore)).append
        (reads_unitEscape (by omega) hmore)
  · next hascii =>
    rw [Bool.or_eq_true, beq_iff_eq, beq_iff_eq, not_or] at hmarks
    have hunits : style.units c = [c.toNat] := by
      cases hstyle : style.asciiOnly with
      | true =>
        rw [hstyle, Bool.true_and, decide_eq_true_iff] at hascii
        exact units_of_lt style (by omega)
      | false =>
        unfold Style.units
        rw [hstyle]
        rfl
    rw [hunits]
    exact reads_plain hmarks.1 hmarks.2 hcontrol

/-- **A text is read as the code units by which it is written.** -/
theorem reads_text (style : Style) (text : List Char) (hmore : more ≠ []) :
    Reads opened (text.flatMap style.char) more (text.flatMap style.units) := by
  induction text with
  | nil => exact fun position units => ⟨position, rfl⟩
  | cons c text ih =>
    rw [List.flatMap_cons, List.flatMap_cons]
    exact (reads_char style c (List.append_ne_nil_of_right_ne_nil _ hmore)).append ih

end

/-- **A string reads back in any style.** Its opening quote has been read. -/
theorem readString_takes (style : Style) (s : String) (rest : List Char) :
    Takes readString (s.toList.flatMap style.char ++ ['"']) rest s := by
  intro position
  obtain ⟨position', h⟩ :=
    reads_text style s.toList (List.cons_ne_nil '"' rest) position []
  refine ⟨position' + 1, ?_⟩
  unfold readString
  dsimp only
  rw [List.append_assoc, List.singleton_append, h, stringUnits, List.append_nil, List.reverse_reverse]
  show Except.ok (String.ofList (joinPairs (s.toList.flatMap style.units)), _) = _
  rw [joinPairs_units, String.ofList_toList]

end Json

end Outfitter
