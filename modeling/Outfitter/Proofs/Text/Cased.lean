import Outfitter.Proofs.Text.Classes
import Outfitter.Proofs.Text.Clean
import Outfitter.Proofs.Text.Spacing

/-!
Phrases in a text and in its lower case.

No character becomes a blank in lower case (`isBlank_smallLetter`, `isBlank_foldCase`), so words with single spaces
between them are letters in a row (`laid_isSpace_iff`), and a text without the dotted capital I counts as its lower
case does, character by character (`alike_lower`). The dotted capital I becomes two characters, so a phrase stands in a cleaned
text if it stands in the text in which every such letter is taken apart (`foundIn_clean_iff`).
-/

namespace Outfitter.Text

/-! ### blanks and case -/

/-- No small letter beyond ASCII is a blank, nor are letters that stand for others, or those. -/
theorem blankChars_apart :
    (∀ run ∈ caseRuns, blankChars.all fun b =>
      decide (b.toNat < run.first + run.distance) || decide (run.last + run.distance < b.toNat)) ∧
    (∀ p ∈ caseVariants, isBlank (Char.ofNat p.1) = false ∧ isBlank (Char.ofNat p.2) = false) ∧
    blankChars.all fun b => decide (b.toNat < 97) || (128).ble b.toNat := by
  decide +kernel

/-- A blank is the small letter of itself only. -/
theorem smallLetter_of_isBlank {c : Char} (h : isBlank (smallLetter c) = true) : smallLetter c = c := by
  obtain ⟨hruns, -, hascii⟩ := blankChars_apart
  have hmem := mem_blankChars h
  have happly := List.all_eq_true.mp hascii _ hmem
  rw [Bool.or_eq_true, decide_eq_true_eq, Nat.ble_eq] at happly
  unfold smallLetter at hmem happly ⊢
  split at hmem
  · rename_i hle
    rw [if_pos hle] at happly ⊢
    obtain ⟨-, hmost, hcase, -⟩ := toLower_facts c.toNat (by omega)
    rw [Char.ofNat_toNat] at hmost hcase
    exact hcase.resolve_right (by omega)
  · rename_i hbeyond
    rw [if_neg hbeyond] at happly ⊢
    rcases convert_cases c.toNat caseRuns with he | ⟨run, hrun, hfirst, hlast, -, he⟩
    · rw [he, Char.ofNat_toNat]
    · have hvalue := toNat_ofNat_of_run hrun hfirst hlast (Nat.lt_of_not_le hbeyond)
      have habove := (caseRuns_apart run hrun).1
      have hapart := List.all_eq_true.mp (hruns run hrun) _ hmem
      rw [he] at hapart
      rw [hvalue, Bool.or_eq_true, decide_eq_true_eq, decide_eq_true_eq] at hapart
      omega

/-- **A character is a blank exactly if its small letter is.** -/
theorem isBlank_smallLetter (c : Char) : isBlank (smallLetter c) = isBlank c := by
  cases hsmall : isBlank (smallLetter c) with
  | true => rw [← smallLetter_of_isBlank hsmall, hsmall]
  | false =>
    refine (Bool.eq_false_iff.mpr fun hc => ?_).symm
    have hone := (lowerOne_blank hc).2
    unfold lowerOne at hone
    split at hone
    · cases hone
    · rw [List.singleton_injective hone, hc] at hsmall
      cases hsmall

/-- **A character is a blank exactly if the letter that stands for it is.** -/
theorem isBlank_foldCase (c : Char) : isBlank (foldCase c) = isBlank c := by
  obtain ⟨-, hvariants, -⟩ := blankChars_apart
  rw [← isBlank_smallLetter c]
  unfold foldCase
  dsimp only
  split
  · rfl
  · cases hfind : caseVariants.find? fun p => p.1 == (smallLetter c).toNat with
    | none => rfl
    | some p =>
      obtain ⟨hsmall, hblank⟩ := hvariants p (List.mem_of_find?_eq_some hfind)
      have hfound := List.find?_some hfind
      have hnumber : p.1 = (smallLetter c).toNat := beq_iff_eq.mp hfound
      rw [hnumber, Char.ofNat_toNat] at hsmall
      rw [Option.map_some, Option.getD_some, hblank, hsmall]

/-- The letter that stands for a letter stands for its small letter, too. -/
theorem foldCase_smallLetter (c : Char) : foldCase (smallLetter c) = foldCase c := by
  unfold foldCase
  rw [smallLetter_smallLetter]

/-! ### words with single spaces between them -/

theorem eq_space_of_foldCase {c : Char} (h : foldCase c = foldCase ' ') : c = ' ' := by
  have hspace : foldCase ' ' = ' ' := foldCase_blank rfl
  have hc : isBlank c = true := by
    rw [← isBlank_foldCase, h, hspace]
    rfl
  rwa [foldCase_blank hc, hspace] at h

/-- **Words laid out with single spaces** are the letters of the words and the spaces, up to case. -/
theorem laid_isSpace_iff (ws : List (List Char)) (stretch : List Char) :
    Laid IsSpace ws stretch ↔ stretch.map foldCase = ([' '].intercalate ws).map foldCase := by
  induction ws generalizing stretch with
  | nil =>
    constructor
    · rintro ⟨⟩
      rfl
    · intro h
      obtain rfl : stretch = [] := List.map_eq_nil_iff.mp h
      exact .none
  | cons w ws ih =>
    cases ws with
    | nil =>
      rw [List.intercalate_singleton]
      constructor
      · rintro (_ | h)
        exact h
      · exact .last
    | cons v ws =>
      have hrow : [' '].intercalate (w :: v :: ws) = w ++ ' ' :: [' '].intercalate (v :: ws) := by
        rw [List.intercalate_cons_cons, List.append_assoc, List.singleton_append]
      rw [hrow, List.map_append, List.map_cons]
      constructor
      · intro hlaid
        cases hlaid with
        | more h hgap hrest =>
          rw [List.map_append, List.map_append, h, show _ = [' '] from hgap, (ih _).mp hrest, List.append_assoc]
          rfl
      · intro h
        obtain ⟨word, back, rfl, hword, hback⟩ := List.map_eq_append_iff.mp h
        obtain ⟨c, rest, rfl, hc, hrest⟩ := List.map_eq_cons_iff.mp hback
        obtain rfl := eq_space_of_foldCase hc
        have hlaid : Laid IsSpace (w :: v :: ws) (word ++ [' '] ++ rest) := .more hword rfl ((ih rest).mpr hrest)
        rwa [List.append_assoc] at hlaid

/-! ### the lower case of a text -/

theorem alike_smallLetter (c : Char) : Alike c (smallLetter c) :=
  ⟨isWord_smallLetter c, isBlank_smallLetter c, fun _ => foldCase_smallLetter c⟩

/-- The final sigma counts as the capital. -/
theorem alike_final : Alike 'Σ' 'ς' := by
  have hfold : foldCase 'ς' = foldCase 'Σ' ∧ isWord 'ς' = isWord 'Σ' := by decide +kernel
  exact ⟨hfold.2, rfl, fun _ => hfold.1⟩

/-- The text with each dotted capital I taken apart, into the letter and the dot that stand for it in lower case. -/
def dotsApart (text : List Char) : List Char :=
  text.flatMap fun c => if c = 'İ' then ['i', '\u0307'] else [c]

theorem dotsApart_cons {c : Char} (hc : c ≠ 'İ') (rest : List Char) : dotsApart (c :: rest) = c :: dotsApart rest := by
  unfold dotsApart
  rw [List.flatMap_cons, if_neg hc]
  rfl

theorem dotsApart_of_not_mem {text : List Char} (h : 'İ' ∉ text) : dotsApart text = text := by
  induction text with
  | nil => rfl
  | cons c rest ih =>
    have hc : c ≠ 'İ' := fun he => h (he ▸ List.mem_cons_self ..)
    rw [dotsApart_cons hc, ih fun hmem => h (List.mem_cons_of_mem _ hmem)]

theorem Lowers.alike {text small : List Char} (h : Lowers text small) : List.Forall₂ Alike (dotsApart text) small := by
  induction h with
  | nil => exact .nil
  | @letter c _ _ hc _ ih =>
    rw [dotsApart_cons hc]
    exact .cons (alike_smallLetter c) ih
  | final _ ih =>
    rw [dotsApart_cons (by decide)]
    exact .cons alike_final ih
  | dotted _ ih => exact .cons (.refl 'i') (.cons (.refl '\u0307') ih)

/-- **A text is like its lower case** once the dotted capital I is taken apart, character by character. -/
theorem alike_dotsApart (text : List Char) : List.Forall₂ Alike (dotsApart text) (lower text) :=
  (lowers_lower text).alike

/-- A text without the dotted capital I is like its lower case. -/
theorem alike_lower {text : List Char} (h : 'İ' ∉ text) : List.Forall₂ Alike text (lower text) := by
  have halike := alike_dotsApart text
  rwa [dotsApart_of_not_mem h] at halike

/-! ### phrases in a cleaned text -/

/-- The words of a phrase are solid, if there are any. -/
theorem solid_of_words_ne_nil {phrase : List Char} (h : words phrase ≠ []) : Solid (words phrase) where
  ne := h
  each w hw := by
    obtain ⟨hne, hchars⟩ := mem_words hw
    exact ⟨hne, fun c hc => (isBlank_foldCase c).trans (hchars c hc).1⟩

theorem solid_words {phrase : List Char} (h : ¬ Blank phrase) : Solid (words phrase) :=
  solid_of_words_ne_nil (words_ne_nil h)

theorem spread_clean {ws : List (List Char)} (hws : Solid ws) (text : List Char) :
    Spread IsGap ws (clean text) ↔ Spread IsGap ws (dotsApart text) := by
  have halike := alike_dotsApart text
  have hback := halike.flip.imp fun _ _ h => Alike.symm h
  calc Spread IsGap ws (clean text)
      ↔ Spread IsSpace ws (collapse (collapse (lower text))) := (spread_collapse hws _).symm
    _ ↔ Spread IsSpace ws (collapse (lower text)) := by rw [collapse_collapse]
    _ ↔ Spread IsGap ws (lower text) := spread_collapse hws _
    _ ↔ Spread IsGap ws (dotsApart text) := ⟨fun h => h.alike hws.each hback, fun h => h.alike hws.each halike⟩

/-- **A phrase stands in the cleaned text** exactly if it stands in the text, once the dotted capital I is taken
apart. -/
theorem foundIn_clean_iff {phrase : List Char} (h : ¬ Blank phrase) (text : List Char) :
    (Pattern.phrase phrase).foundIn (clean text) = (Pattern.phrase phrase).foundIn (dotsApart text) := by
  rw [Bool.eq_iff_iff, Pattern.foundIn_phrase_iff, Pattern.foundIn_phrase_iff]
  exact spread_clean (solid_words h) text

end Outfitter.Text
