import Outfitter.Text.Clean
import Outfitter.Text.Digit
import Outfitter.Text.Word

/-!
Blanks at the ends of a text.

Cleaning a text does not see them: `clean_trim`. No blank has a case or is a mark inside a word, so a text
is made lower case on each side of a blank by itself (`lower_append_cons`), as its words are those on both
sides (`words_append_cons`). So what is to be shown of every text may be shown from blank to blank
(`blank_induction`).
-/

namespace Outfitter.Text

/-! ### the blanks one by one -/

/-- All blanks. -/
def blankChars : List Char :=
  ['\t', '\n', '\x0b', '\x0c', '\r', '\x1c', '\x1d', '\x1e', '\x1f', ' ', '\u0085', '\u00a0', '\u1680',
    '\u2000', '\u2001', '\u2002', '\u2003', '\u2004', '\u2005', '\u2006', '\u2007', '\u2008', '\u2009',
    '\u200a', '\u2028', '\u2029', '\u202f', '\u205f', '\u3000']

theorem mem_blankChars {c : Char} (h : isBlank c = true) : c ∈ blankChars := by
  have hc : c.toNat ∈ blankChars.map Char.toNat := by
    have : blankChars.map Char.toNat = [9, 10, 11, 12, 13, 28, 29, 30, 31, 32, 0x85, 0xA0, 0x1680, 0x2000,
        0x2001, 0x2002, 0x2003, 0x2004, 0x2005, 0x2006, 0x2007, 0x2008, 0x2009, 0x200A, 0x2028, 0x2029,
        0x202F, 0x205F, 0x3000] := by decide
    rw [this]
    simp only [isBlank, Bool.or_eq_true, Bool.and_eq_true, decide_eq_true_eq, beq_iff_eq] at h
    simp only [List.mem_cons, List.not_mem_nil, or_false]
    omega
  obtain ⟨b, hb, he⟩ := List.mem_map.mp hc
  have : b = c := by rw [← Char.ofNat_toNat b, ← Char.ofNat_toNat c, he]
  exact this ▸ hb

/-- What holds of each of the blanks holds of every character that is one. -/
theorem of_isBlank {P : Char → Prop} [DecidablePred P] (h : blankChars.all (P ·) = true) {c : Char}
    (hc : isBlank c = true) : P c :=
  of_decide_eq_true (List.all_eq_true.mp h c (mem_blankChars hc))

/-- A blank has no case and no value, ends a word in the middle, and is no mark inside one. -/
theorem blank_apart {c : Char} (hc : isBlank c = true) :
    (c ≠ 'Σ' ∧ lowerOne c = [c] ∧ foldCase c = c) ∧
      isInnerMark c = false ∧ isCased c = false ∧ isWord c = false ∧ isDigit c = false :=
  of_isBlank (P := fun c => (c ≠ 'Σ' ∧ lowerOne c = [c] ∧ foldCase c = c) ∧
    isInnerMark c = false ∧ isCased c = false ∧ isWord c = false ∧ isDigit c = false) (by decide +kernel) hc

theorem lowerOne_blank {c : Char} (hc : isBlank c = true) : c ≠ 'Σ' ∧ lowerOne c = [c] :=
  ⟨(blank_apart hc).1.1, (blank_apart hc).1.2.1⟩

theorem foldCase_blank {c : Char} (hc : isBlank c = true) : foldCase c = c :=
  (blank_apart hc).1.2.2

theorem isInnerMark_blank {c : Char} (hc : isBlank c = true) : isInnerMark c = false :=
  (blank_apart hc).2.1

theorem isCased_blank {c : Char} (hc : isBlank c = true) : isCased c = false :=
  (blank_apart hc).2.2.1

theorem isWord_blank {c : Char} (hc : isBlank c = true) : isWord c = false :=
  (blank_apart hc).2.2.2.1

theorem isDigit_blank {c : Char} (hc : isBlank c = true) : isDigit c = false :=
  (blank_apart hc).2.2.2.2

/-! ### from blank to blank -/

/-- What stands behind a blank is no letter that follows. -/
theorem letterFollows_append_cons {b : Char} (hb : isBlank b = true) (text rest : List Char) :
    letterFollows (text ++ b :: rest) = letterFollows text := by
  unfold letterFollows
  induction text with
  | nil =>
    rw [List.nil_append, List.dropWhile_cons_of_neg (by simp [isInnerMark_blank hb])]
    simp [isCased_blank hb]
  | cons c text ih =>
    rw [List.cons_append, List.dropWhile_cons, List.dropWhile_cons]
    split
    · exact ih
    · rfl

theorem lowerFrom_append_cons {b : Char} (hb : isBlank b = true) (afterLetter : Bool) (text rest : List Char) :
    lowerFrom afterLetter (text ++ b :: rest) = lowerFrom afterLetter text ++ b :: lower rest := by
  induction text generalizing afterLetter with
  | nil =>
    have ⟨hσ, hlower⟩ := lowerOne_blank hb
    simp [lowerFrom, lower, hσ, hlower, isInnerMark_blank hb, isCased_blank hb]
  | cons c text ih => simp only [List.cons_append, lowerFrom, ih, letterFollows_append_cons hb, List.append_assoc]

/-- **The two sides of a blank** have nothing to do with each other in lower case. -/
theorem lower_append_cons {b : Char} (hb : isBlank b = true) (text rest : List Char) :
    lower (text ++ b :: rest) = lower text ++ b :: lower rest :=
  lowerFrom_append_cons hb false text rest

theorem wordsFrom_append_cons {b : Char} (hb : isBlank b = true) (word text rest : List Char) :
    wordsFrom word (text ++ b :: rest) = wordsFrom word text ++ words rest := by
  induction text generalizing word with
  | nil =>
    rw [List.nil_append, wordsFrom, wordsFrom, if_pos hb]
    split <;> rfl
  | cons c text ih =>
    rw [List.cons_append, wordsFrom, wordsFrom, ih, ih]
    split
    · split <;> rfl
    · rfl

/-- **The words of a text** are those on both sides of a blank. -/
theorem words_append_cons {b : Char} (hb : isBlank b = true) (text rest : List Char) :
    words (text ++ b :: rest) = words text ++ words rest :=
  wordsFrom_append_cons hb [] text rest

/-- A word is read on to its end. -/
theorem wordsFrom_append_word {w : List Char} (hw : ∀ c ∈ w, isBlank c = false) (word rest : List Char) :
    wordsFrom word (w ++ rest) = wordsFrom (w.reverse ++ word) rest := by
  induction w generalizing word with
  | nil => rfl
  | cons c w ih =>
    obtain ⟨hc, hw⟩ := List.forall_mem_cons.mp hw
    rw [List.cons_append, wordsFrom, if_neg (by rw [hc]; exact Bool.false_ne_true), ih hw]
    simp

/-- A stretch without a blank is one word. -/
theorem words_of_word {w : List Char} (hne : w ≠ []) (hw : ∀ c ∈ w, isBlank c = false) : words w = [w] := by
  have hread := wordsFrom_append_word hw [] []
  rw [List.append_nil, List.append_nil, wordsFrom, if_neg (by simpa using hne), List.reverse_reverse] at hread
  exact hread

/-- **From blank to blank**: what holds of the empty text and of every word, and of two texts with a blank between them
if it holds of both, holds of every text. -/
theorem blank_induction {P : List Char → Prop} (nil : P [])
    (word : ∀ w, w ≠ [] → (∀ c ∈ w, isBlank c = false) → P w)
    (blank : ∀ text b rest, isBlank b = true → P text → P rest → P (text ++ b :: rest)) (text : List Char) :
    P text := by
  have hsolid : ∀ w, (∀ c ∈ w, isBlank c = false) → P w := by
    intro w hw
    by_cases hne : w = []
    · exact hne ▸ nil
    · exact word w hne hw
  -- the word that is being read stands in front of the text
  have hbehind : ∀ w, (∀ c ∈ w, isBlank c = false) → P (w ++ text) := by
    induction text with
    | nil =>
      intro w hw
      rw [List.append_nil]
      exact hsolid w hw
    | cons c rest ih =>
      intro w hw
      by_cases hc : isBlank c = true
      · exact blank w c rest hc (hsolid w hw) (ih [] nofun)
      · have hlonger : ∀ d ∈ w ++ [c], isBlank d = false :=
          List.forall_mem_append.mpr ⟨hw, List.forall_mem_singleton.mpr (Bool.eq_false_iff.mpr hc)⟩
        rw [← List.singleton_append, ← List.append_assoc]
        exact ih (w ++ [c]) hlonger
  exact hbehind [] nofun

/-! ### blanks around a text -/

/-- Nothing but blanks. -/
def Blank (text : List Char) : Prop :=
  ∀ c ∈ text, isBlank c = true

theorem lower_append_of_blank {post : List Char} (h : Blank post) (text : List Char) :
    lower (text ++ post) = lower text ++ post := by
  induction post generalizing text with
  | nil => simp
  | cons b post ih =>
    obtain ⟨hb, hpost⟩ := List.forall_mem_cons.mp h
    have hrest : lower post = post := ih hpost []
    rw [lower_append_cons hb, hrest]

theorem lower_of_blank_append {pre : List Char} (h : Blank pre) (text : List Char) :
    lower (pre ++ text) = pre ++ lower text := by
  induction pre with
  | nil => rfl
  | cons b pre ih =>
    obtain ⟨hb, hpre⟩ := List.forall_mem_cons.mp h
    exact (lower_append_cons hb [] (pre ++ text)).trans (congrArg (b :: ·) (ih hpre))

/-- The blanks at the ends stay as they are in lower case. -/
theorem lower_between {pre post : List Char} (hpre : Blank pre) (hpost : Blank post) (text : List Char) :
    lower (pre ++ text ++ post) = pre ++ lower text ++ post := by
  rw [lower_append_of_blank hpost, lower_of_blank_append hpre]

theorem words_of_blank_append {pre : List Char} (h : Blank pre) (text : List Char) :
    words (pre ++ text) = words text := by
  induction pre with
  | nil => rfl
  | cons b pre ih =>
    obtain ⟨hb, hpre⟩ := List.forall_mem_cons.mp h
    exact (words_append_cons hb [] (pre ++ text)).trans (ih hpre)

/-- Blanks at the ends are in no word. -/
theorem words_between {pre post : List Char} (hpre : Blank pre) (hpost : Blank post) (text : List Char) :
    words (pre ++ text ++ post) = words text := by
  rw [List.append_assoc, words_of_blank_append hpre]
  cases post with
  | nil => rw [List.append_nil]
  | cons b post =>
    obtain ⟨hb, hpost⟩ := List.forall_mem_cons.mp hpost
    have hnone : words (post ++ []) = [] := words_of_blank_append hpost []
    rw [List.append_nil] at hnone
    rw [words_append_cons hb, hnone, List.append_nil]

/-- A text is its trimmed form with blanks around it. -/
theorem exists_trim (text : List Char) :
    ∃ pre post, Blank pre ∧ Blank post ∧ text = pre ++ trim text ++ post := by
  refine ⟨text.takeWhile isBlank, (((text.dropWhile isBlank).reverse).takeWhile isBlank).reverse,
    fun c hc => List.all_eq_true.mp List.all_takeWhile c hc, fun c hc => ?_, ?_⟩
  · exact List.all_eq_true.mp List.all_takeWhile c (List.mem_reverse.mp hc)
  · unfold trim trimBy
    rw [List.append_assoc, ← List.reverse_append, List.takeWhile_append_dropWhile, List.reverse_reverse,
      List.takeWhile_append_dropWhile]

theorem words_trim (text : List Char) : words (trim text) = words text := by
  obtain ⟨pre, post, hpre, hpost, he⟩ := exists_trim text
  generalize trim text = inner at he
  rw [he, words_between hpre hpost]

theorem words_ne_nil {text : List Char} (h : ¬ Blank text) : words text ≠ [] := by
  induction text using blank_induction with
  | nil => exact absurd nofun h
  | word w hne hw =>
    rw [words_of_word hne hw]
    exact List.cons_ne_nil _ _
  | blank text b rest hb iht ihr =>
    rw [words_append_cons hb]
    by_cases htext : Blank text
    · have hrest : ¬ Blank rest := fun hrest =>
        h (List.forall_mem_append.mpr ⟨htext, List.forall_mem_cons.mpr ⟨hb, hrest⟩⟩)
      exact List.append_ne_nil_of_right_ne_nil _ (ihr hrest)
    · exact List.append_ne_nil_of_left_ne_nil (iht htext) _

theorem trim_eq_nil {text : List Char} (h : trim text = []) : Blank text := by
  obtain ⟨pre, post, hpre, hpost, he⟩ := exists_trim text
  rw [h, List.append_nil] at he
  rw [he]
  exact List.forall_mem_append.mpr ⟨hpre, hpost⟩

/-- **Cleaning does not see the blanks at the ends.** -/
theorem clean_trim (text : List Char) : clean (trim text) = clean text := by
  obtain ⟨pre, post, hpre, hpost, he⟩ := exists_trim text
  generalize trim text = inner at he
  unfold clean collapse
  rw [he, lower_between hpre hpost, words_between hpre hpost]

end Outfitter.Text
