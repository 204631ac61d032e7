import Outfitter.Proofs.Dialogue.Planned
import Outfitter.Proofs.Text.Cased

/-!
The wording of a message: its words, each in lower case.

A text is made lower case word by word (`words_lower`): no character becomes a blank, and what stands behind a blank
does not decide about a final sigma. So a cleaned text is its wording with single spaces (`clean_eq`), and texts are
cleaned alike exactly if their wording is the same (`clean_eq_clean_iff`). Of a message nothing but its wording is
read (`read_by_wording`), so it may be read as it stands, trimmed or cleaned.
-/

namespace Outfitter.Text

/-- The words of a text, each in lower case. -/
def wording (text : List Char) : List (List Char) :=
  (words text).map lower

variable {text other : List Char}

/-! ### words in lower case -/

/-- No character becomes a blank in lower case. -/
theorem not_blank_of_lower (h : ∀ c ∈ text, isBlank c = false) : ∀ d ∈ lower text, isBlank d = false :=
  (lowers_lower text).forall_mem rfl rfl fun c hc => (isBlank_smallLetter c).trans (h c hc)

theorem wording_append_cons {b : Char} (hb : isBlank b = true) (text rest : List Char) :
    wording (text ++ b :: rest) = wording text ++ wording rest := by
  unfold wording
  rw [words_append_cons hb, List.map_append]

/-- **A text is made lower case word by word.** -/
theorem words_lower (text : List Char) : words (lower text) = wording text := by
  induction text using blank_induction with
  | nil => rfl
  | word w hne hw =>
    have hsmall : lower w ≠ [] := mt lower_eq_nil.mp hne
    unfold wording
    rw [words_of_word hne hw, words_of_word hsmall (not_blank_of_lower hw), List.map_singleton]
  | blank text b rest hb iht ihr =>
    rw [lower_append_cons hb, words_append_cons hb, wording_append_cons hb, iht, ihr]

/-! ### cleaned text -/

/-- A cleaned text is its wording, with single spaces. -/
theorem clean_eq (text : List Char) : clean text = [' '].intercalate (wording text) :=
  congrArg ([' '].intercalate ·) (words_lower text)

theorem words_clean (text : List Char) : words (clean text) = wording text :=
  (words_collapse (lower text)).trans (words_lower text)

/-- **Texts are cleaned alike** exactly if their wording is the same. -/
theorem clean_eq_clean_iff : clean text = clean other ↔ wording text = wording other := by
  constructor
  · intro h
    rw [← words_clean text, h, words_clean]
  · intro h
    rw [clean_eq, h, ← clean_eq]

/-- A sigma is final at the end of its word, and the dotted capital I keeps its dot. -/
example : clean "\t ΣΟΦΟΣ\u2003İPEK ".toList = "σοφος i\u0307pek".toList := by
  decide +kernel

end Outfitter.Text

namespace Outfitter.Message

open Text Journal

theorem extractedFrom_str (text : String) (known : Value) :
    extractedFrom (.str text) known = extracted text.toList (brandsOf known) := by
  unfold extractedFrom
  rw [Dialogue.demandOptionalText_str]
  rfl

end Outfitter.Message

namespace Outfitter.Dialogue

open Text Message

/-- **A message is read up to case and spacing.** Cleaning twice is cleaning once, blanks at the ends are not seen,
and all that is left of a text is its wording. Whatever brands are known, a message says what its cleaned text says,
with the same faults and the same marks in the journal. Whether it is a reset does not depend on the blanks at its
ends either. -/
theorem read_by_wording (text : String) :
    clean (clean text.toList) = clean text.toList ∧
    clean (trim text.toList) = clean text.toList ∧
    (∀ other, clean other = clean text.toList ↔ wording other = wording text.toList) ∧
    (∀ known, extract text known = extract (String.ofList (clean text.toList)) known) ∧
    (∀ known, extractedFrom (.str text) known = extractedFrom (.str (String.ofList (clean text.toList))) known) ∧
    isReset (trim text.toList) = isReset text.toList := by
  have hcleaned : clean text.toList = clean (String.ofList (clean text.toList)).toList := by
    rw [String.toList_ofList, clean_clean]
  refine ⟨clean_clean _, clean_trim _, fun other => clean_eq_clean_iff, fun known => ?_, fun known => ?_,
    isReset_trim _⟩
  · exact extractWith_congr hcleaned (.ok known)
  · rw [extractedFrom_str, extractedFrom_str]
    exact extracted_congr hcleaned (brandsOf known)

end Outfitter.Dialogue
