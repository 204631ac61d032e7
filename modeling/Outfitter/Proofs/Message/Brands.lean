import Outfitter.Proofs.Message.Heard
import Outfitter.Proofs.Text.Cased

/-!
Known brands in a message.

The known brands that stand in a text as whole words match it (`matching`), in the order in which they are known
and each once. A message has the brands that match it with each dotted capital I taken apart, as this letter is two
characters in lower case; only where none matches a brand may be guessed (`brand_of_extract`). So a message without
that letter has exactly the brands that match it.
-/

namespace Outfitter.Message

open Filters Text

/-- The known brands that stand in the text as whole words, in their order and each once. -/
def matching (text : List Char) (known : List String) : List String :=
  (known.filter fun b => (Pattern.phrase b.toList).foundIn text).eraseDups

variable {text : List Char} {known : List String}

/-! ### brands in a cleaned text -/

theorem namesBrand_clean {b : String} (h : ¬ Blank b.toList) (text : List Char) :
    namesBrand (clean text) b = (Pattern.phrase b.toList).foundIn (dotsApart text) := by
  have htrim : (trim b.toList).isEmpty = false := List.isEmpty_eq_false_iff.mpr fun he => h (trim_eq_nil he)
  have hphrase : (Pattern.phrase (trim b.toList)).foundIn (clean text) =
      (Pattern.phrase b.toList).foundIn (clean text) := by
    rw [Bool.eq_iff_iff, Pattern.foundIn_phrase_iff, Pattern.foundIn_phrase_iff, words_trim]
  unfold namesBrand
  rw [htrim, hphrase, foundIn_clean_iff h]
  rfl

theorem knownBrands_clean (hknown : ∀ b ∈ known, ¬ Blank b.toList) (text : List Char) :
    knownBrands (clean text) known = matching (dotsApart text) known := by
  have hfirsts : knownBrands (clean text) known = firsts [] (known.filter (namesBrand (clean text))) := rfl
  rw [hfirsts, firsts_nil_eq]
  unfold matching
  rw [List.filter_congr fun b hb => namesBrand_clean (hknown b hb) text]

theorem brands_eq (text : List Char) (known : List String) :
    brands text known = if knownBrands text known = [] then (guessBrand text).toList else knownBrands text known := by
  unfold brands
  cases knownBrands text known with
  | nil => rfl
  | cons b rest => rw [if_neg (List.cons_ne_nil b rest)]

/-- No brand stands in the empty text. -/
theorem brands_nil (hknown : ∀ b ∈ known, ¬ Blank b.toList) : brands [] known = [] := by
  have hmatching : matching [] known = [] := by
    unfold matching
    rw [List.filter_eq_nil_iff.mpr, List.eraseDups_nil]
    intro b hb hfound
    exact not_spread_nil (solid_words (hknown b hb)) ((Pattern.foundIn_phrase_iff []).mp hfound)
  have hguess : guessBrand [] = none := by decide
  have hclean : knownBrands [] known = matching [] known := knownBrands_clean hknown []
  rw [brands_eq, hclean, hmatching, hguess]
  rfl

/-- Each brand comes once, and none is empty. -/
theorem tidied_brands (hknown : ∀ b ∈ known, ¬ Blank b.toList) (text : List Char) :
    tidied "brand" (brands text known) = brands text known := by
  have hrule : (brands text known).map (ruleOf "brand") = brands text known := List.map_id _
  have hnodup : (brands text known).Nodup := by
    have hknown : (knownBrands text known).Nodup := nodup_firsts List.nodup_nil
    rw [brands_eq]
    split
    · cases guessBrand text <;> simp
    · exact hknown
  have hnonempty : ∀ b ∈ brands text known, b.isEmpty = false := by
    intro b hb
    rw [← Bool.not_eq_true, String.isEmpty_iff]
    rintro rfl
    rcases isBrand_of_brands hb with hmem | ⟨hlength, -⟩
    · exact hknown "" hmem nofun
    · exact absurd hlength (by decide)
  unfold tidied broadened
  rw [if_neg (by decide), hrule, firsts_nil hnodup, List.filter_eq_self]
  intro b hb
  rw [hnonempty b hb]
  rfl

/-! ### brands of a message -/

/-- The brands of a message are those in its cleaned text. -/
theorem get?_brand {e : Extraction} (hknown : ∀ b ∈ known, ¬ Blank b.toList)
    (h : extractWith text (.ok known) = .ok e) :
    Fields.get? e.filters "brand" = listValue (brands (clean text) known) := by
  rcases cases_of_extractWith h with ⟨hempty, rfl⟩ | ⟨found, -, rfl⟩
  · rw [hempty, brands_nil hknown]
    rfl
  · have hraw : Fields.get? (rawFilters (clean text) found known) "brand" =
        some (.ofStrings (brands (clean text) known)) := rfl
    dsimp only [Extraction.ofCleaned]
    rw [get?_normalize_list (holds_rawFilters (clean text) found known).nodup (by decide) hraw,
      tidied_brands hknown]

/-- **A message has the known brands that match it**, with the dotted capital I taken apart: in their order, each
once and as they are known. A brand is guessed only if none of them matches. -/
theorem brand_of_extract {text : String} (hknown : ∀ b ∈ known, ¬ Blank b.toList) :
    (RunsWithin Numeral.maxDigits text.toList → ∃ e, extract text known = .ok e) ∧
    ∀ e, extract text known = .ok e →
      Fields.get? e.filters "brand" = listValue
        (if matching (dotsApart text.toList) known = [] then (guessBrand (clean text.toList)).toList
          else matching (dotsApart text.toList) known) ∧
      ('İ' ∉ text.toList → matching (dotsApart text.toList) known = matching text.toList known) := by
  refine ⟨fun hruns => exists_extraction_of_runs known hruns, fun e he => ⟨?_, fun hdotted => ?_⟩⟩
  · rw [get?_brand hknown he, brands_eq, knownBrands_clean hknown]
  · rw [dotsApart_of_not_mem hdotted]

/-- A brand that begins with the dotted capital I stands in a message as a whole word, and the message has no
brand. -/
theorem brand_of_extract_dotted : (Pattern.phrase "İpek".toList).foundIn "İpek dress".toList = true ∧
    ∃ e, extract "İpek dress" ["İpek"] = .ok e ∧ Fields.get? e.filters "brand" = none := by
  have hstands : (Pattern.phrase "İpek".toList).foundIn "İpek dress".toList = true := by decide +kernel
  have hapart : (Pattern.phrase "İpek".toList).foundIn (dotsApart "İpek dress".toList) = false := by
    decide +kernel
  have hguess : guessBrand (clean "İpek dress".toList) = none := by decide +kernel
  have hnone : matching (dotsApart "İpek dress".toList) ["İpek"] = [] := by
    unfold matching
    rw [List.filter_cons_of_neg (by rw [hapart]; exact Bool.false_ne_true)]
    rfl
  have hknown : ∀ b ∈ ["İpek"], ¬ Blank b.toList := by
    intro b hb hblank
    rw [List.mem_singleton.mp hb] at hblank
    exact absurd (hblank 'İ' (by decide)) (by decide)
  obtain ⟨hreturns, hbrand⟩ := @brand_of_extract ["İpek"] "İpek dress" hknown
  obtain ⟨e, he⟩ := hreturns (by decide)
  refine ⟨hstands, e, he, ?_⟩
  rw [(hbrand e he).1, if_pos hnone, hguess]
  rfl

end Outfitter.Message
