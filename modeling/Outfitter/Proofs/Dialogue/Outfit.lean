import Outfitter.Proofs.Dialogue.Answered
import Outfitter.Proofs.Dialogue.Reply
import Outfitter.Proofs.Text.Cased
import Outfitter.Proofs.Text.Spelled

/-!
When a reply offers what goes with an outfit.

The words of an outfit are searched twice: the intent of a message is read in its cleaned form, in lower case and with
single spaces between words, and the complements of a reply in the message as it was written. The first finds the
phrases of an outfit with any blanks between their words, the second with single spaces only
(`foundIn_outfitWord_iff`). So the two agree exactly if both find a phrase or neither does
(`complements_of_replied`), and a message with other blanks in a phrase gets no accessories.
-/

namespace Outfitter

namespace Message

open Text Pattern

/-! ### words of outfits -/

/-- The phrases of an outfit, word by word. -/
def outfitPhrases : List (List (List Char)) :=
  [["outfit"], ["outfits"], ["complete", "the", "look"], ["match", "with"], ["pair", "with"]].map
    (·.map String.toList)

/-- A phrase of an outfit stands in the text, with gaps of this kind between its words. -/
def NamesOutfit (gap : List Char → Prop) (text : List Char) : Prop :=
  ∃ ws ∈ outfitPhrases, Spread gap ws text

theorem lettered_of_outfit {ws : List (List Char)} (h : ws ∈ outfitPhrases) : Lettered ws := by
  have hall : outfitPhrases.all areLettered = true := by decide
  exact lettered_of_areLettered (List.all_eq_true.mp hall ws h)

section

variable {gap : List Char → Prop} (text : List Char)

theorem namesOutfit_trim : NamesOutfit gap (trim text) ↔ NamesOutfit gap text :=
  exists_congr fun _ => and_congr_right fun h => spread_trim (lettered_of_outfit h).isSolid text

/-- **The cleaned text names an outfit** if it is named in lower case with any blanks between its words. -/
theorem namesOutfit_clean : NamesOutfit IsSpace (clean text) ↔ NamesOutfit IsGap (lower text) :=
  exists_congr fun _ => and_congr_right fun h => spread_collapse (lettered_of_outfit h).isSolid (lower text)

variable {text}

theorem NamesOutfit.isGap (h : NamesOutfit IsSpace text) : NamesOutfit IsGap text := by
  obtain ⟨ws, hws, hspread⟩ := h
  exact ⟨ws, hws, hspread.isGap⟩

theorem NamesOutfit.alike {other : List Char} (h : NamesOutfit IsGap text) (halike : List.Forall₂ Alike text other) :
    NamesOutfit IsGap other := by
  obtain ⟨ws, hws, hspread⟩ := h
  exact ⟨ws, hws, hspread.alike (lettered_of_outfit hws).solid halike⟩

end

/-- The lower case of a text without the dotted capital I names an outfit exactly if the text does. -/
theorem namesOutfit_lower {text : List Char} (h : 'İ' ∉ text) :
    NamesOutfit IsGap (lower text) ↔ NamesOutfit IsGap text := by
  have halike := alike_lower h
  have hback : List.Forall₂ Alike (lower text) text := halike.flip.imp fun _ _ => Alike.symm
  exact ⟨fun h => h.alike hback, fun h => h.alike halike⟩

/-! ### the pattern -/

theorem blind_singularOrPlural (w : String) : (singularOrPlural w).Blind :=
  ⟨blind_letters _, blind_optional (blind_letters _)⟩

theorem spells_singularOrPlural (w : String) (word : List Char) : (singularOrPlural w).Spells word ↔
    word.map foldCase = w.toList.map foldCase ∨ word.map foldCase = (w.toList ++ ['s']).map foldCase := by
  show (all [_, _]).Spells word ↔ _
  rw [spells_all_cons]
  constructor
  · rintro ⟨u, v, hu, hv, rfl⟩
    rw [List.map_append, (spells_letters ..).mp hu]
    rcases (spells_optional v).mp hv with hv | rfl
    · right
      rw [(spells_letters ..).mp hv, List.map_append]
    · exact .inl (List.append_nil _)
  · rintro (h | h)
    · exact ⟨word, [], (spells_letters ..).mpr h, (spells_optional []).mpr (.inr rfl), (List.append_nil _).symm⟩
    · rw [List.map_append] at h
      obtain ⟨u, v, rfl, hu, hv⟩ := List.map_eq_append_iff.mp h
      exact ⟨u, v, (spells_letters ..).mpr hu, (spells_optional v).mpr (.inl ((spells_letters ..).mpr hv)), rfl⟩

/-- What stands between the edges of words where an outfit is named. -/
def outfitNames : Pattern :=
  Pattern.any [singularOrPlural "outfit", Pattern.letters "complete the look".toList,
    Pattern.letters "match with".toList, Pattern.letters "pair with".toList]

theorem outfitWord_eq : outfitWord = whole outfitNames :=
  rfl

theorem blind_outfitNames : outfitNames.Blind :=
  ⟨blind_singularOrPlural _, blind_letters _, blind_letters _, blind_letters _⟩

/-- What it spells are the phrases of an outfit with single spaces. -/
theorem spells_outfitNames (word : List Char) :
    outfitNames.Spells word ↔ ∃ ws ∈ outfitPhrases, Laid IsSpace ws word := by
  have hphrases : outfitPhrases.map ([' '].intercalate ·) =
      ["outfit".toList, "outfit".toList ++ ['s'], "complete the look".toList, "match with".toList,
        "pair with".toList] := by
    decide
  have hlaid : (∃ ws ∈ outfitPhrases, Laid IsSpace ws word) ↔
      ∃ letters ∈ outfitPhrases.map ([' '].intercalate ·), word.map foldCase = letters.map foldCase := by
    simp [laid_isSpace_iff]
  rw [hlaid, hphrases]
  unfold outfitNames
  rw [spells_any]
  simp only [List.mem_cons, List.not_mem_nil, or_false, exists_eq_or_imp, exists_eq_left, spells_singularOrPlural,
    spells_letters, or_assoc]

/-- **Words of an outfit are found** where one of the phrases stands with single spaces. -/
theorem foundIn_outfitWord_iff (text : List Char) : outfitWord.foundIn text = true ↔ NamesOutfit IsSpace text := by
  have hworded : ∀ word, outfitNames.Spells word → Worded word := by
    intro word hword
    obtain ⟨ws, hws, hlaid⟩ := (spells_outfitNames word).mp hword
    obtain ⟨⟨c, rest, hfirst, hc⟩, front, d, hlast, hd⟩ := hlaid.ends (lettered_of_outfit hws)
    exact ⟨⟨c, by rw [hfirst]; rfl, hc⟩, d, by rw [hlast, List.getLast?_concat]; rfl, hd⟩
  rw [outfitWord_eq, foundIn_whole_iff_stands blind_outfitNames hworded]
  constructor
  · rintro ⟨word, hword, before, after, he, hbefore, hafter⟩
    obtain ⟨ws, hws, hlaid⟩ := (spells_outfitNames word).mp hword
    exact ⟨ws, hws, before, word, after, he, hlaid, hbefore, hafter⟩
  · rintro ⟨ws, hws, before, word, after, he, hlaid, hbefore, hafter⟩
    exact ⟨word, (spells_outfitNames word).mpr ⟨ws, hws, hlaid⟩, before, after, he, hbefore, hafter⟩

/-- **What a message is read as asking for**: an outfit, if one is named in lower case with any blanks. -/
theorem wantsOutfit_iff {text : List Char} {known : List String} {e : Extraction}
    (h : extractWith text (.ok known) = .ok e) :
    e.intent.wantsOutfit = true ↔ NamesOutfit IsGap (lower text) := by
  rw [← namesOutfit_clean, ← foundIn_outfitWord_iff]
  rcases cases_of_extractWith h with ⟨hempty, rfl⟩ | ⟨found, -, rfl⟩
  · rw [hempty]
    exact iff_of_false nofun (by decide)
  · rfl

end Message

namespace Dialogue

open Filters Message Schema Text

/-- The reply offers what goes with an outfit exactly if this is the intent. -/
def Reply.Suits (r : Reply) (intent : Intent) : Prop :=
  r.complements = if intent.wantsOutfit then ["accessories"] else []

variable {known : List Value} {names : List String} {text : String} {active : Value} {base : Fields}
  {e : Extraction}

/-- The complements of a reply, if no category is chosen: an outfit is found in the message, or none. -/
theorem complements_of_ofMerged {trimmed : List Char} {intent : Intent} {filters : Fields} {r : Reply}
    (hcategories : (Fields.value filters "include_categories").isGiven = false)
    (h : Reply.ofMerged trimmed intent filters = .ok r) :
    r.complements = if outfitWord.foundIn trimmed then ["accessories"] else [] := by
  have hcomplements := (parts_of_ofMerged h).1
  unfold Reply.complementsFor at hcomplements
  dsimp only at hcomplements
  rw [hcategories, if_neg Bool.false_ne_true] at hcomplements
  exact (Except.ok.inj hcomplements).symm

/-- The reply suits the intent exactly if an outfit is named alike for both. -/
theorem suits_iff {r : Reply} {intent : Intent} {planned read : Prop}
    (hr : planned ∧ r.complements = ["accessories"] ∨ ¬ planned ∧ r.complements = [])
    (hintent : intent.wantsOutfit = true ↔ read) : r.Suits intent ↔ (planned ↔ read) := by
  unfold Reply.Suits
  rcases hr with ⟨hp, hc⟩ | ⟨hp, hc⟩
  · rw [hc, iff_true_left hp, ← hintent]
    cases intent.wantsOutfit <;> simp
  · rw [hc, iff_false_left hp, ← hintent]
    cases intent.wantsOutfit <;> simp

/-- **When a reply offers accessories.** If no category is chosen, it does so where an outfit is named with single
spaces, but the intent is an outfit where one is named in lower case with any blanks. Both are the same unless an
outfit is named in one way only; and without a dotted capital I in the message, unless it is named only with other
blanks. -/
theorem complements_of_replied (hreset : isReset text.toList = false) (hknown : brandNames known = .ok names)
    (ha : active.orElse (.object []) = .object base) (he : extractWith text.toList (.ok names) = .ok e)
    (hcategories : (Fields.value (merge base e.filters) "include_categories").isGiven = false) (debugging : Bool) :
    (Holds Fitting base → 2 * text.toList.length + 2 ≤ Numeral.maxDigits →
      ∃ r, (replied (.str text) active (.list known)).outcomeWhen debugging = .ok r) ∧
    (e.intent.wantsOutfit = true ↔ NamesOutfit IsGap (lower text.toList)) ∧
    ∀ r, (replied (.str text) active (.list known)).outcomeWhen debugging = .ok r →
      (NamesOutfit IsSpace text.toList ∧ r.complements = ["accessories"] ∨
        ¬ NamesOutfit IsSpace text.toList ∧ r.complements = []) ∧
      (r.Suits e.intent ↔ (NamesOutfit IsSpace text.toList ↔ NamesOutfit IsGap (lower text.toList))) ∧
      ('İ' ∉ text.toList →
        (r.Suits e.intent ↔ (NamesOutfit IsGap text.toList → NamesOutfit IsSpace text.toList))) := by
  have hintent := wantsOutfit_iff he
  refine ⟨fun hbase hlen => exists_replied hknown hlen ha hbase debugging, hintent, fun r hr => ?_⟩
  have hmerged : Reply.ofMerged (trim text.toList) e.intent (merge base e.filters) = .ok r := by
    rcases cases_of_replied ha hr with ⟨hreset', -⟩ | ⟨-, e', he', hmerged⟩
    · cases hreset.symm.trans hreset'
    · rw [hknown, he] at he'
      obtain rfl := Except.ok.inj he'
      exact hmerged
  have hcomplements : NamesOutfit IsSpace text.toList ∧ r.complements = ["accessories"] ∨
      ¬ NamesOutfit IsSpace text.toList ∧ r.complements = [] := by
    rw [complements_of_ofMerged hcategories hmerged, ← namesOutfit_trim, ← foundIn_outfitWord_iff]
    cases outfitWord.foundIn (trim text.toList) <;> simp
  have hsuits := suits_iff hcomplements hintent
  refine ⟨hcomplements, hsuits, fun hdotted => ?_⟩
  rw [hsuits, namesOutfit_lower hdotted]
  exact ⟨Iff.mpr, fun h => ⟨NamesOutfit.isGap, h⟩⟩

/-- Two spaces in a phrase: an outfit is asked for, and nothing is offered for it. -/
theorem complements_of_replied_of_spaces : ∃ e r,
    extractWith "match  with".toList (.ok []) = .ok e ∧
    (replied (.str "match  with") (.object []) (.list [])).outcomeWhen false = .ok r ∧
    isReset "match  with".toList = false ∧
    (Fields.value (merge [] e.filters) "include_categories").isGiven = false ∧
    e.intent.wantsOutfit = true ∧ r.complements = [] ∧ ¬ r.Suits e.intent := by
  have hread : ((extractWith "match  with".toList (.ok [])).toOption.any fun e => e.intent.wantsOutfit &&
      !(Fields.value (merge [] e.filters) "include_categories").isGiven) = true := by
    decide +kernel
  cases he : extractWith "match  with".toList (.ok []) with
  | error f =>
    rw [he] at hread
    cases hread
  | ok e =>
    rw [he] at hread
    obtain ⟨hintent, hcategories⟩ := Bool.and_eq_true_iff.mp hread
    have hcategories := (Bool.not_eq_true' _).mp hcategories
    have hreset : isReset "match  with".toList = false := by decide
    have hknown : brandNames [] = .ok [] := rfl
    obtain ⟨hreturns, -, hreplied⟩ :=
      complements_of_replied hreset hknown (orElse_object []) he hcategories false
    obtain ⟨r, hr⟩ := hreturns holds_nil (by decide)
    obtain ⟨hcomplements, -⟩ := hreplied r hr
    have hunnamed : ¬ NamesOutfit IsSpace "match  with".toList := by
      rw [← foundIn_outfitWord_iff]
      decide
    have hnone : r.complements = [] := (hcomplements.resolve_left fun h => hunnamed h.1).2
    refine ⟨e, r, rfl, hr, hreset, hcategories, hintent, hnone, ?_⟩
    unfold Reply.Suits
    rw [hnone, hintent]
    exact nofun

end Dialogue

end Outfitter
