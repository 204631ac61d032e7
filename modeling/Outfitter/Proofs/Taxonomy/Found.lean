import Outfitter.Proofs.Taxonomy.Entries
import Outfitter.Proofs.Taxonomy.Mask

/-!
What a token is found by.

A scan looks for a phrase where all longer ones have been blanked out. So the words of the phrase stand in the
text, but another phrase may stand between them: "light pastel-pink blue" is pastel pink and light blue. In most
dimensions the token has some phrase in the text all the same (`foundIn_of_certain`); among the colors and the
occasions it need not have one (`foundIn_of_find_iff`).
-/

namespace Outfitter.Taxonomy

open Text

namespace Dimension

variable {d : Dimension} {e : Entry} {token : String} {text : List Char}

/-- All phrases begin and end with a letter. -/
theorem lettered_of_entries (h : e ∈ d.entries) : Lettered (words e.phrase.toList) := by
  have hphrases : (d.vocabulary.all fun p => p.2.all fun phrase => areLettered (words phrase.toList)) = true := by
    cases d <;> decide +kernel
  obtain ⟨p, hp, he⟩ := List.mem_flatMap.mp (Entry.mem_longestFirst h)
  obtain ⟨phrase, hphrase, rfl⟩ := List.mem_map.mp he
  exact lettered_of_areLettered (List.all_eq_true.mp (List.all_eq_true.mp hphrases p hp) phrase hphrase)

/-- The phrases of the dimension that are not shorter. -/
def Rivals (d : Dimension) (e : Entry) (phrase : List Char) : Prop :=
  ∃ f ∈ d.entries, f.NoLonger e ∧ f.phrase.toList = phrase

/-! ### scans -/

/-- The phrase is found in the text once some phrases have been blanked out that are not shorter. -/
def Shown (d : Dimension) (text : List Char) (e : Entry) : Prop :=
  ∃ m, Mask.text m = text ∧ Mask.Fits (d.Rivals e) m ∧ e.pattern.foundIn (Mask.shown m) = true

/-- What holds of a scan of the text when these phrases are still to be looked for. -/
structure Sound (d : Dimension) (text : List Char) (entries : List Entry) (s : Scan) : Prop where
  remaining : ∃ m, Mask.text m = text ∧ Mask.shown m = s.remaining ∧ ∀ e ∈ entries, Mask.Fits (d.Rivals e) m
  hits : ∀ token ∈ s.hits, ∃ e ∈ d.entries, e.token = token ∧ d.Shown text e

theorem sound_start (d : Dimension) (text : List Char) (entries : List Entry) : d.Sound text entries ⟨[], text⟩ where
  remaining := ⟨Mask.clear text, Mask.text_clear text, Mask.shown_clear text, fun _ _ => Mask.fits_clear _ text⟩
  hits _ h := absurd h List.not_mem_nil

/-- A phrase that is found is blanked out, and the scan remains sound. -/
theorem Sound.look {entries : List Entry} {s : Scan} (h : d.Sound text (e :: entries) s) (he : e ∈ d.entries)
    (hentries : ∀ f ∈ entries, e.NoLonger f) : d.Sound text entries (s.look e) := by
  obtain ⟨m, htext, hshown, hfits⟩ := h.remaining
  have hmono : ∀ f ∈ entries, ∀ phrase, d.Rivals e phrase → d.Rivals f phrase := by
    rintro f hf phrase ⟨g, hg, hlength, hphrase⟩
    exact ⟨g, hg, Nat.le_trans (hentries f hf) hlength, hphrase⟩
  have hfits := hfits e (List.mem_cons_self ..)
  by_cases hfound : e.pattern.foundIn s.remaining = true
  · obtain ⟨m', htext', hshown', hfits'⟩ := Mask.fits_replaceAll (lettered_of_entries he)
      (P := d.Rivals e) ⟨e, he, Nat.le_refl _, rfl⟩ hfits
    have hremaining : (s.look e).remaining = e.pattern.replaceAll Scan.spaces s.remaining := by
      unfold Scan.look
      rw [if_pos hfound]
    refine ⟨⟨m', htext'.trans htext, ?_, fun f hf => hfits'.mono (hmono f hf)⟩, fun token ht => ?_⟩
    · rw [hshown', hremaining, hshown]
      rfl
    · rcases Scan.look_hits ht with ht | rfl
      · exact h.hits token ht
      · exact ⟨e, he, rfl, m, htext, hfits, hshown ▸ hfound⟩
  · have hsame : s.look e = s := if_neg hfound
    rw [hsame]
    exact ⟨⟨m, htext, hshown, fun f hf => hfits.mono (hmono f hf)⟩, h.hits⟩

theorem Sound.foldl {entries : List Entry} {s : Scan} (h : d.Sound text entries s)
    (hentries : ∀ e ∈ entries, e ∈ d.entries) (hsorted : entries.Pairwise Entry.NoLonger) :
    d.Sound text [] (entries.foldl Scan.look s) := by
  induction entries generalizing s with
  | nil => exact h
  | cons e rest ih =>
    obtain ⟨he, hrest⟩ := List.pairwise_cons.mp hsorted
    obtain ⟨hmem, hmems⟩ := List.forall_mem_cons.mp hentries
    exact ih (h.look hmem he) hmems hrest

/-- **A token that is found is shown by one of its phrases.** -/
theorem shown_of_find (h : token ∈ d.find text) : ∃ e ∈ d.entries, e.token = token ∧ d.Shown text e :=
  ((d.sound_start text d.entries).foldl (fun _ he => he) (Entry.pairwise_longestFirst _)).hits token h

/-! ### phrases in the text -/

/-- One of the words of the phrase names the token by itself, or no other token has a phrase as long. -/
def Certain (d : Dimension) (e : Entry) : Prop :=
  (∃ w ∈ words e.phrase.toList, ⟨e.token, String.ofList w⟩ ∈ d.entries) ∨
    ∀ f ∈ d.entries, e.phrase.length ≤ f.phrase.length → f.token = e.token

instance (d : Dimension) (e : Entry) : Decidable (d.Certain e) :=
  inferInstanceAs (Decidable ((∃ w ∈ words e.phrase.toList, ⟨e.token, String.ofList w⟩ ∈ d.entries) ∨
    ∀ f ∈ d.entries, e.phrase.length ≤ f.phrase.length → f.token = e.token))

/-- The words of a phrase that is shown stand in the text, with blanks between them or other phrases. -/
theorem Shown.spread (h : d.Shown text e) (he : e ∈ d.entries) :
    Spread (Mask.Parted (d.Rivals e)) (words e.phrase.toList) text := by
  obtain ⟨m, rfl, hfits, hfound⟩ := h
  exact hfits.spread (lettered_of_entries he) ((Pattern.foundIn_phrase_iff _).mp hfound)

/-- A token that is certain has a phrase in the text. -/
theorem foundIn_of_certain (h : d.Shown text e) (hcertain : d.Certain e) (he : e ∈ d.entries) :
    ∃ f ∈ d.entries, f.token = e.token ∧ f.pattern.foundIn text = true := by
  obtain ⟨m, rfl, hfits, hfound⟩ := h
  rcases hcertain with ⟨w, hw, hentry⟩ | hlongest
  · refine ⟨_, hentry, rfl, (Pattern.foundIn_phrase_iff _).mpr ?_⟩
    have hwords : words w = [w] := words_of_word (mem_words hw).1 fun c hc => ((mem_words hw).2 c hc).1
    have hlettered := lettered_of_entries hentry
    rw [String.toList_ofList, hwords] at hlettered ⊢
    exact (hfits.spread hlettered (((Pattern.foundIn_phrase_iff _).mp hfound).word hw)).single
  · by_cases htaken : ∃ stretch, Segment.taken stretch ∈ m
    · obtain ⟨stretch, hs⟩ := htaken
      obtain ⟨phrase, ⟨f, hf, hlength, rfl⟩, hin⟩ := hfits.names_text hs
      exact ⟨f, hf, hlongest f hf hlength, hin⟩
    · rw [Mask.text_eq_shown fun stretch hs => htaken ⟨stretch, hs⟩]
      exact ⟨e, he, rfl, hfound⟩

theorem certain_of_entries (hcolors : d ≠ .colors) (hoccasion : d ≠ .occasion) : ∀ e ∈ d.entries, d.Certain e := by
  cases d
  case colors => exact absurd rfl hcolors
  case occasion => exact absurd rfl hoccasion
  all_goals decide +kernel

/-- A light blue with another color between its words. -/
theorem colors_apart : "light-blue" ∈ Dimension.colors.find "light pastel-pink blue".toList ∧
    ∀ e ∈ Dimension.colors.entries, e.token = "light-blue" →
      e.pattern.foundIn "light pastel-pink blue".toList = false := by
  decide +kernel

/-- A black tie with another occasion between its words. -/
theorem occasion_apart : "formal" ∈ Dimension.occasion.find "black graduation tie".toList ∧
    ∀ e ∈ Dimension.occasion.entries, e.token = "formal" →
      e.pattern.foundIn "black graduation tie".toList = false := by
  decide +kernel

/-- **A token that is found is named in the text**: the words of one of its phrases stand there in their order, no
word character touches them, and between two of them there are blanks, or something in which a phrase of the
dimension stands that is not shorter. A phrase of the token with nothing but blanks between its words is always
there in every dimension but the colors and the occasions. -/
theorem foundIn_of_find_iff (d : Dimension) :
    (∀ text, ∀ token ∈ d.find text, ∃ e ∈ d.entries, e.token = token ∧
      Spread (Mask.Parted (d.Rivals e)) (words e.phrase.toList) text) ∧
    ((∀ text, ∀ token ∈ d.find text, ∃ e ∈ d.entries, e.token = token ∧ e.pattern.foundIn text = true) ↔
      d ≠ .colors ∧ d ≠ .occasion) := by
  refine ⟨fun text token h => ?_, fun hall => ⟨?_, ?_⟩, fun ⟨hcolors, hoccasion⟩ text token h => ?_⟩
  · obtain ⟨e, he, rfl, hshown⟩ := shown_of_find h
    exact ⟨e, he, rfl, hshown.spread he⟩
  · rintro rfl
    obtain ⟨hfind, hnone⟩ := colors_apart
    obtain ⟨e, he, htoken, hfound⟩ := hall _ _ hfind
    cases hfound.symm.trans (hnone e he htoken)
  · rintro rfl
    obtain ⟨hfind, hnone⟩ := occasion_apart
    obtain ⟨e, he, htoken, hfound⟩ := hall _ _ hfind
    cases hfound.symm.trans (hnone e he htoken)
  · obtain ⟨e, he, rfl, hshown⟩ := shown_of_find h
    exact foundIn_of_certain hshown (certain_of_entries hcolors hoccasion e he) he

end Dimension

end Outfitter.Taxonomy
