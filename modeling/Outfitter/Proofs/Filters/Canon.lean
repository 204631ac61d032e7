import Outfitter.Proofs.Filters.Normal
import Outfitter.Proofs.Text.Rewrite

/-!
The rules for single tokens.

What a rule has made of a token stays as it is under the rule (`ruleOf_ruleOf`).
-/

namespace Outfitter.Filters

open Text

/-! ### two words in one -/

theorem blind_joinedWords (first second : String) : (joinedWords first second).Blind := by
  refine Pattern.blind_all fun p hp => ?_
  rcases List.mem_cons.mp hp with rfl | hp
  · exact Pattern.blind_letters _
  rcases List.mem_cons.mp hp with rfl | hp
  · exact ⟨trivial, fun _ _ => rfl⟩
  · obtain rfl := List.mem_singleton.mp hp
    exact Pattern.blind_letters _

/-- Nothing, a hyphen or a blank. -/
def Joins (between : List Char) : Prop :=
  between = [] ∨ ∃ c, (c = '-' ∨ isBlank c = true) ∧ between = [c]

theorem spells_joinedWords {first second : String} {word : List Char} :
    (joinedWords first second).Spells word ↔ ∃ u between v, u.map foldCase = first.toList.map foldCase ∧
      Joins between ∧ v.map foldCase = second.toList.map foldCase ∧ word = u ++ between ++ v := by
  have hbetween : ∀ between : List Char, (Pattern.optional (Pattern.one fun c => c == '-' || isBlank c)).Spells
      between ↔ Joins between := by
    intro between
    constructor
    · rintro (⟨c, hc, rfl⟩ | ⟨rfl, -⟩)
      · refine .inr ⟨c, ?_, rfl⟩
        simpa using hc
      · exact .inl rfl
    · rintro (rfl | ⟨c, hc, rfl⟩)
      · exact .inr ⟨rfl, fun _ => rfl⟩
      · exact .inl ⟨c, by simpa using hc, rfl⟩
  constructor
  · rintro ⟨u, w, hu, ⟨between, v, hb, hv, rfl⟩, rfl⟩
    exact ⟨u, between, v, (Pattern.spells_letters ..).mp hu, (hbetween between).mp hb,
      (Pattern.spells_letters ..).mp hv, (List.append_assoc ..).symm⟩
  · rintro ⟨u, between, v, hu, hb, hv, rfl⟩
    exact ⟨u, between ++ v, (Pattern.spells_letters ..).mpr hu, ⟨between, v, (hbetween between).mpr hb,
      (Pattern.spells_letters ..).mpr hv, rfl⟩, List.append_assoc ..⟩

/-- The characters of two words in one. -/
theorem exists_of_spells {first second : String} {a : Char} {as : List Char} (hfirst : first.toList = a :: as)
    {word : List Char} (h : (joinedWords first second).Spells word) :
    ∃ c rest, word = c :: rest ∧ foldCase c = foldCase a ∧
      ∀ d ∈ rest, foldCase d ∈ (as ++ second.toList).map foldCase ∨ d = '-' ∨ isBlank d = true := by
  obtain ⟨u, between, v, hu, hb, hv, rfl⟩ := spells_joinedWords.mp h
  rw [hfirst] at hu
  obtain ⟨c, u, rfl, hc, hu⟩ := List.map_eq_cons_iff.mp hu
  refine ⟨c, u ++ between ++ v, rfl, hc, fun d hd => ?_⟩
  rw [List.map_append, List.mem_append]
  rcases List.mem_append.mp hd with hd | hd
  · rcases List.mem_append.mp hd with hd | hd
    · exact .inl (.inl (hu ▸ List.mem_map_of_mem hd))
    · rcases hb with rfl | ⟨e, he, rfl⟩
      · exact absurd hd List.not_mem_nil
      · obtain rfl := List.mem_singleton.mp hd
        exact .inr he
  · exact .inl (.inr (hv ▸ List.mem_map_of_mem hd))

theorem ne_nil_of_spells {first second : String} (hfirst : first.toList ≠ []) {word : List Char}
    (h : (joinedWords first second).Spells word) : word ≠ [] := by
  obtain ⟨a, as, hfirst⟩ := List.exists_cons_of_ne_nil hfirst
  obtain ⟨c, rest, rfl, -⟩ := exists_of_spells hfirst h
  exact nofun

/-- A replacement that begins with a character that stands in neither word, but for the first place. -/
theorem apart_joinedWords {first second : String} {a : Char} {as : List Char} (hfirst : first.toList = a :: as)
    {c : Char} {rest : List Char} (hc : foldCase c ∉ (as ++ second.toList).map foldCase) (hhyphen : c ≠ '-')
    (hblank : isBlank c = false) : (joinedWords first second).Apart (c :: rest) := by
  refine ⟨c, rest, rfl, fun word hword => ?_⟩
  obtain ⟨d, tail, rfl, -, htail⟩ := exists_of_spells hfirst hword
  refine ⟨nofun, fun hmem => ?_⟩
  rcases htail c hmem with hletter | he | he
  · exact hc hletter
  · exact hhyphen he
  · rw [hblank] at he
    cases he

theorem head_joinedWords {first second : String} {a : Char} {as : List Char} (hfirst : first.toList = a :: as)
    {replacement : List Char} (h : foldCase a ∉ replacement.map foldCase) (word : List Char)
    (hword : (joinedWords first second).Spells word) : ∀ c ∈ word.head?, c ∉ replacement := by
  obtain ⟨d, tail, rfl, hd, -⟩ := exists_of_spells hfirst hword
  intro c hc hmem
  obtain rfl : d = c := Option.some.inj hc
  exact h (hd ▸ List.mem_map_of_mem hmem)

/-! ### occasions -/

theorem ne_nil_of_blackTie {word : List Char} (h : blackTie.Spells word) : word ≠ [] :=
  ne_nil_of_spells (by decide) h

theorem ne_nil_of_dateNight {word : List Char} (h : dateNight.Spells word) : word ≠ [] :=
  ne_nil_of_spells (by decide) h

/-- The text with every black tie replaced. -/
def formalOf (text : List Char) : List Char :=
  blackTie.replaceAll (fun _ => "formal".toList) text

/-- The text with every date night written in one way. -/
def nightOf (text : List Char) : List Char :=
  dateNight.replaceAll (fun _ => "date night".toList) text

theorem rewrites_formalOf (text : List Char) : blackTie.Rewrites "formal".toList text (formalOf text) :=
  Pattern.rewrites_replaceAll (blind_joinedWords ..) (fun _ => ne_nil_of_blackTie) text

theorem rewrites_nightOf (text : List Char) : dateNight.Rewrites "date night".toList text (nightOf text) :=
  Pattern.rewrites_replaceAll (blind_joinedWords ..) (fun _ => ne_nil_of_dateNight) text

/-- No black tie is left. -/
theorem free_formalOf (text : List Char) : blackTie.Free (formalOf text) := by
  refine Pattern.free_of_rewrites (rewrites_formalOf text) ?_ ?_ (.inl fun _ => id)
  · exact apart_joinedWords (a := 'b') rfl (by decide) (by decide) (by decide)
  · exact head_joinedWords (a := 'b') rfl (by decide)

/-- Date nights bring no black tie. -/
theorem free_nightOf {text : List Char} (h : blackTie.Free text) : blackTie.Free (nightOf text) := by
  refine Pattern.free_of_rewrites (rewrites_nightOf text) ?_ ?_ (.inr h)
  · exact apart_joinedWords (a := 'b') rfl (by decide) (by decide) (by decide)
  · exact head_joinedWords (a := 'b') rfl (by decide)

theorem spells_dateNight : dateNight.Spells "date night".toList :=
  spells_joinedWords.mpr ⟨"date".toList, [' '], "night".toList, rfl, .inr ⟨' ', .inr rfl, rfl⟩, rfl, rfl⟩

/-- Only one date night stands where it was put. -/
theorem eq_of_spells_dateNight {word rest : List Char} (h : dateNight.Spells word)
    (hbegins : word <+: "date night".toList ++ rest) : word = "date night".toList := by
  have hnight : (" nigh".toList).map foldCase ≠ "night".toList.map foldCase := by decide
  obtain ⟨u, between, v, hu, hb, hv, rfl⟩ := spells_joinedWords.mp h
  have hulength : u.length = 4 := by
    have := congrArg List.length hu
    rwa [List.length_map, List.length_map] at this
  have hvlength : v.length = 5 := by
    have := congrArg List.length hv
    rwa [List.length_map, List.length_map] at this
  have hlength : between.length ≤ 1 := by
    rcases hb with rfl | ⟨c, -, rfl⟩
    · exact Nat.zero_le 1
    · exact Nat.le_refl 1
  -- the word is not longer than what was put
  have hput : u ++ between ++ v <+: "date night".toList := by
    refine List.prefix_of_prefix_length_le hbegins (List.prefix_append ..) ?_
    rw [List.length_append, List.length_append, hulength, hvlength]
    show 4 + between.length + 5 ≤ 10
    omega
  rcases hb with rfl | ⟨c, -, rfl⟩
  · -- nine characters of it, of which the last five are no night
    exfalso
    rw [List.append_nil] at hput
    have htake := List.prefix_iff_eq_take.mp hput
    rw [List.length_append, hulength, hvlength] at htake
    have hsplit : u ++ v = "date".toList ++ " nigh".toList := htake
    have hv' := (List.append_inj hsplit hulength).2
    exact hnight (hv' ▸ hv)
  · refine hput.eq_of_length ?_
    rw [List.length_append, List.length_append, hulength, hvlength]
    rfl

/-- Date nights that are written in one way stay as they are. -/
theorem nightOf_nightOf (text : List Char) : nightOf (nightOf text) = nightOf text := by
  refine Pattern.replaceAll_of_rewrites (blind_joinedWords ..) (fun _ => ne_nil_of_dateNight) ?_ spells_dateNight
    (fun word rest hword hbegins => eq_of_spells_dateNight hword hbegins) (rewrites_nightOf text)
  exact apart_joinedWords (a := 'd') rfl (by decide) (by decide) (by decide)

theorem canonOccasion_eq (s : String) : canonOccasion s = String.ofList (nightOf (formalOf s.toList)) :=
  rfl

theorem canonOccasion_canonOccasion (s : String) : canonOccasion (canonOccasion s) = canonOccasion s := by
  have hfree : formalOf (nightOf (formalOf s.toList)) = nightOf (formalOf s.toList) :=
    Pattern.replaceAll_of_free (blind_joinedWords ..) (fun _ => ne_nil_of_blackTie)
      (free_nightOf (free_formalOf _))
  rw [canonOccasion_eq, canonOccasion_eq, String.toList_ofList, hfree, nightOf_nightOf]

/-! ### the other rules -/

theorem canonColor_cases (s : String) : canonColor s = "grey" ∨ canonColor s = "light-blue" ∨
    canonColor s = String.ofList (clean s.toList) := by
  unfold canonColor
  split
  · exact .inl rfl
  · exact .inr (.inl rfl)
  · exact .inr (.inr rfl)

theorem canonColor_canonColor (s : String) : canonColor (canonColor s) = canonColor s := by
  have haliases : canonColor "grey" = "grey" ∧ canonColor "light-blue" = "light-blue" := by decide
  rcases canonColor_cases s with he | he | he
  · rw [he]
    exact haliases.1
  · rw [he]
    exact haliases.2
  · have hagain : canonColor (String.ofList (clean s.toList)) = canonColor s := by
      unfold canonColor
      rw [String.toList_ofList, clean_clean]
    rw [he, hagain, he]

theorem canonSeason_cases (s : String) : canonSeason s ∈ ["fall"] ∨ canonSeason s = s := by
  unfold canonSeason
  split
  · exact .inl (List.mem_singleton.mpr rfl)
  · exact .inr rfl

theorem canonSilhouette_cases (s : String) : canonSilhouette s ∈ ["a-line"] ∨ canonSilhouette s = s := by
  unfold canonSilhouette
  split
  · exact .inl (List.mem_singleton.mpr rfl)
  · exact .inr rfl

theorem canonPattern_cases (s : String) : canonPattern s ∈ ["striped", "polka", "check"] ∨ canonPattern s = s := by
  unfold canonPattern
  split
  all_goals first | exact .inl (by decide) | exact .inr rfl

/-- A rule that leaves what it puts in the place of a token as it is leaves every token as it is that it has
rewritten. -/
theorem twice_of_cases {f : String → String} {aliases : List String} (h : ∀ s, f s ∈ aliases ∨ f s = s)
    (haliases : ∀ s ∈ aliases, f s = s) (s : String) : f (f s) = f s := by
  rcases h s with hs | hs
  · exact haliases _ hs
  · rw [hs, hs]

/-- What holds of every rule, and of none, holds of the rule of a field. -/
theorem ruleOf_induction {P : (String → String) → Prop} (hrules : ∀ r ∈ tokenRules, P r.2) (hid : P id)
    (name : String) : P (ruleOf name) := by
  unfold ruleOf
  cases h : tokenRules.lookup name with
  | none => exact hid
  | some rule =>
    obtain ⟨before, after, he, -⟩ := List.lookup_eq_some_iff.mp h
    exact hrules (name, rule) (he ▸ List.mem_append_right _ (List.mem_cons_self ..))

/-- **A rule rewrites no token twice.** -/
theorem ruleOf_ruleOf (name s : String) : ruleOf name (ruleOf name s) = ruleOf name s := by
  refine ruleOf_induction (P := fun f => f (f s) = f s) (fun r hr => ?_) rfl name
  simp only [tokenRules, List.mem_cons, List.not_mem_nil, or_false] at hr
  rcases hr with rfl | rfl | rfl | rfl | rfl <;> dsimp only
  · exact canonColor_canonColor s
  · exact canonOccasion_canonOccasion s
  · exact twice_of_cases canonSeason_cases (by decide) s
  · exact twice_of_cases canonSilhouette_cases (by decide) s
  · exact twice_of_cases canonPattern_cases (by decide) s

end Outfitter.Filters
