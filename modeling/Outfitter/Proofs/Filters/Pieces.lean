import Outfitter.Filters.Params
import Outfitter.Proofs.Filters.Canon
import Outfitter.Proofs.Filters.Palette
import Outfitter.Proofs.Text.Split

/-!
Pieces of texts that are listed again.

What a value lists are pieces: texts without a comma, with no blank at their ends, and not empty. The rules
for tokens keep them (`plain_ruleOf`), and a list of pieces lists the pieces (`listed_ofStrings`).
-/

namespace Outfitter.Filters

open Text Taxonomy

/-- The text has no comma, and no blank at its ends. -/
structure Plain (s : String) : Prop where
  comma : ',' ∉ s.toList
  trimmed : Trimmed s.toList

/-- The text is one piece between commas. -/
structure Piece (s : String) : Prop extends Plain s where
  nonempty : s ≠ ""

variable {s : String}

/-! ### splitting -/

theorem piece_of_mem_splitList {text : String} (h : s ∈ splitList text) : Piece s := by
  unfold splitList at h
  obtain ⟨piece, hpiece, hs⟩ := List.mem_filterMap.mp h
  obtain ⟨part, hpart, rfl⟩ := List.mem_map.mp hpiece
  split at hs
  · cases hs
  · rename_i hne
    obtain rfl := Option.some.inj hs
    refine ⟨⟨?_, ?_⟩, ?_⟩
    · rw [String.toList_ofList]
      exact fun hmem => mem_splitAt hpart (mem_trimBy hmem)
    · rw [String.toList_ofList]
      exact trimmed_trim part
    · intro hempty
      apply hne
      simpa using congrArg String.toList hempty

mutual

/-- A value lists pieces. -/
theorem piece_of_mem_listed : ∀ (v : Value) (s : String), s ∈ listed v → Piece s
  | .list items => by
    intro s h
    unfold listed at h
    exact piece_of_mem_listedItems items s h
  | .null => by
    intro s h
    unfold listed at h
    cases h
  | .bool _ | .int _ | .float _ | .str _ | .object _ => by
    intro s h
    unfold listed at h
    exact piece_of_mem_splitList h

theorem piece_of_mem_listedItems : ∀ (items : List Value) (s : String), s ∈ listedItems items → Piece s
  | [] => by
    intro s h
    unfold listedItems at h
    cases h
  | v :: vs => by
    intro s h
    unfold listedItems at h
    rcases List.mem_append.mp h with h | h
    · exact piece_of_mem_listed v s h
    · exact piece_of_mem_listedItems vs s h

end

theorem splitList_of_piece (h : Piece s) : splitList s = [s] := by
  have hne : s.toList.isEmpty = false := by
    simpa using h.nonempty
  unfold splitList
  rw [splitAt_of_not_mem h.comma, List.map_singleton, trim_of_trimmed h.trimmed,
    List.filterMap_cons_some (b := s)]
  · rfl
  · rw [hne, if_neg Bool.false_ne_true, String.ofList_toList]

/-- The pieces of some texts are the texts exactly if each of them is one piece. -/
theorem flatMap_splitList_eq_iff {xs : List String} : xs.flatMap splitList = xs ↔ ∀ x ∈ xs, Piece x := by
  constructor
  · intro h x hx
    rw [← h] at hx
    obtain ⟨y, -, hx⟩ := List.mem_flatMap.mp hx
    exact piece_of_mem_splitList hx
  · intro h
    induction xs with
    | nil => rfl
    | cons x xs ih =>
      obtain ⟨hx, hxs⟩ := List.forall_mem_cons.mp h
      rw [List.flatMap_cons, splitList_of_piece hx, ih hxs]
      rfl

theorem listed_texts (xs : List String) : listed (.ofStrings xs) = xs.flatMap splitList := by
  show listedItems (xs.map .str) = _
  induction xs with
  | nil => rfl
  | cons x xs ih =>
    show splitList x ++ listedItems (xs.map .str) = _
    rw [ih]
    rfl

/-- **Pieces are listed as they are.** -/
theorem listed_ofStrings {xs : List String} (h : ∀ s ∈ xs, Piece s) : listed (.ofStrings xs) = xs :=
  (listed_texts xs).trans (flatMap_splitList_eq_iff.mpr h)

/-- Texts that are joined by commas have the pieces of every one of them. -/
theorem splitList_intercalate {xs : List String} (h : xs ≠ []) :
    splitList (",".intercalate xs) = xs.flatMap splitList := by
  have hsplit : splitAt ',' (",".intercalate xs).toList = xs.flatMap fun s => splitAt ',' s.toList := by
    have htexts : (",".intercalate xs).toList = [','].intercalate (xs.map String.toList) :=
      String.toList_intercalate
    rw [htexts, splitAt_intercalate (fun he => h (List.map_eq_nil_iff.mp he)), List.flatMap_map]
  unfold splitList
  rw [hsplit, List.map_flatMap, List.filterMap_flatMap]

/-! ### rules for tokens -/

theorem plain_of_trim (hcomma : ',' ∉ s.toList) (htrim : trim s.toList = s.toList) : Plain s :=
  ⟨hcomma, htrim ▸ trimmed_trim _⟩

/-- The texts that rules put in the place of others. -/
def aliases : List String :=
  ["grey", "light-blue", "fall", "a-line", "striped", "polka", "check"]

theorem plain_aliases : ∀ s ∈ aliases ++ pastelPalette, Plain s := by
  have hplain : ∀ s ∈ aliases ++ pastelPalette, ',' ∉ s.toList ∧ trim s.toList = s.toList := by decide
  intro s hs
  exact plain_of_trim (hplain s hs).1 (hplain s hs).2

theorem plain_canonColor (h : Plain s) : Plain (canonColor s) := by
  rcases canonColor_cases s with he | he | he <;> rw [he]
  · exact plain_aliases _ (by decide)
  · exact plain_aliases _ (by decide)
  · constructor <;> rw [String.toList_ofList]
    · exact fun hmem => h.comma (comma_of_clean hmem)
    · exact trimmed_clean _

/-- Replacing words by a plain text keeps a text plain. -/
theorem plain_of_rewrites {p : Pattern} {replacement : String} {text out : List Char}
    (h : p.Rewrites replacement.toList text out) (hne : replacement.toList ≠ []) (hr : Plain replacement)
    (hcomma : ',' ∉ text) (htrimmed : Trimmed text) : ',' ∉ out ∧ Trimmed out := by
  refine ⟨fun hmem => ?_, h.trimmed hne hr.trimmed htrimmed⟩
  rcases h.mem hmem with hmem | hmem
  · exact hcomma hmem
  · exact hr.comma hmem

theorem plain_canonOccasion (h : Plain s) : Plain (canonOccasion s) := by
  have hformal : Plain "formal" := plain_of_trim (by decide) (by decide)
  have hnight : Plain "date night" := plain_of_trim (by decide) (by decide)
  obtain ⟨hcomma, htrimmed⟩ :=
    plain_of_rewrites (rewrites_formalOf s.toList) (by decide) hformal h.comma h.trimmed
  obtain ⟨hcomma, htrimmed⟩ := plain_of_rewrites (rewrites_nightOf _) (by decide) hnight hcomma htrimmed
  rw [canonOccasion_eq]
  exact ⟨by rwa [String.toList_ofList], by rwa [String.toList_ofList]⟩

/-- A rule that puts plain texts in the place of some, and leaves the others, keeps a text plain. -/
theorem plain_of_cases {f : String → String} {texts : List String} (h : ∀ s, f s ∈ texts ∨ f s = s)
    (htexts : ∀ s ∈ texts, s ∈ aliases) (hs : Plain s) : Plain (f s) := by
  rcases h s with hf | hf
  · exact plain_aliases _ (List.mem_append_left _ (htexts _ hf))
  · rwa [hf]

theorem plain_ruleOf (name : String) (h : Plain s) : Plain (ruleOf name s) := by
  apply ruleOf_induction (P := fun f => Plain (f s)) _ h name
  intro r hr
  simp only [tokenRules, List.mem_cons, List.not_mem_nil, or_false] at hr
  rcases hr with rfl | rfl | rfl | rfl | rfl <;> dsimp only
  · exact plain_canonColor h
  · exact plain_canonOccasion h
  · exact plain_of_cases canonSeason_cases (by decide) h
  · exact plain_of_cases canonSilhouette_cases (by decide) h
  · exact plain_of_cases canonPattern_cases (by decide) h

/-! ### tidied tokens -/

theorem plain_pastelFallback {colors : List String} (h : ∀ s ∈ colors, Plain s) :
    ∀ s ∈ pastelFallback colors, Plain s := by
  intro s hs
  unfold pastelFallback at hs
  split at hs
  · rw [pastelTokens_eq, mem_firsts, List.mem_append, List.mem_filter] at hs
    rcases hs with hs | ⟨hs, -⟩ | hs
    · cases hs
    · exact h s hs
    · exact plain_aliases s (List.mem_append_right _ hs)
  · exact h s hs

/-- Pieces are tidied to pieces. -/
theorem piece_of_mem_tidied {name : String} {tokens : List String} (h : ∀ s ∈ tokens, Plain s) :
    ∀ s ∈ tidied name tokens, Piece s := by
  intro s hs
  have hruled : ∀ s ∈ tokens.map (ruleOf name), Plain s := by
    intro s hs
    obtain ⟨t, ht, rfl⟩ := List.mem_map.mp hs
    exact plain_ruleOf name (h t ht)
  have hne := nonempty_tidied hs
  refine ⟨?_, fun hempty => ?_⟩
  · have hmem := mem_tidied hs
    unfold broadened at hmem
    split at hmem
    · exact plain_pastelFallback hruled s hmem
    · exact hruled s hmem
  · rw [hempty] at hne
    cases hne

/-! ### identifiers -/

theorem lt_of_isHexDigit {c : Char} (h : isHexDigit c = true) : c.toNat < 128 := by
  unfold isHexDigit Char.isDigit at h
  simp only [Bool.or_eq_true, Bool.and_eq_true, decide_eq_true_iff, Char.le_def, UInt32.le_iff_toNat_le] at h
  change c.val.toNat < 128
  rcases h with (⟨-, h⟩ | ⟨-, h⟩) | ⟨-, h⟩
  · exact Nat.lt_of_le_of_lt h (by decide)
  · exact Nat.lt_of_le_of_lt h (by decide)
  · exact Nat.lt_of_le_of_lt h (by decide)

/-- Twenty-four hexadecimal digits with small letters. -/
structure IsIdentifier (s : String) : Prop where
  length : s.toList.length = 24
  digits : ∀ c ∈ s.toList, isHexDigit c = true ∧ c.toLower = c

theorem isIdentifier_of_objectId {v : Value} (h : objectId? v = some s) : IsIdentifier s := by
  have hlower : ∀ n < 128, isHexDigit (Char.ofNat n) = true → isHexDigit (Char.ofNat n).toLower = true ∧
      (Char.ofNat n).toLower.toLower = (Char.ofNat n).toLower := by decide
  unfold objectId? at h
  dsimp only at h
  split at h
  · rename_i hid
    obtain ⟨hlength, hall⟩ := Bool.and_eq_true_iff.mp hid
    obtain rfl := Option.some.inj h
    constructor <;> rw [String.toList_ofList]
    · rw [List.length_map]
      exact of_decide_eq_true hlength
    · intro c hc
      obtain ⟨d, hd, rfl⟩ := List.mem_map.mp hc
      have hdigit := List.all_eq_true.mp hall d hd
      have hchar := hlower d.toNat (lt_of_isHexDigit hdigit)
      rw [Char.ofNat_toNat] at hchar
      exact hchar hdigit
  · cases h

/-- An identifier is one piece. -/
theorem IsIdentifier.piece (h : IsIdentifier s) : Piece s := by
  have hhex : ∀ n < 128, isHexDigit (Char.ofNat n) = true →
      Char.ofNat n ≠ ',' ∧ isBlank (Char.ofNat n) = false := by decide
  have hchars : ∀ c ∈ s.toList, c ≠ ',' ∧ isBlank c = false := by
    intro c hc
    have hdigit := (h.digits c hc).1
    have hchar := hhex c.toNat (lt_of_isHexDigit hdigit)
    rw [Char.ofNat_toNat] at hchar
    exact hchar hdigit
  refine ⟨⟨fun hmem => (hchars _ hmem).1 rfl, ⟨?_, ?_⟩⟩, ?_⟩
  · exact fun c hc => (hchars c (List.mem_of_head? hc)).2
  · exact fun c hc => (hchars c (List.mem_of_getLast? hc)).2
  · rintro rfl
    exact absurd h.length (by decide)

/-- An identifier is read as it is. -/
theorem IsIdentifier.objectId? (h : IsIdentifier s) : Filters.objectId? (.str s) = some s := by
  have hlower : s.toList.map Char.toLower = s.toList :=
    (List.map_congr_left fun c hc => (h.digits c hc).2).trans (List.map_id _)
  have htrim : trim (Value.str s).text.toList = s.toList := trim_of_trimmed h.piece.trimmed
  have hid : (s.toList.length = 24 && s.toList.all isHexDigit) = true :=
    Bool.and_eq_true_iff.mpr ⟨decide_eq_true h.length, List.all_eq_true.mpr fun c hc => (h.digits c hc).1⟩
  unfold Filters.objectId?
  rw [htrim]
  dsimp only
  rw [if_pos hid, hlower, String.ofList_toList]

theorem isIdentifier_of_mem_objectIds {v : Value} (h : s ∈ objectIds v) : IsIdentifier s := by
  rcases mem_firsts.mp h with h | h
  · cases h
  · obtain ⟨t, -, ht⟩ := List.mem_filterMap.mp h
    exact isIdentifier_of_objectId ht

theorem isIdentifier_of_mem_categoryIds {params : Fields} (h : s ∈ categoryIds params) : IsIdentifier s := by
  unfold categoryIds at h
  split at h
  · exact isIdentifier_of_objectId (Option.mem_toList.mp h)
  · exact isIdentifier_of_mem_objectIds h

end Outfitter.Filters
