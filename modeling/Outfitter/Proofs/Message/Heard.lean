import Outfitter.Proofs.Filters.Holding
import Outfitter.Proofs.Message.Extraction
import Outfitter.Proofs.Text.Parts

/-!
What the filters of a message may hold.

Whatever the text, its filters hold tokens of the vocabulary, sizes and brands, whole price bounds and the
stock (`holds_extractWith`). The bounds are those of the budget (`price_extractWith`), and as large as they were
written.
-/

namespace Outfitter.Message

open Filters Taxonomy Text

/-! ### sizes -/

/-- A letter size, or one or two digits. -/
def IsSize (s : String) : Prop :=
  s ∈ ["XS", "S", "M", "L", "XL"] ∨
    (s.length = 1 ∨ s.length = 2) ∧ ∀ c ∈ s.toList, isDigit c = true

theorem foldl_look_found {rules : List SizeRule} {s : SizeScan} {size : String}
    (h : size ∈ (rules.foldl SizeScan.look s).found) : size ∈ s.found ∨ size ∈ rules.map SizeRule.size := by
  induction rules generalizing s with
  | nil => exact .inl h
  | cons rule rest ih =>
    rcases ih h with h | h
    · unfold SizeScan.look at h
      split at h
      · rcases List.mem_append.mp h with h | h
        · exact .inl h
        · exact .inr (List.mem_singleton.mp h ▸ List.mem_cons_self ..)
      · exact .inl h
    · exact .inr (List.mem_cons_of_mem _ h)

theorem isSize_of_letterSizes {text : List Char} {size : String} (h : size ∈ letterSizes text) :
    IsSize size := by
  have hletters : ∀ size ∈ sizeRules.map SizeRule.size, size ∈ ["XS", "S", "M", "L", "XL"] := by decide
  exact .inl (hletters size ((foldl_look_found h).resolve_left List.not_mem_nil))

theorem parts_numericSize : numericSize.parts = [Pattern.run isDigit 1 (some 2)] :=
  rfl

theorem isSize_of_numericSizes {text : List Char} {size : String} (h : size ∈ numericSizes text) :
    IsSize size := by
  obtain ⟨found, hfound, hsize⟩ := List.mem_filterMap.mp h
  obtain ⟨digits, hdigits, rfl⟩ := Option.map_eq_some_iff.mp hsize
  obtain ⟨-, q, hq, hreads⟩ := Pattern.parts_of_searchAll hfound digits (List.mem_of_head? hdigits)
  rw [parts_numericSize, List.mem_singleton] at hq
  subst hq
  obtain ⟨⟨hall, hleast, hmost⟩, -, -⟩ := Pattern.spelled_of_run hreads
  have hlong := hmost 2 rfl
  refine .inr ⟨?_, by simpa using hall⟩
  rw [String.length_ofList]
  omega

theorem isSize_of_sizes {text : List Char} {size : String} (h : size ∈ sizes text) : IsSize size := by
  have hfirsts : sizes text = firsts (letterSizes text) (numericSizes text) := rfl
  rw [hfirsts] at h
  exact (mem_firsts.mp h).elim isSize_of_letterSizes isSize_of_numericSizes

/-! ### brands -/

/-- A known brand, or a name of two to forty characters. -/
def IsBrand (known : List String) (b : String) : Prop :=
  b ∈ known ∨ 2 ≤ b.length ∧ b.length ≤ 40

theorem isBrand_of_brands {text : List Char} {known : List String} {b : String} (h : b ∈ brands text known) :
    IsBrand known b := by
  have hfirsts : knownBrands text known = firsts [] (known.filter (namesBrand text)) := rfl
  unfold brands at h
  split at h
  · obtain ⟨found, -, h⟩ := Option.bind_eq_some_iff.mp (Option.mem_toList.mp h)
    obtain ⟨name, -, h⟩ := Option.bind_eq_some_iff.mp h
    dsimp only at h
    split at h
    · rename_i hlen
      obtain rfl := Option.some.inj h
      rw [← String.length_ofList] at hlen
      exact .inr hlen
    · cases h
  · rw [hfirsts] at h
    exact .inl (List.mem_filter.mp ((mem_firsts.mp h).resolve_left List.not_mem_nil)).1

/-! ### fields -/

/-- The token may stand in the field of this name. -/
def Speakable (known : List String) (name c : String) : Prop :=
  match name with
  | "include_categories" => c ∈ Dimension.categories.tokens
  | "colors" => c ∈ Dimension.colors.tokens ∧ c ≠ "pastel"
  | "sizes" => IsSize c
  | "brand" => IsBrand known c
  | "occasion" => c ∈ Dimension.occasion.tokens
  | "season" => c ∈ Dimension.season.tokens
  | "fit" => c ∈ Dimension.fit.tokens
  | "silhouette" => c ∈ Dimension.silhouette.tokens
  | "pattern" => c ∈ Dimension.pattern.tokens
  | "material" => c ∈ Dimension.material.tokens
  | _ => False

/-- A whole number that is not negative. -/
def IsNatural (v : Value) : Prop :=
  ∃ n : Nat, v = .int n

/-- What a field may hold after something has been said. -/
def Spoken (known : List String) (name : String) (v : Value) : Prop :=
  if name = "price" then Prices IsNatural v
  else if name = "in_stock" then v = .bool true
  else Lists (Speakable known name) v

/-- The fields that messages fill. -/
def spokenFields : List String :=
  ["include_categories", "colors", "sizes", "price", "occasion", "season", "fit", "silhouette", "pattern",
    "material", "brand", "in_stock"]

theorem speakable_name {known : List String} {name c : String} (h : Speakable known name c) :
    name ∈ spokenFields := by
  unfold Speakable at h
  split at h
  all_goals first | decide | cases h

theorem Spoken.name {known : List String} {name : String} {v : Value} (h : Spoken known name v) :
    name ∈ spokenFields := by
  unfold Spoken at h
  split at h
  · subst_vars
    decide
  split at h
  · subst_vars
    decide
  · obtain ⟨xs, -, hxs⟩ := h
    obtain ⟨x, hx⟩ := List.exists_mem_of_ne_nil xs hxs.nonempty
    exact speakable_name (hxs.each x hx)

/-- The texts that a field of a message lists before normalization. -/
def RawText (known : List String) (name c : String) : Prop :=
  if name = "colors" then c ∈ Dimension.colors.tokens else Speakable known name c

/-- What a field of a message holds before normalization. -/
def Raw (known : List String) (budget : Option BudgetFound) (name : String) (v : Value) : Prop :=
  if name = "price" then v = .object (priceFields budget)
  else if name = "in_stock" then v = .bool true
  else name ∈ listFields ∧ ∃ xs, v = .ofStrings xs ∧ ∀ x ∈ xs, RawText known name x

theorem holds_rawFilters (text : List Char) (budget : Option BudgetFound) (known : List String) :
    Holds (Raw known budget) (rawFilters text budget known) := by
  refine ⟨?_, fun p hp => ?_⟩
  · have hkeys : Fields.keys (rawFilters text budget known) = rawKeys := rfl
    rw [hkeys]
    decide
  · obtain ⟨key, v⟩ := p
    have hfind : ∀ {d : Dimension} {text : List Char}, ∀ x ∈ d.find text, x ∈ d.tokens :=
      fun _ hx => Dimension.mem_tokens_of_find hx
    simp only [rawFilters, List.mem_cons, List.not_mem_nil, or_false, Prod.mk.injEq] at hp
    rcases hp with ⟨rfl, rfl⟩ | ⟨rfl, rfl⟩ | ⟨rfl, rfl⟩ | ⟨rfl, rfl⟩ | ⟨rfl, rfl⟩ | ⟨rfl, rfl⟩ | ⟨rfl, rfl⟩ |
      ⟨rfl, rfl⟩ | ⟨rfl, rfl⟩ | ⟨rfl, rfl⟩ | ⟨rfl, rfl⟩ | ⟨rfl, rfl⟩
    · exact ⟨_, rfl, by decide, _, rfl, hfind⟩
    · exact ⟨_, rfl, by decide, _, rfl, fun _ => isSize_of_sizes⟩
    · exact ⟨_, rfl, rfl⟩
    · exact ⟨_, rfl, by decide, _, rfl, fun _ => isBrand_of_brands⟩
    · exact ⟨_, rfl, rfl⟩
    all_goals exact ⟨_, rfl, by decide, _, rfl, hfind⟩

/-! ### normalization -/

/-- A text without a rule for its field, or of the vocabulary, is left as it is. -/
theorem ruleOf_rawText {known : List String} {name c : String} (h : RawText known name c) :
    ruleOf name c = c := by
  by_cases hrule : tokenRules.lookup name = none
  · unfold ruleOf
    rw [hrule]
    rfl
  · have hname := (Keyed.mem_keys_iff tokenRules name).mpr hrule
    simp only [tokenRules, List.map_cons, List.map_nil, List.mem_cons, List.not_mem_nil, or_false] at hname
    rcases hname with rfl | rfl | rfl | rfl | rfl
    · exact ruleOf_token (d := .colors) h
    · exact ruleOf_token (d := .occasion) h
    · exact ruleOf_token (d := .season) h
    · exact ruleOf_token (d := .silhouette) h
    · exact ruleOf_token (d := .pattern) h

/-- Colors of the vocabulary to which the pastel rule has been applied are of the vocabulary, and none is
plain pastel. -/
theorem speakable_of_pastelFallback {known : List String} {colors : List String}
    (hc : ∀ c ∈ colors, c ∈ Dimension.colors.tokens) {c : String} (h : c ∈ pastelFallback colors) :
    Speakable known "colors" c := by
  have hshade : ∀ c ∈ pastelPalette, c ≠ "pastel" := by decide
  have hplain : mentionsPastel "pastel" = true := by decide
  unfold pastelFallback at h
  split at h
  · have hmem := (mem_pastelTokens hc).mp h
    exact ⟨(pastelPalette_facts c hmem).2.1, hshade c hmem⟩
  · rename_i hnone
    refine ⟨hc c h, ?_⟩
    rintro rfl
    exact hnone (List.any_eq_true.mpr ⟨_, h, hplain⟩)

/-- What normalization leaves of a list in a message may be spoken. -/
theorem speakable_of_tidied {known : List String} {name : String} {xs : List String}
    (hxs : ∀ x ∈ xs, RawText known name x) {c : String} (h : c ∈ tidied name xs) :
    Speakable known name c := by
  have hmap : xs.map (ruleOf name) = xs :=
    (List.map_congr_left fun x hx => ruleOf_rawText (hxs x hx)).trans (List.map_id' xs)
  have hmem := mem_tidied h
  rw [hmap] at hmem
  unfold broadened at hmem
  split at hmem
  · rename_i hname
    subst hname
    exact speakable_of_pastelFallback hxs hmem
  · rename_i hname
    have := hxs c hmem
    unfold RawText at this
    rwa [if_neg hname] at this

theorem IsNatural.isNumber {v : Value} (h : IsNatural v) : IsNumber v := by
  obtain ⟨n, rfl⟩ := h
  exact .inl ⟨n, rfl⟩

/-- The least or greatest price that has been found, as a bound. -/
def boundIn (found : Option BudgetFound) (bound : Budget → Option Nat) : Option Value :=
  found.bind fun b => (bound b.budget).map fun n : Nat => .int n

theorem mem_boundIn {found : Option BudgetFound} {bound : Budget → Option Nat} {v : Value}
    (h : v ∈ boundIn found bound) : ∃ b ∈ found, ∃ n, bound b.budget = some n ∧ v = .int n := by
  obtain ⟨b, hb, hv⟩ := Option.bind_eq_some_iff.mp h
  obtain ⟨n, hn, rfl⟩ := Option.map_eq_some_iff.mp hv
  exact ⟨b, hb, n, hn, rfl⟩

theorem priceFields_eq (found : Option BudgetFound) :
    priceFields found = boundFields (boundIn found Budget.least) (boundIn found Budget.most) := by
  cases found with
  | none => rfl
  | some b => exact b.budget.toFields_eq

theorem isNatural_of_boundIn {found : Option BudgetFound} {bound : Budget → Option Nat} {v : Value}
    (h : v ∈ boundIn found bound) : IsNatural v := by
  obtain ⟨-, -, n, -, rfl⟩ := mem_boundIn h
  exact ⟨n, rfl⟩

theorem leaves_priceFields (found : Option BudgetFound) :
    Leaves (Prices IsNatural) (.object (priceFields found)) := by
  rw [priceFields_eq]
  exact leaves_boundFields (fun _ => isNatural_of_boundIn) (fun _ => isNatural_of_boundIn)
    fun _ => IsNatural.isNumber

theorem spoken_list {known : List String} {name : String} (h : name ∈ listFields) (v : Value) :
    Spoken known name v ↔ Lists (Speakable known name) v := by
  have hother : ∀ name ∈ listFields, name ≠ "price" ∧ name ≠ "in_stock" := by decide
  unfold Spoken
  rw [if_neg (hother name h).1, if_neg (hother name h).2]

theorem holds_ofCleaned (text : List Char) (budget : Option BudgetFound) (known : List String) :
    Holds (Spoken known) (Extraction.ofCleaned text budget known).filters := by
  dsimp only [Extraction.ofCleaned]
  refine (holds_rawFilters text budget known).normalize (P := Speakable known) ?_ ?_ ?_
  · intro name hname v hv
    have hother : ∀ name ∈ listFields, name ≠ "price" ∧ name ≠ "in_stock" := by decide
    unfold Raw at hv
    rw [if_neg (hother name hname).1, if_neg (hother name hname).2] at hv
    obtain ⟨-, xs, rfl, hxs⟩ := hv
    exact ⟨xs, rfl, fun x hx => speakable_of_tidied hxs hx⟩
  · exact fun name hname v hv => (spoken_list hname v).mpr hv
  · intro name hname v hv u hu
    unfold Raw at hv
    split at hv
    · rename_i hprice
      subst hprice hv
      exact leaves_priceFields budget u hu
    split at hv
    · rename_i hstock
      subst hstock hv
      exact (Option.some.inj hu).symm
    · -- every other field of a message holds a list
      exact absurd hv.1 hname

/-! ### messages -/

/-- Whatever is in stock, and nothing else. -/
theorem holds_empty (known : List String) : Holds (Spoken known) Extraction.empty.filters :=
  ⟨by decide, fun _ hp => List.mem_singleton.mp hp ▸ ⟨"in_stock", rfl, rfl⟩⟩

theorem extractWith_eq (text : List Char) (known : List String) : extractWith text (.ok known) =
    if (clean text).isEmpty then .ok Extraction.empty
    else (findBudget (clean text)).map fun budget => Extraction.ofCleaned (clean text) budget known := by
  unfold extractWith
  generalize clean text = cleaned
  split
  · rename_i h
    rw [if_pos h]
    rfl
  · rename_i h
    rw [if_neg h]
    cases findBudget cleaned <;> rfl

/-- A text whose runs of digits are not too long can be read. -/
theorem exists_extraction_of_runs {text : List Char} (known : List String)
    (h : RunsWithin Numeral.maxDigits text) : ∃ e, extractWith text (.ok known) = .ok e := by
  obtain ⟨found, hfound, -⟩ := exists_findBudget_of_runs (runsWithin_clean h) (Nat.le_refl _)
  rw [extractWith_eq, hfound]
  split <;> exact ⟨_, rfl⟩

/-- An empty name is found nowhere, so it may as well be left out. -/
theorem extractWith_named (text : List Char) (known : List String) :
    extractWith text (.ok (known.filter (!·.isEmpty))) = extractWith text (.ok known) := by
  have hnamed : ∀ text : List Char, (known.filter (!·.isEmpty)).filter (namesBrand text) =
      known.filter (namesBrand text) := by
    intro text
    rw [List.filter_filter]
    refine List.filter_congr fun b _ => ?_
    by_cases hb : b = ""
    · subst hb
      rfl
    · have : b.isEmpty = false := Bool.eq_false_iff.mpr fun h => hb (String.isEmpty_iff.mp h)
      rw [this, Bool.not_false, Bool.and_true]
  have hbrands : ∀ text, brands text (known.filter (!·.isEmpty)) = brands text known := by
    intro text
    unfold brands knownBrands
    rw [hnamed]
  rw [extractWith_eq, extractWith_eq]
  unfold Extraction.ofCleaned rawFilters
  rw [hbrands]

/-- What has been read: nothing, or a text with its budget. -/
theorem cases_of_extractWith {text : List Char} {known : List String} {e : Extraction}
    (h : extractWith text (.ok known) = .ok e) : clean text = [] ∧ e = Extraction.empty ∨
      ∃ found, findBudget (clean text) = .ok found ∧ e = Extraction.ofCleaned (clean text) found known := by
  rw [extractWith_eq] at h
  split at h
  · rename_i hempty
    exact .inl ⟨List.isEmpty_iff.mp hempty, (Except.ok.inj h).symm⟩
  · cases hb : findBudget (clean text) with
    | error f =>
      rw [hb] at h
      cases h
    | ok found =>
      rw [hb] at h
      exact .inr ⟨found, rfl, (Except.ok.inj h).symm⟩

/-- **The filters of a message hold what may be spoken**, and they ask for what is in stock. -/
theorem holds_extractWith {text : List Char} {known : List String} {e : Extraction}
    (h : extractWith text (.ok known) = .ok e) :
    Holds (Spoken known) e.filters ∧ Fields.get? e.filters "in_stock" = some (.bool true) := by
  rcases cases_of_extractWith h with ⟨-, rfl⟩ | ⟨found, -, rfl⟩
  · exact ⟨holds_empty known, rfl⟩
  · refine ⟨holds_ofCleaned (clean text) found known, ?_⟩
    dsimp only [Extraction.ofCleaned]
    rw [get?_normalize_other (holds_rawFilters (clean text) found known).nodup (by decide)]
    rfl

/-- **The price in the filters of a message is its budget.** -/
theorem price_extractWith {text : List Char} {known : List String} {e : Extraction}
    (h : extractWith text (.ok known) = .ok e) : ∃ found, findBudget (clean text) = .ok found ∧
      Fields.get? e.filters "price" =
        priceValue (boundIn found Budget.least) (boundIn found Budget.most) := by
  rcases cases_of_extractWith h with ⟨hempty, rfl⟩ | ⟨found, hfound, rfl⟩
  · refine ⟨none, ?_, rfl⟩
    rw [hempty]
    rfl
  · refine ⟨found, hfound, ?_⟩
    have hraw : Fields.get? (rawFilters (clean text) found known) "price" =
        some (.object (priceFields found)) := rfl
    dsimp only [Extraction.ofCleaned]
    rw [get?_normalize_other (holds_rawFilters (clean text) found known).nodup (by decide), hraw,
      priceFields_eq]
    exact pruned?_bounds (fun _ hv => (isNatural_of_boundIn hv).isNumber)
      fun _ hv => (isNatural_of_boundIn hv).isNumber

end Outfitter.Message
