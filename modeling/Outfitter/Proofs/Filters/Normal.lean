import Outfitter.Proofs.Filters.Lists

/-!
What normalization makes of a payload, field by field.

A list of texts becomes the list that `tidied` tells; every other field is pruned only.
-/

namespace Outfitter

/-- A list of texts as the value of a field, which is left out if there is none. -/
def listValue (xs : List String) : Option Value :=
  if xs.isEmpty then none else some (.ofStrings xs)

theorem listValue_cases (xs : List String) :
    listValue xs = some (.ofStrings xs) ∨ listValue xs = none ∧ xs = [] := by
  cases xs with
  | nil => exact .inr ⟨rfl, rfl⟩
  | cons x xs => exact .inl rfl

namespace Filters

/-- The rule for the tokens of a field. -/
def ruleOf (name : String) : String → String :=
  (tokenRules.lookup name).getD id

/-- The colors with the pastel rule applied, and the tokens of any other field. -/
def broadened (name : String) (tokens : List String) : List String :=
  if name = "colors" then pastelFallback tokens else tokens

/-- What normalization makes of the tokens of a field. -/
def tidied (name : String) (tokens : List String) : List String :=
  (firsts [] (broadened name (tokens.map (ruleOf name)))).filter (!·.isEmpty)

/-! ### single updates -/

theorem updated_mapTexts (f : String → String) (xs : List String) :
    updated (mapTexts f) (.ofStrings xs) = .ofStrings (xs.map f) := by
  cases xs with
  | nil => rfl
  | cons x xs =>
    show Value.list (((x :: xs).map Value.str).map _) = Value.list (((x :: xs).map f).map Value.str)
    rw [List.map_map, List.map_map]
    rfl

theorem updated_mapTexts_id (v : Value) : updated (mapTexts id) v = v := by
  unfold updated
  split
  · cases v with
    | list items =>
      show Value.list (items.map _) = .list items
      congr 1
      refine (List.map_congr_left fun v _ => ?_).trans (List.map_id items)
      cases v <;> rfl
    | _ => rfl
  · rfl

theorem updated_broadenPastel (xs : List String) :
    updated broadenPastel (.ofStrings xs) = .ofStrings (pastelFallback xs) := by
  cases xs with
  | nil => rfl
  | cons x xs =>
    have htexts : ((x :: xs).map Value.str).filterMap Value.string? = x :: xs := by
      rw [List.filterMap_map]
      exact List.filterMap_some
    show Value.ofStrings (pastelFallback (((x :: xs).map Value.str).filterMap Value.string?)) = _
    rw [htexts]

theorem updated_distinctList (xs : List String) :
    updated distinctList (.ofStrings xs) = .ofStrings (firsts [] xs) := by
  cases xs with
  | nil => rfl
  | cons x xs =>
    show Value.list (distinct ((x :: xs).map Value.str)) = _
    rw [distinct_texts]
    rfl

theorem pruned?_list {items : List Value} {xs : List String} (h : Value.pruneItems items = xs.map Value.str) :
    Value.pruned? (.list items) = listValue xs := by
  have hprune : Value.prune (.list items) = .ofStrings xs := congrArg Value.list h
  unfold Value.pruned? listValue
  rw [hprune]
  cases xs <;> rfl

theorem pruned?_texts (xs : List String) :
    Value.pruned? (.ofStrings xs) = listValue (xs.filter (!·.isEmpty)) :=
  pruned?_list (Value.pruneItems_texts xs)

/-! ### updates of several fields -/

theorem get?_foldl_rules {rules : List (String × (String → String))} (hn : (rules.map (·.1)).Nodup)
    (filters : Fields) (name : String) :
    Fields.get? (rules.foldl (fun fs (key, rule) => updateGiven fs key (mapTexts rule)) filters) name =
      (Fields.get? filters name).map (updated (mapTexts ((rules.lookup name).getD id))) := by
  induction rules generalizing filters with
  | nil =>
    show Fields.get? filters name = (Fields.get? filters name).map (updated (mapTexts id))
    cases Fields.get? filters name with
    | none => rfl
    | some v => rw [Option.map_some, updated_mapTexts_id]
  | cons r rest ih =>
    obtain ⟨k, rule⟩ := r
    obtain ⟨hk, hrest⟩ := List.nodup_cons.mp hn
    rw [List.foldl_cons, ih hrest, get?_updateGiven, Keyed.lookup_cons]
    by_cases h : name = k
    · subst h
      have hnone : rest.lookup name = none :=
        Classical.byContradiction fun hne => hk ((Keyed.mem_keys_iff rest name).mpr hne)
      rw [if_pos rfl, if_pos rfl, hnone]
      cases Fields.get? filters name with
      | none => rfl
      | some v =>
        rw [Option.map_some, Option.map_some]
        exact congrArg some (updated_mapTexts_id _)
    · have hkey : Key.text name ≠ .text k := fun he => h (Key.text.inj he)
      rw [if_neg hkey, if_neg h]

theorem get?_foldl_distinct {names : List String} (hn : names.Nodup) (filters : Fields) (key : Key) :
    Fields.get? (names.foldl (fun fs key => updateGiven fs key distinctList) filters) key =
      if key ∈ names.map Key.text then (Fields.get? filters key).map (updated distinctList)
      else Fields.get? filters key := by
  induction names generalizing filters with
  | nil => rfl
  | cons k rest ih =>
    obtain ⟨hk, hrest⟩ := List.nodup_cons.mp hn
    rw [List.foldl_cons, ih hrest, get?_updateGiven]
    by_cases h : key = .text k
    · subst h
      have hnot : Key.text k ∉ rest.map Key.text := by
        rintro hmem
        obtain ⟨j, hj, he⟩ := List.mem_map.mp hmem
        exact hk (Key.text.inj he ▸ hj)
      rw [if_pos rfl, if_neg hnot, if_pos (List.mem_map_of_mem (List.mem_cons_self ..))]
    · have hmem : key ∈ (k :: rest).map Key.text ↔ key ∈ rest.map Key.text := by
        rw [List.map_cons, List.mem_cons, or_iff_right h]
      rw [if_neg h]
      simp only [hmem]

theorem keys_foldl_rules (rules : List (String × (String → String))) (filters : Fields) :
    Fields.keys (rules.foldl (fun fs (key, rule) => updateGiven fs key (mapTexts rule)) filters) =
      filters.keys := by
  induction rules generalizing filters with
  | nil => rfl
  | cons r rest ih => exact (ih _).trans (keys_updateGiven ..)

theorem keys_foldl_distinct (names : List String) (filters : Fields) :
    Fields.keys (names.foldl (fun fs key => updateGiven fs key distinctList) filters) = filters.keys := by
  induction names generalizing filters with
  | nil => rfl
  | cons r rest ih => exact (ih _).trans (keys_updateGiven ..)

theorem keys_canonical (filters : Fields) : Fields.keys (canonical filters) = filters.keys := by
  unfold canonical
  rw [keys_foldl_distinct, keys_updateGiven, keys_foldl_rules]

/-! ### normalization -/

variable {filters : Fields}

theorem nodup_normalize (hn : filters.keys.Nodup) : (Fields.keys (normalize filters)).Nodup :=
  Value.nodup_pruneFields (by rw [keys_canonical]; exact hn)

theorem mem_keys_normalize {key : Key} (h : key ∈ Fields.keys (normalize filters)) :
    key ∈ filters.keys := by
  have := Value.mem_keys_pruneFields h
  rw [keys_canonical] at this
  exact this

theorem get?_normalize (hn : filters.keys.Nodup) (key : Key) :
    Fields.get? (normalize filters) key = (Fields.get? (canonical filters) key).bind Value.pruned? :=
  Value.get?_pruneFields (by rw [keys_canonical]; exact hn) key

/-- What is made of the value of a list field before pruning. -/
def rewritten (name : String) (v : Value) : Value :=
  let ruled := updated (mapTexts (ruleOf name)) v
  updated distinctList (if name = "colors" then updated broadenPastel ruled else ruled)

/-- The value of a list field is rewritten and pruned. -/
theorem get?_normalize_field (hn : filters.keys.Nodup) {name : String} (h : name ∈ listFields) :
    Fields.get? (normalize filters) name =
      ((Fields.get? filters name).map (rewritten name)).bind Value.pruned? := by
  have hrules : (tokenRules.map (·.1)).Nodup := by decide
  have hlists : listFields.Nodup := by decide
  rw [get?_normalize hn]
  unfold canonical
  rw [get?_foldl_distinct hlists, if_pos (List.mem_map_of_mem h), get?_updateGiven,
    get?_foldl_rules hrules]
  congr 1
  unfold rewritten
  by_cases hc : name = "colors"
  · subst hc
    simp only [if_pos, Option.map_map]
    rfl
  · have hkey : Key.text name ≠ .text "colors" := fun he => hc (Key.text.inj he)
    simp only [if_neg hc, if_neg hkey, Option.map_map]
    rfl

theorem rewritten_ofStrings (name : String) (xs : List String) : rewritten name (.ofStrings xs) =
    .ofStrings (firsts [] (broadened name (xs.map (ruleOf name)))) := by
  unfold rewritten broadened
  rw [updated_mapTexts]
  dsimp only
  by_cases hc : name = "colors"
  · rw [if_pos hc, if_pos hc, updated_broadenPastel, updated_distinctList]
  · rw [if_neg hc, if_neg hc, updated_distinctList]

/-- A list of texts is tidied. -/
theorem get?_normalize_list (hn : filters.keys.Nodup) {name : String} (h : name ∈ listFields)
    {xs : List String} (hv : Fields.get? filters name = some (.ofStrings xs)) :
    Fields.get? (normalize filters) name = listValue (tidied name xs) := by
  rw [get?_normalize_field hn h, hv, Option.map_some, rewritten_ofStrings]
  exact pruned?_texts _

/-- Any other field is pruned only. -/
theorem get?_normalize_other (hn : filters.keys.Nodup) {name : String} (h : name ∉ listFields) :
    Fields.get? (normalize filters) name = (Fields.get? filters name).bind Value.pruned? := by
  have hrules : (tokenRules.map (·.1)).Nodup := by decide
  have hlists : listFields.Nodup := by decide
  have hnot : Key.text name ∉ listFields.map Key.text := by
    intro hmem
    obtain ⟨j, hj, he⟩ := List.mem_map.mp hmem
    exact h (Key.text.inj he ▸ hj)
  have hc : Key.text name ≠ .text "colors" := by
    intro he
    exact h (Key.text.inj he ▸ by decide)
  have hrule : tokenRules.lookup name = none := by
    have hsub : ∀ k ∈ tokenRules.map (·.1), k ∈ listFields := by decide
    exact Classical.byContradiction fun hne => h (hsub name ((Keyed.mem_keys_iff tokenRules name).mpr hne))
  rw [get?_normalize hn]
  unfold canonical
  rw [get?_foldl_distinct hlists, if_neg hnot, get?_updateGiven, if_neg hc, get?_foldl_rules hrules, hrule]
  cases Fields.get? filters name with
  | none => rfl
  | some v =>
    rw [Option.map_some]
    exact congrArg (fun v => (some v).bind Value.pruned?) (updated_mapTexts_id v)

theorem get?_normalize_none {key : Key} (h : Fields.get? filters key = none) :
    Fields.get? (normalize filters) key = none := by
  refine Classical.byContradiction fun hne => ?_
  have := mem_keys_normalize ((Fields.mem_keys_iff _ key).mpr hne)
  exact (Fields.mem_keys_iff filters key).mp this h

end Filters

end Outfitter
