import Outfitter.Filters.Untyped
import Outfitter.Proofs.Filters.Canon
import Outfitter.Proofs.Filters.Palette
import Outfitter.Proofs.Value.Solid

/-!
Normal filters stay as they are.

`IsNormal` tells of the value of a list field that there is nothing to rewrite in it. Filters in which every
list field is normal are canonical already (`canonical_of_isNormal`), and normalization makes every list of
scalars normal (`isNormal_of_normalize`). So nothing is normalized twice (`normalize_idempotent`).
-/

namespace Outfitter

namespace Filters

variable {filters : Fields} {name : String} {v : Value}

/-! ### normal values -/

/-- The rule of the field, the pastel rule and the search for duplicates leave the value as it is. -/
structure IsNormal (name : String) (v : Value) : Prop where
  ruled : updated (mapTexts (ruleOf name)) v = v
  broadened : name = "colors" → updated broadenPastel v = v
  distinct : updated distinctList v = v

theorem IsNormal.rewritten (h : IsNormal name v) : rewritten name v = v := by
  unfold Filters.rewritten
  rw [h.ruled]
  dsimp only
  split
  · rename_i hcolors
    rw [h.broadened hcolors, h.distinct]
  · exact h.distinct

/-- Only lists are rewritten. -/
theorem isNormal_of_not_list (h : ∀ items, v ≠ .list items) : IsNormal name v := by
  have hself : ∀ f : Value → Value, f v = v → updated f v = v := by
    intro f hf
    unfold updated
    rw [hf, ite_self]
  cases v with
  | list items => exact absurd rfl (h items)
  | _ => exact ⟨hself _ rfl, fun _ => hself _ rfl, hself _ rfl⟩

theorem foldl_eq_self {α β : Type} {step : β → α → β} {b : β} {xs : List α} (h : ∀ x ∈ xs, step b x = b) :
    xs.foldl step b = b := by
  induction xs with
  | nil => rfl
  | cons x xs ih =>
    obtain ⟨hx, hxs⟩ := List.forall_mem_cons.mp h
    rw [List.foldl_cons, hx, ih hxs]

/-- The rules for tokens leave what is normal as it is. -/
theorem ruled_of_isNormal
    (h : ∀ name ∈ listFields, ∀ v, Fields.get? filters name = some v → IsNormal name v) :
    tokenRules.foldl (fun fs (key, rule) => updateGiven fs key (mapTexts rule)) filters = filters := by
  have hrules : ∀ r ∈ tokenRules, r.1 ∈ listFields ∧ ruleOf r.1 = r.2 := by
    intro r hr
    simp only [tokenRules, List.mem_cons, List.not_mem_nil, or_false] at hr
    rcases hr with rfl | rfl | rfl | rfl | rfl <;> exact ⟨by decide, rfl⟩
  refine foldl_eq_self fun r hr => updateGiven_eq_self fun v hv => ?_
  obtain ⟨hlist, hrule⟩ := hrules r hr
  rw [← hrule]
  exact (h r.1 hlist v hv).ruled

/-- **Filters in which every list field is normal** are canonical. -/
theorem canonical_of_isNormal
    (h : ∀ name ∈ listFields, ∀ v, Fields.get? filters name = some v → IsNormal name v) :
    canonical filters = filters := by
  have hbroadened : updateGiven filters "colors" broadenPastel = filters :=
    updateGiven_eq_self fun v hv => (h "colors" (by decide) v hv).broadened rfl
  unfold canonical
  rw [ruled_of_isNormal h]
  dsimp only
  rw [hbroadened]
  exact foldl_eq_self fun key hkey => updateGiven_eq_self fun v hv => (h key hkey v hv).distinct

/-! ### lists of scalars -/

/-- A text, a truth value, null or a finite number. -/
def IsScalar : Value → Prop
  | .list _ | .object _ => False
  | .float x => ∃ y, x = .finite y
  | _ => True

theorem prune_of_isScalar (h : IsScalar v) : v.prune = v := by
  cases v with
  | list | object => cases h
  | _ => rfl

theorem pruneItems_of_isScalar {items : List Value} (h : ∀ v ∈ items, IsScalar v) :
    Value.pruneItems items = items.filter (!·.isVacuous) := by
  induction items with
  | nil => rfl
  | cons v vs ih =>
    obtain ⟨hv, hvs⟩ := List.forall_mem_cons.mp h
    rw [Value.pruneItems, prune_of_isScalar hv, ih hvs]
    cases hvacuous : v.isVacuous <;> simp [hvacuous]

theorem mem_distinctFrom {seen items : List Value} (h : v ∈ distinctFrom seen items) : v ∈ items := by
  induction items generalizing seen with
  | nil => exact h
  | cons w vs ih =>
    rw [distinctFrom] at h
    split at h
    · exact List.mem_cons_of_mem _ (ih h)
    · rcases List.mem_cons.mp h with rfl | h
      · exact List.mem_cons_self ..
      · exact List.mem_cons_of_mem _ (ih h)

/-- The second value is compared by another key than the first. -/
def Differs (v w : Value) : Prop :=
  (distinctKey w).same (distinctKey v) = false

theorem pairwise_distinctFrom (seen items : List Value) : (distinctFrom seen items).Pairwise Differs ∧
    ∀ v ∈ distinctFrom seen items, (distinctKey v).isIn seen = false := by
  induction items generalizing seen with
  | nil => exact ⟨List.Pairwise.nil, nofun⟩
  | cons w vs ih =>
    rw [distinctFrom]
    split
    · exact ih seen
    · rename_i hnew
      obtain ⟨hpairs, hseen⟩ := ih (distinctKey w :: seen)
      have hboth : ∀ v ∈ distinctFrom (distinctKey w :: seen) vs,
          (distinctKey v).same (distinctKey w) = false ∧ (distinctKey v).isIn seen = false := by
        intro v hv
        exact Bool.or_eq_false_iff.mp (hseen v hv)
      refine ⟨List.pairwise_cons.mpr ⟨fun v hv => (hboth v hv).1, hpairs⟩, ?_⟩
      exact List.forall_mem_cons.mpr ⟨eq_false_of_ne_true hnew, fun v hv => (hboth v hv).2⟩

/-- Values that differ are all kept. -/
theorem distinctFrom_of_pairwise {seen items : List Value} (h : items.Pairwise Differs)
    (hseen : ∀ v ∈ items, (distinctKey v).isIn seen = false) : distinctFrom seen items = items := by
  induction items generalizing seen with
  | nil => rfl
  | cons w vs ih =>
    obtain ⟨hw, hvs⟩ := List.pairwise_cons.mp h
    obtain ⟨hnew, hrest⟩ := List.forall_mem_cons.mp hseen
    rw [distinctFrom, hnew, if_neg Bool.false_ne_true]
    exact congrArg (w :: ·) (ih hvs fun v hv => Bool.or_eq_false_iff.mpr ⟨hw v hv, hrest v hv⟩)

/-- An item of a list with its texts rewritten. -/
def mapText (f : String → String) : Value → Value
  | .str s => .str (f s)
  | v => v

theorem updated_mapTexts_list (f : String → String) (items : List Value) :
    updated (mapTexts f) (.list items) = .list (items.map (mapText f)) := by
  cases items with
  | nil => rfl
  | cons v vs =>
    show Value.list ((v :: vs).map _) = .list ((v :: vs).map _)
    refine congrArg Value.list (List.map_congr_left fun w _ => ?_)
    cases w <;> rfl

theorem updated_broadenPastel_list (items : List Value) :
    updated broadenPastel (.list items) = .ofStrings (pastelFallback (items.filterMap Value.string?)) := by
  cases items <;> rfl

theorem filterMap_mapText (f : String → String) (items : List Value) :
    (items.map (mapText f)).filterMap Value.string? = (items.filterMap Value.string?).map f := by
  rw [List.filterMap_map, List.map_filterMap]
  congr 1
  funext v
  cases v <;> rfl

theorem updated_distinctList_list (items : List Value) :
    updated distinctList (.list items) = .list (distinct items) := by
  cases items <;> rfl

theorem isScalar_mapText (f : String → String) (h : IsScalar v) : IsScalar (mapText f v) := by
  cases v with
  | list | object => cases h
  | float => exact h
  | _ => trivial

/-- The texts in a list that has been rewritten are as the rule makes them. -/
theorem mapText_of_mem {f : String → String} (hf : ∀ s, f (f s) = f s) {items : List Value}
    (h : v ∈ items.map (mapText f)) : mapText f v = v := by
  obtain ⟨w, -, rfl⟩ := List.mem_map.mp h
  cases w with
  | str s => exact congrArg Value.str (hf s)
  | _ => rfl

/-- A list without duplicates and with nothing vacuous in it, in a field other than the colors. -/
theorem isNormal_of_pairwise {items : List Value} (hname : name ≠ "colors")
    (hrule : ∀ v ∈ items, mapText (ruleOf name) v = v) (hdistinct : items.Pairwise Differs) :
    IsNormal name (.list items) where
  ruled := by
    rw [updated_mapTexts_list]
    exact congrArg Value.list ((List.map_congr_left hrule).trans (List.map_id _))
  broadened h := absurd h hname
  distinct := by
    rw [updated_distinctList_list]
    exact congrArg Value.list (distinctFrom_of_pairwise hdistinct fun _ _ => rfl)

/-! ### colors -/

theorem pastelTokens_pastelTokens (colors : List String) :
    pastelTokens (pastelTokens colors) = pastelTokens colors := by
  have hn : (pastelTokens colors).Nodup := by
    rw [pastelTokens_eq]
    exact nodup_firsts List.nodup_nil
  have hmem : ∀ c, c ∈ pastelTokens colors ↔
      c ∈ colors.filter (·.startsWith "pastel-") ∨ c ∈ Taxonomy.pastelPalette := by
    intro c
    rw [pastelTokens_eq, mem_firsts, List.mem_append]
    exact or_iff_right List.not_mem_nil
  have hkept : (pastelTokens colors).filter (·.startsWith "pastel-") = pastelTokens colors := by
    refine List.filter_eq_self.mpr fun c hc => ?_
    rcases (hmem c).mp hc with h | h
    · exact (List.mem_filter.mp h).2
    · exact (pastelPalette_facts c h).1
  have happend : firsts [] (pastelTokens colors ++ Taxonomy.pastelPalette) =
      firsts (firsts [] (pastelTokens colors)) Taxonomy.pastelPalette := List.foldl_append ..
  rw [pastelTokens_eq (pastelTokens colors), hkept, happend, firsts_nil hn]
  exact firsts_of_subset fun c hc => (hmem c).mpr (.inr hc)

/-- The pastel rule rewrites nothing twice, whatever is left out in between but the palette. -/
theorem pastelFallback_of_kept {colors kept : List String} (hkept : ∀ c ∈ kept, c ∈ pastelFallback colors)
    (hsame : colors.any mentionsPastel = true → kept = pastelTokens colors) :
    pastelFallback kept = kept := by
  by_cases hany : colors.any mentionsPastel = true
  · have hpalette : (pastelTokens colors).any mentionsPastel = true := by
      refine List.any_eq_true.mpr ⟨"pastel-pink", ?_, (pastelPalette_facts _ (by decide)).2.2⟩
      rw [pastelTokens_eq, mem_firsts, List.mem_append]
      exact .inr (.inr (by decide))
    rw [hsame hany]
    unfold pastelFallback
    rw [if_pos hpalette, pastelTokens_pastelTokens]
  · unfold pastelFallback at hkept ⊢
    rw [if_neg hany] at hkept
    refine if_neg fun h => hany ?_
    obtain ⟨c, hc, hmentions⟩ := List.any_eq_true.mp h
    exact List.any_eq_true.mpr ⟨c, hkept c hc, hmentions⟩

theorem ruleOf_colors : ruleOf "colors" = canonColor := by
  simp [ruleOf, tokenRules]

/-- The colors that the pastel rule leaves are texts that the rule for colors leaves as they are. -/
theorem canonColor_of_mem {colors : List String} (hcolors : ∀ c ∈ colors, canonColor c = c) {c : String}
    (h : c ∈ pastelFallback colors) : canonColor c = c := by
  have hpalette : ∀ c ∈ Taxonomy.pastelPalette, canonColor c = c := by decide
  unfold pastelFallback at h
  split at h
  · rw [pastelTokens_eq, mem_firsts, List.mem_append, List.mem_filter] at h
    rcases h with h | ⟨h, -⟩ | h
    · cases h
    · exact hcolors c h
    · exact hpalette c h
  · exact hcolors c h

/-- The pastel tokens are texts, each once. -/
theorem pastelTokens_tidy (colors : List String) :
    (firsts [] (pastelTokens colors)).filter (!·.isEmpty) = pastelTokens colors := by
  have hn : (pastelTokens colors).Nodup := by
    rw [pastelTokens_eq]
    exact nodup_firsts List.nodup_nil
  rw [firsts_nil hn]
  refine filter_nonempty fun c hc => ?_
  have hpastel : c.startsWith "pastel-" = true := by
    rw [pastelTokens_eq, mem_firsts, List.mem_append, List.mem_filter] at hc
    rcases hc with h | ⟨-, h⟩ | h
    · cases h
    · exact h
    · exact (pastelPalette_facts c h).1
  cases hempty : c.isEmpty with
  | false => rfl
  | true =>
    have hnone : "".startsWith "pastel-" = false := by decide
    rw [String.isEmpty_iff.mp hempty, hnone] at hpastel
    cases hpastel

/-- Tidied colors are normal. -/
theorem isNormal_colors (tokens : List String) : IsNormal "colors" (.ofStrings (tidied "colors" tokens)) := by
  have htidied : tidied "colors" tokens =
      (firsts [] (pastelFallback (tokens.map canonColor))).filter (!·.isEmpty) := by
    unfold tidied broadened
    rw [if_pos rfl, ruleOf_colors]
  have hmem : ∀ c ∈ tidied "colors" tokens, c ∈ pastelFallback (tokens.map canonColor) := by
    intro c hc
    rw [htidied] at hc
    exact (mem_firsts.mp (List.mem_filter.mp hc).1).resolve_left List.not_mem_nil
  have hcanon : ∀ c ∈ tokens.map canonColor, canonColor c = c := by
    intro c hc
    obtain ⟨s, -, rfl⟩ := List.mem_map.mp hc
    exact canonColor_canonColor s
  constructor
  · rw [updated_mapTexts, ruleOf_colors]
    have hself : (tidied "colors" tokens).map canonColor = tidied "colors" tokens :=
      (List.map_congr_left fun c hc => canonColor_of_mem hcanon (hmem c hc)).trans (List.map_id _)
    rw [hself]
  · intro _
    have hself : pastelFallback (tidied "colors" tokens) = tidied "colors" tokens := by
      refine pastelFallback_of_kept hmem fun hany => ?_
      have hfallback : pastelFallback (tokens.map canonColor) = pastelTokens (tokens.map canonColor) :=
        if_pos hany
      rw [htidied, hfallback, pastelTokens_tidy]
    rw [updated_broadenPastel, hself]
  · rw [updated_distinctList, firsts_nil (nodup_tidied ..)]

/-! ### normalization -/

/-- The lists in the list fields hold scalars only. -/
def HasFlatLists (filters : Fields) : Prop :=
  ∀ name ∈ listFields, ∀ items, Fields.get? filters name = some (.list items) → ∀ v ∈ items, IsScalar v

theorem rewritten_colors (items : List Value) : rewritten "colors" (.list items) =
    .ofStrings (firsts [] (pastelFallback ((items.filterMap Value.string?).map (ruleOf "colors")))) := by
  unfold rewritten
  rw [updated_mapTexts_list]
  dsimp only
  rw [if_pos rfl, updated_broadenPastel_list, filterMap_mapText, updated_distinctList]

theorem rewritten_list (hcolors : name ≠ "colors") (items : List Value) :
    rewritten name (.list items) = .list (Filters.distinct (items.map (mapText (ruleOf name)))) := by
  unfold rewritten
  rw [updated_mapTexts_list]
  dsimp only
  rw [if_neg hcolors, updated_distinctList_list]

theorem rewritten_of_not_list (h : ∀ items, v ≠ .list items) : rewritten name v = v :=
  (isNormal_of_not_list h).rewritten

/-- **What normalization leaves of a list field is normal**, if lists hold scalars only. -/
theorem isNormal_of_normalize (hn : filters.keys.Nodup) (hflat : HasFlatLists filters)
    (hname : name ∈ listFields) (hv : Fields.get? (normalize filters) name = some v) : IsNormal name v := by
  rw [get?_normalize_field hn hname] at hv
  obtain ⟨r, hr, hleft⟩ := Option.bind_eq_some_iff.mp hv
  obtain ⟨w, hw, rfl⟩ := Option.map_eq_some_iff.mp hr
  have hpruned : v = (rewritten name w).prune := by
    unfold Value.pruned? at hleft
    split at hleft
    · cases hleft
    · exact (Option.some.inj hleft).symm
  by_cases hlist : ∃ items, w = .list items
  · obtain ⟨items, rfl⟩ := hlist
    have hscalar := hflat name hname items hw
    by_cases hcolors : name = "colors"
    · subst hcolors
      have htidied : listValue (tidied "colors" (items.filterMap Value.string?)) = some v := by
        rw [rewritten_colors] at hleft
        exact (pruned?_texts _).symm.trans hleft
      rcases listValue_cases (tidied "colors" (items.filterMap Value.string?)) with he | ⟨he, -⟩
      · rw [he] at htidied
        exact Option.some.inj htidied ▸ isNormal_colors _
      · rw [he] at htidied
        cases htidied
    · have hitems : ∀ v ∈ Filters.distinct (items.map (mapText (ruleOf name))), IsScalar v := by
        intro v hv
        obtain ⟨w, hw, rfl⟩ := List.mem_map.mp (mem_distinctFrom hv)
        exact isScalar_mapText _ (hscalar w hw)
      rw [hpruned, rewritten_list hcolors]
      show IsNormal name (.list (Value.pruneItems _))
      rw [pruneItems_of_isScalar hitems]
      refine isNormal_of_pairwise hcolors (fun v hv => ?_) ((pairwise_distinctFrom ..).1.filter _)
      exact mapText_of_mem (ruleOf_ruleOf name) (mem_distinctFrom (List.mem_filter.mp hv).1)
  · rw [hpruned, rewritten_of_not_list fun items he => hlist ⟨items, he⟩]
    refine isNormal_of_not_list fun items he => hlist ?_
    cases w with
    | list items => exact ⟨items, rfl⟩
    | _ => cases he

theorem normalize_normalize (hn : filters.keys.Nodup) (hflat : HasFlatLists filters) :
    normalize (normalize filters) = normalize filters := by
  have hcanonical : canonical (normalize filters) = normalize filters :=
    canonical_of_isNormal fun name hname v hv => isNormal_of_normalize hn hflat hname hv
  unfold normalize at hcanonical ⊢
  rw [hcanonical, Value.pruneFields_pruneFields]

/-- **Nothing is normalized twice.** -/
theorem normalize_idempotent (hn : filters.keys.Nodup) (hflat : HasFlatLists filters) :
    normalizeValue (.object filters) = .ok (normalize filters) ∧
      normalizeValue (.object (normalize filters)) = .ok (normalize filters) :=
  ⟨rfl, congrArg Except.ok (normalize_normalize hn hflat)⟩

def untidyFilters : Fields :=
  [("colors", .list [.str " Light  BLUE", .null, .str "gray"]),
    ("occasion", .ofStrings ["Black Tie date-night", "formal date night"]),
    ("price", .object [("min", .null)])]

theorem normalize_idempotent_of_untidy :
    normalizeValue (.object untidyFilters) = .ok (normalize untidyFilters) ∧
      normalizeValue (.object (normalize untidyFilters)) = .ok (normalize untidyFilters) := by
  have hflat : HasFlatLists untidyFilters := by
    intro name _ items hitems v hv
    have hfield := Fields.mem_of_get? hitems
    simp only [untidyFilters, List.mem_cons, Prod.mk.injEq, List.not_mem_nil, or_false] at hfield
    rcases hfield with ⟨-, he⟩ | ⟨-, he⟩ | ⟨-, he⟩
    · cases he
      simp only [List.mem_cons, List.not_mem_nil, or_false] at hv
      rcases hv with rfl | rfl | rfl <;> trivial
    · cases he
      obtain ⟨s, -, rfl⟩ := List.mem_map.mp hv
      trivial
    · cases he
  exact normalize_idempotent (by decide) hflat

end Filters

end Outfitter
