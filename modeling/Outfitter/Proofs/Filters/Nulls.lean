import Mathlib.Data.List.ReduceOption
import Outfitter.Proofs.Filters.Idempotent

/-!
What normalization keeps of a list with nulls in it.

A list field may hold texts and nulls (`sparse`). What should come out are the canonical texts in their order,
each once and none of them empty (`canonicalTexts`). The nulls are pruned, but not before duplicates have
been looked for, and there a null goes by its literal, which is the text "None". So a null that comes first
takes the place of that text, and when it is pruned neither of the two is left (`Shadowed`). This is all that
nulls can do (`normalize_sparse`): no other text depends on them, and no color does, because only the texts
among the colors get as far as the search for duplicates.
-/

namespace Outfitter

namespace Filters

variable {filters : Fields} {name : String} {items : List (Option String)} {seen : List Value}

/-- A text, or null in place of one. -/
def textOrNull (text : Option String) : Value :=
  (text.map .str).getD .null

theorem textOrNull_none : textOrNull none = .null :=
  rfl

theorem textOrNull_some (text : String) : textOrNull (some text) = .str text :=
  rfl

/-- A list of texts and nulls. -/
def sparse (items : List (Option String)) : Value :=
  .list (items.map textOrNull)

/-- The literal of null. -/
def nullText : String :=
  "None"

/-- The canonical forms of the texts of a field, each once and none of them empty. -/
def canonicalTexts (name : String) (texts : List String) : List String :=
  (firsts [] (texts.map (ruleOf name))).filter (!·.isEmpty)

/-- A null stands before the first of the texts that read like it. -/
def Shadowing (items : List (Option String)) : Prop :=
  ∃ before after, items = before ++ none :: after ∧
    nullText ∉ before.reduceOption ∧ nullText ∈ after.reduceOption

/-- The text "None" is lost to a null before it. -/
def Shadowed (name : String) (items : List (Option String)) : Prop :=
  name ≠ "colors" ∧ Shadowing (items.map (Option.map (ruleOf name)))

/-! ### which text is shadowed -/

theorem not_shadowing_nil : ¬Shadowing [] := by
  rintro ⟨before, after, he, -⟩
  cases before <;> cases he

theorem shadowing_cons_none (items : List (Option String)) :
    Shadowing (none :: items) ↔ nullText ∈ items.reduceOption := by
  constructor
  · rintro ⟨before, after, he, -, hafter⟩
    have htail : none :: after <:+ none :: items := ⟨before, he.symm⟩
    have hmem := (htail.filterMap id).subset hafter
    exact hmem
  · exact fun h => ⟨[], items, rfl, List.not_mem_nil, h⟩

theorem shadowing_cons_some (text : String) (items : List (Option String)) :
    Shadowing (some text :: items) ↔ text ≠ nullText ∧ Shadowing items := by
  constructor
  · rintro ⟨before, after, he, hbefore, hafter⟩
    cases before with
    | nil => cases he
    | cons x before =>
      obtain ⟨rfl, rfl⟩ := List.cons.inj he
      rw [List.reduceOption_cons_of_some, List.mem_cons, not_or] at hbefore
      exact ⟨Ne.symm hbefore.1, before, after, rfl, hbefore.2, hafter⟩
  · rintro ⟨hne, before, after, rfl, hbefore, hafter⟩
    refine ⟨some text :: before, after, rfl, ?_, hafter⟩
    rw [List.reduceOption_cons_of_some, List.mem_cons, not_or]
    exact ⟨Ne.symm hne, hbefore⟩

theorem mem_of_shadowing (h : Shadowing items) : nullText ∈ items.reduceOption := by
  obtain ⟨before, after, rfl, -, hafter⟩ := h
  rw [List.reduceOption_append, List.reduceOption_cons_of_none]
  exact List.mem_append_right _ hafter

instance decidableShadowing : (items : List (Option String)) → Decidable (Shadowing items)
  | [] => isFalse not_shadowing_nil
  | none :: rest => decidable_of_iff _ (shadowing_cons_none rest).symm
  | some text :: rest =>
    have := decidableShadowing rest
    decidable_of_iff _ (shadowing_cons_some text rest).symm

instance : Decidable (Shadowed name items) :=
  inferInstanceAs (Decidable (_ ∧ _))

/-- The canonical texts without the one that is shadowed. -/
def keptTexts (name : String) (items : List (Option String)) : List String :=
  if Shadowed name items then (canonicalTexts name items.reduceOption).filter (· != nullText)
  else canonicalTexts name items.reduceOption

/-- The texts that are left if those that are shadowed are taken out. -/
def unshadowed (items : List (Option String)) : List String :=
  if Shadowing items then items.reduceOption.filter (· != nullText) else items.reduceOption

theorem unshadowed_cons_none (items : List (Option String)) :
    unshadowed (none :: items) = items.reduceOption.filter (· != nullText) := by
  unfold unshadowed
  rw [List.reduceOption_cons_of_none]
  split
  · rfl
  · rename_i h
    rw [shadowing_cons_none] at h
    refine (List.filter_eq_self.mpr fun text htext => bne_iff_ne.mpr ?_).symm
    rintro rfl
    exact h htext

theorem unshadowed_cons_null (items : List (Option String)) :
    unshadowed (some nullText :: items) = nullText :: items.reduceOption := by
  unfold unshadowed
  rw [if_neg fun h => ((shadowing_cons_some ..).mp h).1 rfl, List.reduceOption_cons_of_some]

theorem unshadowed_cons_some {text : String} (h : text ≠ nullText) (items : List (Option String)) :
    unshadowed (some text :: items) = text :: unshadowed items := by
  have hshadowing : Shadowing (some text :: items) ↔ Shadowing items := by
    rw [shadowing_cons_some, and_iff_right h]
  unfold unshadowed
  simp only [hshadowing, List.reduceOption_cons_of_some]
  split
  · exact List.filter_cons_of_pos (bne_iff_ne.mpr h)
  · rfl

/-! ### duplicates among texts and nulls -/

theorem distinctFrom_cons_null (vs : List Value) : distinctFrom seen (.null :: vs) =
    if (Value.str nullText).isIn seen then distinctFrom seen vs
    else .null :: distinctFrom (.str nullText :: seen) vs :=
  rfl

/-- A null adds nothing once its text is there. -/
theorem distinctFrom_of_seen (h : (Value.str nullText).isIn seen = true) (items : List (Option String)) :
    distinctFrom seen (items.map textOrNull) = distinctFrom seen (items.reduceOption.map .str) := by
  induction items generalizing seen with
  | nil => rfl
  | cons item rest ih =>
    cases item with
    | none => rw [List.map_cons, textOrNull_none, distinctFrom_cons_null, if_pos h, ih h,
        List.reduceOption_cons_of_none]
    | some text =>
      have hnext : (Value.str nullText).isIn (.str text :: seen) = true := by
        rw [isIn_cons_str, h, Bool.or_true]
      rw [List.map_cons, textOrNull_some, distinctFrom_cons_str, ih h, ih hnext,
        List.reduceOption_cons_of_some, List.map_cons, distinctFrom_cons_str]

/-- A text that has been seen is not missed. -/
theorem distinctFrom_filter {text : String} {before : List Value}
    (h : ∀ s, (Value.str s).isIn seen = (s == text || (Value.str s).isIn before)) (texts : List String) :
    distinctFrom seen (texts.map .str) = distinctFrom before ((texts.filter (· != text)).map .str) := by
  induction texts generalizing seen before with
  | nil => rfl
  | cons s rest ih =>
    rw [List.map_cons, distinctFrom_cons_str, h]
    by_cases hs : s = text
    · rw [beq_iff_eq.mpr hs, Bool.true_or, if_pos rfl, ih h, List.filter_cons_of_neg (by simp [hs])]
    · have hnext : ∀ t, (Value.str t).isIn (.str s :: seen) =
          (t == text || (Value.str t).isIn (.str s :: before)) := by
        intro t
        rw [isIn_cons_str, isIn_cons_str, h, Bool.or_left_comm]
      rw [beq_eq_false_iff_ne.mpr hs, Bool.false_or, List.filter_cons_of_pos (by simp [hs]), ih h, ih hnext,
        List.map_cons, distinctFrom_cons_str]

theorem pruneItems_cons_congr {v : Value} {vs ws : List Value}
    (h : Value.pruneItems vs = Value.pruneItems ws) :
    Value.pruneItems (v :: vs) = Value.pruneItems (v :: ws) := by
  rw [Value.pruneItems, Value.pruneItems, h]

/-- What is left of texts and nulls when the duplicates and then the nulls are gone. -/
theorem pruneItems_distinctFrom (h : (Value.str nullText).isIn seen = false)
    (items : List (Option String)) : Value.pruneItems (distinctFrom seen (items.map textOrNull)) =
      Value.pruneItems (distinctFrom seen ((unshadowed items).map .str)) := by
  induction items generalizing seen with
  | nil => rfl
  | cons item rest ih =>
    have hnull : (Value.str nullText).isIn (.str nullText :: seen) = true := by
      rw [isIn_cons_str, beq_self_eq_true, Bool.true_or]
    cases item with
    | none =>
      -- the null is kept, and its text is seen from here on
      rw [List.map_cons, textOrNull_none, distinctFrom_cons_null, h, if_neg Bool.false_ne_true,
        unshadowed_cons_none, ← distinctFrom_filter (isIn_cons_str · _ _), ← distinctFrom_of_seen hnull]
      rfl
    | some text =>
      rw [List.map_cons, textOrNull_some, distinctFrom_cons_str]
      by_cases htext : text = nullText
      · subst htext
        rw [unshadowed_cons_null, List.map_cons, distinctFrom_cons_str, h, if_neg Bool.false_ne_true,
          if_neg Bool.false_ne_true, distinctFrom_of_seen hnull]
      · have hnext : (Value.str nullText).isIn (.str text :: seen) = false := by
          rw [isIn_cons_str, h, Bool.or_false, beq_eq_false_iff_ne]
          exact Ne.symm htext
        rw [unshadowed_cons_some htext, List.map_cons, distinctFrom_cons_str]
        split
        · exact ih h
        · exact pruneItems_cons_congr (ih hnext)

theorem pruneItems_distinct (items : List (Option String)) :
    Value.pruneItems (distinct (items.map textOrNull)) =
      ((firsts [] (unshadowed items)).filter (!·.isEmpty)).map .str := by
  rw [distinct, pruneItems_distinctFrom rfl, ← Value.pruneItems_texts, ← distinct_texts]
  rfl

/-! ### normalization -/

theorem map_mapText (f : String → String) (items : List (Option String)) :
    (items.map textOrNull).map (mapText f) = (items.map (Option.map f)).map textOrNull := by
  rw [List.map_map, List.map_map]
  refine List.map_congr_left fun item _ => ?_
  cases item <;> rfl

theorem filterMap_textOrNull (items : List (Option String)) :
    (items.map textOrNull).filterMap Value.string? = items.reduceOption := by
  rw [List.filterMap_map]
  refine List.filterMap_congr fun item _ => ?_
  cases item <;> rfl

theorem pastelFallback_of_none {colors : List String} (h : ∀ c ∈ colors, mentionsPastel c = false) :
    pastelFallback colors = colors := by
  have hnone : colors.any mentionsPastel = false :=
    List.any_eq_false.mpr fun c hc => ne_true_of_eq_false (h c hc)
  unfold pastelFallback
  rw [hnone, if_neg Bool.false_ne_true]

/-- The value of a list field of texts and nulls. -/
theorem pruned?_rewritten_sparse (hpastel : name = "colors" →
      ∀ text ∈ items.reduceOption, mentionsPastel (canonColor text) = false) :
    Value.pruned? (rewritten name (sparse items)) = listValue (keptTexts name items) := by
  unfold keptTexts
  by_cases hcolors : name = "colors"
  · subst hcolors
    have hnot : ¬Shadowed "colors" items := fun h => h.1 rfl
    have hfallback : pastelFallback (items.reduceOption.map (ruleOf "colors")) =
        items.reduceOption.map (ruleOf "colors") := by
      refine pastelFallback_of_none fun c hc => ?_
      obtain ⟨text, htext, rfl⟩ := List.mem_map.mp hc
      rw [ruleOf_colors]
      exact hpastel rfl text htext
    rw [if_neg hnot, sparse, rewritten_colors, filterMap_textOrNull, hfallback, pruned?_texts, canonicalTexts]
  · have hshadowed : Shadowed name items ↔ Shadowing (items.map (Option.map (ruleOf name))) :=
      and_iff_right hcolors
    have htexts : (items.map (Option.map (ruleOf name))).reduceOption =
        items.reduceOption.map (ruleOf name) := List.reduceOption_map ..
    rw [sparse, rewritten_list hcolors, map_mapText, pruned?_list (pruneItems_distinct _)]
    unfold unshadowed
    simp only [hshadowed, htexts]
    split
    · have hfirsts : firsts [] ((items.reduceOption.map (ruleOf name)).filter (· != nullText)) =
          (firsts [] (items.reduceOption.map (ruleOf name))).filter (· != nullText) :=
        (filter_firsts _ [] _).symm
      rw [hfirsts, List.filter_comm]
      rfl
    · rfl

/-- A text that is shadowed would have been among the canonical texts. -/
theorem Shadowed.mem (h : Shadowed name items) : nullText ∈ canonicalTexts name items.reduceOption := by
  have hmem := mem_of_shadowing h.2
  rw [List.reduceOption_map] at hmem
  exact List.mem_filter.mpr ⟨mem_firsts.mpr (.inr hmem), rfl⟩

/-- **What normalization keeps of texts and nulls**: the canonical texts, each once. The only exception is the
text "None" in a field other than the colors, which is lost to a null before it. -/
theorem normalize_sparse (hn : filters.keys.Nodup) (hname : name ∈ listFields)
    (hv : Fields.get? filters name = some (sparse items))
    (hpastel : name = "colors" → ∀ text ∈ items.reduceOption, mentionsPastel (canonColor text) = false) :
    normalizeValue (.object filters) = .ok (normalize filters) ∧
      Fields.get? (normalize filters) name = listValue (keptTexts name items) ∧
      (Fields.get? (normalize filters) name = listValue (canonicalTexts name items.reduceOption) ↔
        ¬Shadowed name items) := by
  have hget : Fields.get? (normalize filters) name = listValue (keptTexts name items) := by
    rw [get?_normalize_field hn hname, hv, Option.map_some, Option.bind_some]
    exact pruned?_rewritten_sparse hpastel
  refine ⟨rfl, hget, ?_⟩
  rw [hget]
  unfold keptTexts
  split
  · rename_i h
    refine iff_of_false (fun he => ?_) fun hnot => hnot h
    have hlost : nullText ∉ (canonicalTexts name items.reduceOption).filter (· != nullText) := fun hmem =>
      bne_iff_ne.mp (List.mem_filter.mp hmem).2 rfl
    rw [listValue_injective he] at hlost
    exact hlost h.mem
  · rename_i h
    exact iff_of_true rfl h

/-- A null, the text "None" behind it, a text that comes twice and an empty one. -/
def sparseBrands : List (Option String) :=
  [none, some "Acme", some "None", some "", some "Acme", none]

theorem normalize_sparse_of_brands :
    normalizeValue (.object [("brand", sparse sparseBrands)]) =
        .ok (normalize [("brand", sparse sparseBrands)]) ∧
      Fields.get? (normalize [("brand", sparse sparseBrands)]) "brand" = some (.ofStrings ["Acme"]) ∧
      listValue (canonicalTexts "brand" sparseBrands.reduceOption) = some (.ofStrings ["Acme", "None"]) := by
  have hget : Fields.get? [("brand", sparse sparseBrands)] "brand" = some (sparse sparseBrands) := rfl
  obtain ⟨hvalue, hkept, -⟩ := normalize_sparse (by decide) (by decide) hget (by decide)
  exact ⟨hvalue, hkept, rfl⟩

end Filters

end Outfitter
