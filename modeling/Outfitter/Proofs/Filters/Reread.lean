import Outfitter.Proofs.Filters.Coerced
import Outfitter.Proofs.Filters.Idempotent

/-!
Filters from parameters, read as parameters.

Filters have one of the spellings of every parameter, so a field is read from the place in which it was put
(`firstGiven_cons`). Whatever is read there is read as it is: pieces are listed again, identifiers are
identifiers, and numbers are doubles. So parameters that are filters give the same filters (`coerce_idempotent`).
-/

namespace Outfitter.Filters

open Text

variable {params filters : Fields} {s : String}

/-! ### what is found under the first spelling -/

/-- Where no other spelling is used, a parameter is read from its first one. -/
theorem firstGiven_cons {key : Key} {others : List Key}
    (hothers : ∀ other ∈ others, Fields.get? filters other = none)
    (hgiven : ∀ v, Fields.get? filters key = some v → v.isLeftBlank = false) :
    firstGiven filters (key :: others) = Fields.value filters key := by
  rw [firstGiven_eq, firstGiven_of_none hothers]
  cases hv : Fields.get? filters key with
  | none =>
    have hvalue : Fields.value filters key = .null := congrArg (·.getD .null) hv
    rw [hvalue]
    rfl
  | some v => rw [Fields.value_of_get? hv, hgiven v hv, if_neg Bool.false_ne_true]

/-- Spellings that are no names of fields do not stand in filters. -/
theorem Coerced.get?_other (h : Coerced filters) (others : List String)
    (hothers : ∀ other ∈ others, other ∉ listFields ++ "price" :: scalarFields) :
    ∀ other ∈ others.map Key.text, Fields.get? filters other = none := by
  intro key hkey
  obtain ⟨other, hother, rfl⟩ := List.mem_map.mp hkey
  refine h.others _ fun hmem => hothers other hother ?_
  obtain ⟨name, hname, he⟩ := List.mem_map.mp hmem
  exact Key.text.inj he ▸ hname

/-! ### lists -/

theorem normal_coerce {name : String} (hname : name ∈ listFields) {v : Value}
    (h : Fields.get? (coerce params) name = some v) : IsNormal name v := by
  refine isNormal_of_normalize (nodup_rawParams params) (fun name hname items hitems v hv => ?_) hname h
  obtain ⟨xs, -, hxs⟩ := @exists_list params name hname
  obtain rfl : xs.map .str = items := Value.list.inj (Option.some.inj (hxs.symm.trans hitems))
  obtain ⟨s, -, rfl⟩ := List.mem_map.mp hv
  trivial

/-- The list in a field is given by the field. -/
theorem firstGiven_list {name : String} {xs : List String} (hget : Fields.get? filters name = listValue xs)
    {others : List Key} (hothers : ∀ other ∈ others, Fields.get? filters other = none) :
    firstGiven filters (name :: others) = (listValue xs).getD .null := by
  rw [firstGiven_cons hothers fun v hv => ?_]
  · exact congrArg (·.getD .null) hget
  · rw [hget] at hv
    rcases listValue_cases xs with he | ⟨he, -⟩
    · rw [he] at hv
      exact Option.some.inj hv ▸ rfl
    · rw [he] at hv
      cases hv

/-- Pieces are read from the list that they make, if there is one. -/
theorem listed_listValue {xs : List String} (hxs : ∀ s ∈ xs, Piece s) : listed ((listValue xs).getD .null) = xs := by
  cases xs with
  | nil => rfl
  | cons x xs => exact listed_ofStrings hxs

/-- A list in which there is nothing to rewrite is left as it is, if it is read as it is. -/
theorem get?_coerce_list {name : String} (hname : name ∈ listFields) {xs : List String}
    (hread : Fields.get? (rawParams filters) name = some (.ofStrings xs)) (hnonempty : ∀ s ∈ xs, s.isEmpty = false)
    (hnormal : ∀ v, listValue xs = some v → IsNormal name v) :
    Fields.get? (coerce filters) name = listValue xs := by
  have hrewritten : rewritten name (.ofStrings xs) = .ofStrings xs := by
    rcases listValue_cases xs with he | ⟨-, rfl⟩
    · exact (hnormal _ he).rewritten
    · rw [rewritten_ofStrings, List.map_nil]
      unfold broadened
      split <;> rfl
  unfold coerce
  rw [get?_normalize_field (nodup_rawParams filters) hname, hread, Option.map_some, hrewritten]
  exact (pruned?_texts xs).trans (congrArg listValue (filter_nonempty hnonempty))

/-- Identifiers are read from the list that they make. -/
theorem objectIds_listValue {ids : List String} (hn : ids.Nodup) (hids : ∀ s ∈ ids, IsIdentifier s) :
    objectIds ((listValue ids).getD .null) = ids := by
  have hread : ids.filterMap (fun s => objectId? (.str s)) = ids := by
    clear hn
    induction ids with
    | nil => rfl
    | cons id rest ih =>
      obtain ⟨hid, hrest⟩ := List.forall_mem_cons.mp hids
      rw [List.filterMap_cons, hid.objectId?, ih hrest]
  unfold objectIds
  rw [listed_listValue fun s hs => (hids s hs).piece, hread]
  exact firsts_nil hn

/-- Identifiers are read from their field; without them there is no single one either. -/
theorem categoryIds_eq {ids : List String} (hn : ids.Nodup) (hids : ∀ s ∈ ids, IsIdentifier s)
    (hget : Fields.get? filters "category_ids" = listValue ids)
    (hothers : ∀ other ∈ ["categoryIds", "category_id", "categoryId"].map Key.text,
      Fields.get? filters other = none) : categoryIds filters = ids := by
  obtain ⟨hlist, hfirst, hsecond⟩ : Fields.get? filters "categoryIds" = none ∧
      Fields.get? filters "category_id" = none ∧ Fields.get? filters "categoryId" = none := by
    simpa using hothers
  have hsingle : singleId filters = .null := by
    have hgiven : firstGiven filters ["category_id", "categoryId"] = .null :=
      firstGiven_of_none (by simp [hfirst, hsecond])
    unfold singleId
    rw [hgiven]
  unfold categoryIds
  rw [firstGiven_list hget (by simpa using hlist), objectIds_listValue hn hids, hsingle]
  cases ids with
  | nil => decide
  | cons => rfl

/-! ### single values -/

variable (h : Coerced filters)

include h

theorem Coerced.get?_coerce_query : Fields.get? (coerce filters) "q" = Fields.get? filters "q" := by
  obtain ⟨q, htrimmed, hget⟩ := h.query
  have hgiven : firstGiven filters ["q", "query", "text"] = Fields.value filters "q" := by
    refine firstGiven_cons (h.get?_other ["query", "text"] (by decide)) fun v hv => ?_
    rw [hget] at hv
    split at hv
    · cases hv
    · rename_i hne
      exact Option.some.inj hv ▸ eq_false_of_ne_true hne
  have hquery : Filters.query filters = q := by
    unfold Filters.query rawQuery
    rw [hgiven]
    unfold Fields.value
    rw [hget]
    by_cases hq : q.isEmpty = true
    · rw [if_pos hq]
      exact (String.isEmpty_iff.mp hq).symm
    · rw [if_neg hq]
      show (if q.isEmpty = true then "" else String.ofList (trim q.toList)) = q
      rw [if_neg hq, trim_of_trimmed htrimmed, String.ofList_toList]
  rw [get?_coerce "q" (by decide) rfl, hquery, hget]
  rfl

theorem Coerced.get?_coerce_inStock : Fields.get? (coerce filters) "in_stock" = Fields.get? filters "in_stock" := by
  obtain ⟨b, hget⟩ := h.inStock
  have hothers : ∀ other ∈ [Key.text "inStock"], Fields.get? filters other = none :=
    h.get?_other ["inStock"] (by decide)
  have hgiven : firstGiven filters ["in_stock", "inStock"] = (b.map Value.bool).getD .null := by
    rw [firstGiven_cons hothers fun v hv => ?_]
    · exact congrArg (·.getD .null) hget
    · obtain ⟨t, -, rfl⟩ := Option.map_eq_some_iff.mp (hget.symm.trans hv)
      rfl
  rw [get?_coerce "in_stock" (by decide) rfl, hgiven, hget]
  cases b <;> rfl

theorem Coerced.get?_coerce_sort : Fields.get? (coerce filters) "sort" = Fields.get? filters "sort" := by
  obtain ⟨order, hget⟩ := h.sort
  rw [get?_coerce "sort" (by decide) rfl, Fields.value_of_get? hget, sortOrder_name, hget]
  cases order <;> rfl

theorem Coerced.get?_coerce_page : Fields.get? (coerce filters) "page" = Fields.get? filters "page" := by
  obtain ⟨v, hget⟩ := h.page
  rw [get?_coerce "page" (by decide) rfl, Fields.value_of_get? hget, page_page, hget]
  rfl

theorem Coerced.get?_coerce_limit : Fields.get? (coerce filters) "limit" = Fields.get? filters "limit" := by
  obtain ⟨v, hget⟩ := h.limit
  rw [get?_coerce "limit" (by decide) rfl, Fields.value_of_get? hget, limit_limit, hget]
  rfl

omit h

/-! ### the price -/

/-- A bound is read from the number by which it is written, and from nothing else. -/
theorem firstPrice_bound {bound : Option Quantity} (hread : ∀ q ∈ bound, ∃ x, Quantity.ofDouble? x = some q)
    (hunits : ∀ q ∈ bound, 0 ≤ q.units) {others : List Value} (hothers : ∀ v ∈ others, v = .null) :
    firstPrice ((bound.map Quantity.toValue).getD .null :: others) = bound := by
  have hnone : others.filterMap quantity? = [] :=
    List.filterMap_eq_nil_iff.mpr fun v hv => hothers v hv ▸ rfl
  unfold firstPrice
  cases bound with
  | none =>
    rw [List.filterMap_cons_none (by rfl), hnone]
    rfl
  | some q =>
    obtain ⟨x, hx⟩ := hread q rfl
    have hzero : (Quantity.whole 0).units = 0 := Int.zero_mul _
    have hkept : (!q.isBelow (.whole 0)) = true := by
      simpa [Quantity.isBelow, hzero] using hunits q rfl
    rw [show (Option.map Quantity.toValue (some q)).getD .null = q.toValue from rfl,
      List.filterMap_cons_some (quantity?_toValue hx), hnone]
    exact List.find?_cons_of_pos (p := fun q : Quantity => !q.isBelow (.whole 0)) hkept

/-- A price whose bounds are a range, and not negative, is read as it is. -/
theorem priceBounds_eq (h : Coerced filters) {least most : Option Quantity} (hrange : IsRange least most)
    (hleast : ∀ q ∈ least, 0 ≤ q.units) (hmost : ∀ q ∈ most, 0 ≤ q.units)
    (hget : Fields.get? filters "price" =
      priceValue (least.map Quantity.toValue) (most.map Quantity.toValue)) :
    priceBounds filters = (least, most) := by
  have hprice : Fields.value filters "price" =
      (priceValue (least.map Quantity.toValue) (most.map Quantity.toValue)).getD .null :=
    congrArg (·.getD .null) hget
  have hnull : ∀ others : List String, (∀ other ∈ others, other ∉ listFields ++ "price" :: scalarFields) →
      ∀ v ∈ (others.map Key.text).map (Fields.value filters), v = .null := by
    intro others hothers v hv
    obtain ⟨other, hother, rfl⟩ := List.mem_map.mp hv
    exact congrArg (·.getD .null) (h.get?_other others hothers other hother)
  have hlow := firstPrice_bound hrange.lower hleast
    (hnull ["price_min", "min_price", "minPrice", "priceMin"] (by decide))
  have hhigh := firstPrice_bound hrange.upper hmost
    (hnull ["price_max", "max_price", "maxPrice", "priceMax"] (by decide))
  rw [← get_min, ← hprice] at hlow
  rw [← get_max, ← hprice] at hhigh
  have hboth : priceBounds filters = inOrder least most := congrArg₂ inOrder hlow hhigh
  rw [hboth, hrange.inOrder]

/-! ### filters from parameters -/

/-- The identifiers in filters are identifiers, each once. -/
theorem exists_identifiers (params : Fields) : ∃ ids : List String, ids.Nodup ∧ (∀ s ∈ ids, IsIdentifier s) ∧
    Fields.get? (coerce params) "category_ids" = listValue ids := by
  have hrule : ruleOf "category_ids" = id := rfl
  refine ⟨tidied "category_ids" (categoryIds params), nodup_tidied .., fun s hs => ?_,
    get?_normalize_list (nodup_rawParams params) (by decide) rfl⟩
  have hmem := mem_tidied hs
  rw [hrule, List.map_id] at hmem
  exact isIdentifier_of_mem_categoryIds hmem

/-- A list is read from the field in which filters have it. -/
theorem Coerced.get?_rawParams (h : Coerced filters) {ids : List String} (hn : ids.Nodup)
    (hids : ∀ s ∈ ids, IsIdentifier s) (hgiven : Fields.get? filters "category_ids" = listValue ids)
    {name : String} (hname : name ∈ listFields) : ∃ xs, (∀ s ∈ xs, Piece s) ∧
      Fields.get? filters name = listValue xs ∧ Fields.get? (rawParams filters) name = some (.ofStrings xs) := by
  have hlisted : ∀ {name : String}, name ∈ listFields → ∀ others : List String,
      (∀ other ∈ others, other ∉ listFields ++ "price" :: scalarFields) →
      Fields.get? (rawParams filters) name =
        some (.ofStrings (listed (firstGiven filters (name :: others.map Key.text)))) →
      ∃ xs, (∀ s ∈ xs, Piece s) ∧ Fields.get? filters name = listValue xs ∧
        Fields.get? (rawParams filters) name = some (.ofStrings xs) := by
    intro name hname others hothers hread
    obtain ⟨xs, hxs, hget⟩ := h.tokens name hname
    refine ⟨xs, hxs, hget, ?_⟩
    rw [hread, firstGiven_list hget (h.get?_other _ hothers), listed_listValue hxs]
  simp only [listFields, List.mem_cons, List.not_mem_nil, or_false] at hname
  rcases hname with rfl | rfl | rfl | rfl | rfl | rfl | rfl | rfl | rfl | rfl | rfl
  · exact hlisted (by decide) ["includeCategories"] (by decide) rfl
  · refine ⟨ids, fun s hs => (hids s hs).piece, hgiven, ?_⟩
    exact congrArg (fun ids => some (Value.ofStrings ids))
      (categoryIds_eq hn hids hgiven (h.get?_other _ (by decide)))
  · exact hlisted (by decide) ["color"] (by decide) rfl
  · exact hlisted (by decide) ["size"] (by decide) rfl
  · exact hlisted (by decide) ["occasions"] (by decide) rfl
  · exact hlisted (by decide) ["seasons"] (by decide) rfl
  · exact hlisted (by decide) ["fits"] (by decide) rfl
  · exact hlisted (by decide) ["silhouettes"] (by decide) rfl
  · exact hlisted (by decide) ["materials"] (by decide) rfl
  · exact hlisted (by decide) ["patterns"] (by decide) rfl
  · exact hlisted (by decide) ["brands"] (by decide) rfl

theorem get?_coerce_coerce (params : Fields) (key : Key) :
    Fields.get? (coerce (coerce params)) key = Fields.get? (coerce params) key := by
  have hcoerced := coerced_coerce params
  by_cases hkey : key ∈ (listFields ++ "price" :: scalarFields).map Key.text
  · obtain ⟨name, hname, rfl⟩ := List.mem_map.mp hkey
    simp only [List.mem_append, List.mem_cons, scalarFields, List.not_mem_nil, or_false] at hname
    rcases hname with hlist | rfl | rfl | rfl | rfl | rfl | rfl
    · obtain ⟨ids, hn, hids, hgiven⟩ := exists_identifiers params
      obtain ⟨xs, hxs, hget, hread⟩ := hcoerced.get?_rawParams hn hids hgiven hlist
      rw [hget]
      exact get?_coerce_list hlist hread (fun s hs => String.isEmpty_eq_false_iff.mpr (hxs s hs).nonempty)
        fun v hv => normal_coerce hlist (hget.trans hv)
    · rw [get?_coerce_price, get?_coerce_price, priceBounds_eq hcoerced (isRange_priceBounds params)
        (nonneg_priceBounds params).1 (nonneg_priceBounds params).2 (get?_coerce_price params)]
    · exact hcoerced.get?_coerce_inStock
    · exact hcoerced.get?_coerce_sort
    · exact hcoerced.get?_coerce_page
    · exact hcoerced.get?_coerce_limit
    · exact hcoerced.get?_coerce_query
  · rw [(coerced_coerce (coerce params)).others key hkey, hcoerced.others key hkey]

/-- The fields of filters come in the order in which parameters are read. -/
theorem sublist_keys_coerce (params others : Fields) :
    (coerce params).keys.Sublist (Fields.keys (rawParams others)) := by
  have h := Value.sublist_keys_pruneFields (canonical (rawParams params))
  rw [keys_canonical, keys_rawParams, ← keys_rawParams others] at h
  exact h

theorem coerce_coerce (params : Fields) : coerce (coerce params) = coerce params :=
  Fields.eq_of_sublist (nodup_rawParams params) (sublist_keys_coerce (coerce params) params)
    (sublist_keys_coerce params params) (get?_coerce_coerce params)

/-- **Filters from parameters give themselves when they are read as parameters**, with every list in its order
and every number as it was. -/
theorem coerce_idempotent (h : Value.haveWritable params = true) :
    coerceValue (.object params) = .ok (coerce params) ∧
      coerceValue (.object (coerce params)) = .ok (coerce params) := by
  refine ⟨coerceValue_eq h, ?_⟩
  rw [coerceValue_eq (coerced_coerce params).haveWritable, coerce_coerce]

/-- Parameters under several spellings and of several shapes: bounds the wrong way round, of which one is a text
with a fraction, a single identifier in capitals, and a list that repeats itself when it is rewritten. -/
def scatteredParams : Fields :=
  [("query", .str "  silk "), ("categoryId", .list [.str "64B000000000000000000009", .null]),
    ("color", .str "Light  Blue,, light blue"), ("occasions", .list [.str "black tie", .list [.str "Black-Tie, x"]]),
    ("price", .object [("min", .str "x"), ("max", .int 20)]), ("minPrice", .str "80.5"), ("inStock", .str "No"),
    ("sort", .str " NEWEST"), ("page", .str "2.7"), ("limit", .int 1000)]

theorem coerce_idempotent_of_scattered : Value.haveWritable scatteredParams = true ∧
    coerceValue (.object scatteredParams) = .ok (coerce scatteredParams) ∧
      coerceValue (.object (coerce scatteredParams)) = .ok (coerce scatteredParams) := by
  have hwritable : Value.haveWritable scatteredParams = true := by decide +kernel
  exact ⟨hwritable, coerce_idempotent hwritable⟩

end Outfitter.Filters
