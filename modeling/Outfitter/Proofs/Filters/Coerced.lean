import Outfitter.Proofs.Filters.Pieces
import Outfitter.Proofs.Filters.Scalars
import Outfitter.Proofs.Journal.Writable

/-!
Filters from request parameters.

Whatever the parameters are, the filters that they give have one form (`coerced_coerce`): lists of pieces,
a trimmed text, a range of prices that are doubles, a truth value, and an order, a page and a limit that are
always there.

A list can be written as one text with commas or as several texts. Of the value under the name of a list, it
only counts whether it was left blank and what it lists (`Alike`). So parameters that differ in nothing else
give the same filters (`coerceValue_of_sameLists`).
-/

namespace Outfitter.Filters

open Text

/-- The filters have the form in which parameters give them. -/
structure Coerced (filters : Fields) : Prop where
  nodup : filters.keys.Nodup
  others : ∀ key : Key, key ∉ (listFields ++ "price" :: scalarFields).map Key.text →
    Fields.get? filters key = none
  tokens : ∀ name ∈ listFields, ∃ xs, (∀ s ∈ xs, Piece s) ∧ Fields.get? filters name = listValue xs
  query : ∃ q : String, Trimmed q.toList ∧ Fields.get? filters "q" = if q.isEmpty then none else some (.str q)
  price : ∃ least most, IsRange least most ∧ Fields.get? filters "price" =
    priceValue (least.map Quantity.toValue) (most.map Quantity.toValue)
  inStock : ∃ b : Option Bool, Fields.get? filters "in_stock" = b.map .bool
  sort : ∃ order : SortOrder, Fields.get? filters "sort" = some (.str order.name)
  page : ∃ v, Fields.get? filters "page" = some (.int (page v))
  limit : ∃ v, Fields.get? filters "limit" = some (.int (limit v))

variable {params : Fields}

/-! ### several spellings -/

/-- The first spelling that was not left blank counts. -/
theorem firstGiven_eq (params : Fields) (key : Key) (keys : List Key) : firstGiven params (key :: keys) =
    if (Fields.value params key).isLeftBlank then firstGiven params keys else Fields.value params key := by
  unfold firstGiven
  rw [List.map_cons, List.find?_cons]
  cases (Fields.value params key).isLeftBlank <;> rfl

theorem firstGiven_of_none {keys : List Key} (h : ∀ key ∈ keys, Fields.get? params key = none) :
    firstGiven params keys = .null := by
  induction keys with
  | nil => rfl
  | cons key keys ih =>
    obtain ⟨hkey, hkeys⟩ := List.forall_mem_cons.mp h
    have hvalue : Fields.value params key = .null := congrArg (·.getD .null) hkey
    rw [firstGiven_eq, hvalue]
    exact ih hkeys

/-! ### the fields before normalization -/

theorem keys_rawParams (params : Fields) : Fields.keys (rawParams params) =
    ["q", "category_ids", "include_categories", "brand", "colors", "sizes", "material", "pattern", "silhouette",
      "fit", "occasion", "season", "price", "in_stock", "sort", "page", "limit"].map Key.text :=
  rfl

theorem nodup_rawParams (params : Fields) : (Fields.keys (rawParams params)).Nodup := by
  rw [keys_rawParams]
  decide

/-- The lists among the fields hold plain texts. -/
theorem exists_list {name : String} (h : name ∈ listFields) : ∃ xs, (∀ s ∈ xs, Plain s) ∧
    Fields.get? (rawParams params) name = some (.ofStrings xs) := by
  have hlisted : ∀ v, ∀ s ∈ listed v, Plain s := fun v s hs => (piece_of_mem_listed v s hs).toPlain
  simp only [listFields, List.mem_cons, List.not_mem_nil, or_false] at h
  rcases h with rfl | rfl | rfl | rfl | rfl | rfl | rfl | rfl | rfl | rfl | rfl
  · exact ⟨_, hlisted _, rfl⟩
  · exact ⟨_, fun s hs => (isIdentifier_of_mem_categoryIds hs).piece.toPlain, rfl⟩
  all_goals exact ⟨_, hlisted _, rfl⟩

theorem isRange_priceBounds (params : Fields) : IsRange (priceBounds params).1 (priceBounds params).2 := by
  have hfirst : ∀ values : List Value, ∀ q ∈ firstPrice values, ∃ x, Quantity.ofDouble? x = some q := by
    intro values q hq
    obtain ⟨v, -, hv⟩ := List.mem_filterMap.mp (List.mem_of_find?_eq_some hq)
    exact exists_of_quantity v hv
  exact isRange_inOrder (hfirst _) (hfirst _)

/-- The prices that parameters give are not negative. -/
theorem nonneg_priceBounds (params : Fields) :
    (∀ q ∈ (priceBounds params).1, 0 ≤ q.units) ∧ ∀ q ∈ (priceBounds params).2, 0 ≤ q.units := by
  have hfirst : ∀ values : List Value, ∀ q ∈ firstPrice values, 0 ≤ q.units := by
    intro values q hq
    have hkept := List.find?_some (p := fun q : Quantity => !q.isBelow (.whole 0)) hq
    have hzero : (Quantity.whole 0).units = 0 := Int.zero_mul _
    have hbelow : ¬ q.units < (Quantity.whole 0).units := by simpa [Quantity.isBelow] using hkept
    exact Int.not_lt.mp (hzero ▸ hbelow)
  have hordered : ∀ {least most : Option Quantity}, (∀ q ∈ least, 0 ≤ q.units) → (∀ q ∈ most, 0 ≤ q.units) →
      (∀ q ∈ (inOrder least most).1, 0 ≤ q.units) ∧ ∀ q ∈ (inOrder least most).2, 0 ≤ q.units := by
    intro least most hleast hmost
    unfold inOrder
    split
    · split
      · exact ⟨hmost, hleast⟩
      · exact ⟨hleast, hmost⟩
    · exact ⟨hleast, hmost⟩
  exact hordered (hfirst _) (hfirst _)

/-- A price of which a bound may be null. -/
theorem pruned?_price (least most : Option Quantity) :
    Value.pruned? (.object [("min", orNull (least.map Quantity.toValue)),
        ("max", orNull (most.map Quantity.toValue))]) =
      priceValue (least.map Quantity.toValue) (most.map Quantity.toValue) := by
  cases least with
  | none => cases most with
    | none => rfl
    | some high => cases high <;> rfl
  | some low => cases most with
    | none => cases low <;> rfl
    | some high => cases low <;> cases high <;> rfl

theorem trimmed_query (params : Fields) : Trimmed (query params).toList := by
  unfold query
  dsimp only
  split
  · exact ⟨nofun, nofun⟩
  · rw [String.toList_ofList]
    exact trimmed_trim _

/-- Of a field that is no list, what is not vacuous is left. -/
theorem get?_coerce (name : String) {v : Value} (h : name ∉ listFields)
    (hget : Fields.get? (rawParams params) name = some v) :
    Fields.get? (coerce params) name = Value.pruned? v := by
  rw [coerce, get?_normalize_other (nodup_rawParams params) h, hget]
  rfl

theorem get?_coerce_price (params : Fields) : Fields.get? (coerce params) "price" =
    priceValue ((priceBounds params).1.map Quantity.toValue) ((priceBounds params).2.map Quantity.toValue) :=
  (get?_coerce "price" (by decide) rfl).trans (pruned?_price _ _)

/-- **Parameters give filters of one form.** -/
theorem coerced_coerce (params : Fields) : Coerced (coerce params) := by
  have hn := nodup_rawParams params
  constructor
  case nodup => exact nodup_normalize hn
  case others =>
    have hknown : ∀ key ∈ Fields.keys (rawParams params),
        key ∈ (listFields ++ "price" :: scalarFields).map Key.text := by
      rw [keys_rawParams]
      decide
    intro key hkey
    apply get?_normalize_none
    apply Classical.byContradiction
    intro hne
    exact hkey (hknown key ((Fields.mem_keys_iff _ key).mpr hne))
  case tokens =>
    intro name h
    obtain ⟨xs, hxs, hget⟩ := @exists_list params name h
    exact ⟨tidied name xs, piece_of_mem_tidied hxs, get?_normalize_list hn h hget⟩
  case query => exact ⟨query params, trimmed_query params, get?_coerce "q" (by decide) rfl⟩
  case price => exact ⟨_, _, isRange_priceBounds params, get?_coerce_price params⟩
  case inStock =>
    refine ⟨truth? (firstGiven params ["in_stock", "inStock"]), ?_⟩
    rw [get?_coerce "in_stock" (by decide) rfl]
    cases truth? (firstGiven params ["in_stock", "inStock"]) <;> rfl
  case sort =>
    refine ⟨sortOrder (Fields.value params "sort") (!(query params).isEmpty), ?_⟩
    rw [get?_coerce "sort" (by decide) rfl]
    cases sortOrder (Fields.value params "sort") (!(query params).isEmpty) <;> rfl
  case page => exact ⟨Fields.value params "page", get?_coerce "page" (by decide) rfl⟩
  case limit => exact ⟨Fields.value params "limit", get?_coerce "limit" (by decide) rfl⟩

/-! ### what is written as a text -/

theorem isWritable_firstGiven (h : Value.haveWritable params = true) (keys : List Key) :
    (firstGiven params keys).isWritable = true := by
  induction keys with
  | nil => rfl
  | cons key keys ih =>
    rw [firstGiven_eq]
    split
    · exact ih
    · exact Value.isWritable_value h key

mutual

theorem isWritable_innermostLast : ∀ v : Value, v.isWritable = true → (innermostLast v).isWritable = true
  | .list items => isWritable_innermostLastOf items
  | .null | .bool _ | .int _ | .float _ | .str _ | .object _ => id

theorem isWritable_innermostLastOf : ∀ items : List Value, Value.areWritable items = true →
    (innermostLastOf items).isWritable = true
  | [] => fun _ => rfl
  | [v] => fun h => isWritable_innermostLast v (Bool.and_eq_true_iff.mp h).1
  | _ :: w :: rest => fun h => isWritable_innermostLastOf (w :: rest) (Bool.and_eq_true_iff.mp h).2

end

/-- What parameters without too long a number give can be written. -/
theorem isWritable_writtenParams (h : Value.haveWritable params = true) :
    ∀ v ∈ writtenParams params, v.isWritable = true := by
  have hfirst := isWritable_firstGiven h
  have hquery : (rawQuery params).isWritable = true := by
    unfold rawQuery
    split
    · rename_i items hlist
      have hitems := hfirst ["q", "query", "text"]
      rw [hlist] at hitems
      exact Value.isWritable_getLast hitems _ rfl
    · exact hfirst _
  have hsingle : (singleId params).isWritable = true := by
    unfold singleId
    split
    · rename_i items hlist
      have hitems := hfirst ["category_id", "categoryId"]
      rw [hlist] at hitems
      cases items with
      | nil => rfl
      | cons v vs => exact (Bool.and_eq_true_iff.mp hitems).1
    · exact hfirst _
  intro v hv
  unfold writtenParams at hv
  simp only [List.mem_append, List.mem_cons, List.not_mem_nil, or_false, List.mem_map] at hv
  rcases hv with ((rfl | rfl | rfl) | ⟨p, -, rfl⟩) | rfl | rfl
  · exact hquery
  · exact hfirst _
  · split
    · exact hsingle
    · rfl
  · exact hfirst _
  · exact isWritable_innermostLast _ (hfirst _)
  · exact isWritable_lastGiven (Value.isWritable_value h _)

/-- The filters from parameters without too long a number. -/
theorem coerceValue_eq (h : Value.haveWritable params = true) :
    coerceValue (.object params) = .ok (coerce params) := by
  unfold coerceValue
  have hwritten := Value.mapM_demandWritable (f := id) (isWritable_writtenParams h)
  show ((writtenParams params).mapM fun v => (id v).demandWritable) >>= (fun _ => .ok (coerce params)) = _
  rw [hwritten]
  rfl

theorem isWritable_bound {bound : Option Quantity} (h : ∀ q ∈ bound, ∃ x, Quantity.ofDouble? x = some q)
    {v : Value} (hv : bound.map Quantity.toValue = some v) : v.isWritable = true := by
  obtain ⟨q, hq, rfl⟩ := Option.map_eq_some_iff.mp hv
  obtain ⟨x, hx⟩ := h q hq
  exact isWritable_of_isDouble (Quantity.isDouble_toValue hx)

/-- Filters of this form can be written. -/
theorem Coerced.haveWritable {filters : Fields} (h : Coerced filters) : Value.haveWritable filters = true := by
  refine (Value.haveWritable_iff filters).mpr fun p hp => ?_
  obtain ⟨k, v⟩ := p
  have hget := Fields.get?_of_mem h.nodup hp
  have hk : k ∈ (listFields ++ "price" :: scalarFields).map Key.text := by
    apply Classical.byContradiction
    intro hne
    rw [h.others k hne] at hget
    cases hget
  obtain ⟨name, hname, rfl⟩ := List.mem_map.mp hk
  simp only [List.mem_append, List.mem_cons, scalarFields, List.not_mem_nil, or_false] at hname
  rcases hname with hlist | rfl | rfl | rfl | rfl | rfl | rfl
  · obtain ⟨xs, -, hxs⟩ := h.tokens name hlist
    rw [hxs] at hget
    unfold listValue at hget
    split at hget
    · cases hget
    · obtain rfl := Option.some.inj hget
      exact Value.isWritable_texts xs
  · obtain ⟨least, most, hrange, hprice⟩ := h.price
    rw [hprice] at hget
    unfold priceValue at hget
    split at hget
    · cases hget
    · obtain rfl := Option.some.inj hget
      refine (Value.haveWritable_iff _).mpr fun p hp => ?_
      rcases mem_boundFields hp with hp | hp
      · exact isWritable_bound hrange.lower hp
      · exact isWritable_bound hrange.upper hp
  · obtain ⟨b, hb⟩ := h.inStock
    rw [hb] at hget
    obtain ⟨t, -, rfl⟩ := Option.map_eq_some_iff.mp hget
    rfl
  · obtain ⟨order, horder⟩ := h.sort
    rw [horder] at hget
    obtain rfl := Option.some.inj hget
    rfl
  · obtain ⟨w, hpage⟩ := h.page
    rw [hpage] at hget
    obtain rfl := Option.some.inj hget
    exact isWritable_of_isDouble (isDouble_page w)
  · obtain ⟨w, hlimit⟩ := h.limit
    rw [hlimit] at hget
    obtain rfl := Option.some.inj hget
    exact isWritable_of_isDouble (isDouble_limit w)
  · obtain ⟨q, -, hq⟩ := h.query
    rw [hq] at hget
    split at hget
    · cases hget
    · obtain rfl := Option.some.inj hget
      rfl

/-! ### lists that are written in different ways -/

/-- The parameters that give lists. -/
def listKeys : List Key :=
  (["fields", "category_ids", "categoryIds"] : List Key) ++ listParams.flatMap (·.2)

/-- The values list the same texts, and either both of them were left blank or neither. -/
structure Alike (v w : Value) : Prop where
  blank : v.isLeftBlank = w.isLeftBlank
  listed : listed v = listed w

/-- Parameters that differ at most in how lists are written. -/
structure SameLists (params others : Fields) : Prop where
  lists : ∀ key ∈ listKeys, Alike (Fields.value params key) (Fields.value others key)
  values : ∀ name : String, Key.text name ∉ listKeys → Fields.value params name = Fields.value others name

variable {others : Fields} {v w : Value}

theorem Alike.refl (v : Value) : Alike v v :=
  ⟨rfl, rfl⟩

/-- Two texts or more, and the same texts joined by commas. -/
theorem alike_joined (first second : String) (rest : List String) :
    Alike (.ofStrings (first :: second :: rest)) (.str (",".intercalate (first :: second :: rest))) where
  blank := by
    have hne : ",".intercalate (first :: second :: rest) ≠ "" := by
      rw [String.intercalate_cons_cons]
      intro he
      simpa using congrArg String.toList he
    exact (Bool.eq_false_iff.mpr fun he => hne (String.isEmpty_iff.mp he)).symm
  listed := by
    rw [listed_texts]
    exact (splitList_intercalate (List.cons_ne_nil _ _)).symm

/-! ### lists in several spellings -/

theorem alike_firstGiven {keys : List Key}
    (h : ∀ key ∈ keys, Alike (Fields.value params key) (Fields.value others key)) :
    Alike (firstGiven params keys) (firstGiven others keys) := by
  induction keys with
  | nil => exact .refl _
  | cons key keys ih =>
    obtain ⟨hkey, hkeys⟩ := List.forall_mem_cons.mp h
    rw [firstGiven_eq, firstGiven_eq, hkey.blank]
    split
    · exact ih hkeys
    · exact hkey

namespace SameLists

/-- Values that give no lists. -/
theorem map_value (h : SameLists params others) (names : List String)
    (hnames : ∀ name ∈ names, Key.text name ∉ listKeys) :
    (names.map Key.text).map (Fields.value params) = (names.map Key.text).map (Fields.value others) := by
  rw [List.map_map, List.map_map]
  exact List.map_congr_left fun name hname => h.values name (hnames name hname)

theorem firstGiven_eq (h : SameLists params others) (names : List String)
    (hnames : ∀ name ∈ names, Key.text name ∉ listKeys) :
    firstGiven params (names.map .text) = firstGiven others (names.map .text) := by
  unfold firstGiven
  rw [h.map_value names hnames]

theorem query_eq (h : SameLists params others) : query params = query others := by
  have hfirst : firstGiven params ["q", "query", "text"] = firstGiven others ["q", "query", "text"] :=
    h.firstGiven_eq ["q", "query", "text"] (by decide)
  unfold query rawQuery
  rw [hfirst]

theorem categoryIds_eq (h : SameLists params others) : categoryIds params = categoryIds others := by
  have hlist : Alike (firstGiven params ["category_ids", "categoryIds"])
      (firstGiven others ["category_ids", "categoryIds"]) :=
    alike_firstGiven fun key hkey => h.lists key <|
      List.mem_append_left _ (List.mem_cons_of_mem _ hkey)
  have hsingle : firstGiven params ["category_id", "categoryId"] =
      firstGiven others ["category_id", "categoryId"] :=
    h.firstGiven_eq ["category_id", "categoryId"] (by decide)
  unfold categoryIds objectIds singleId
  rw [hlist.listed, hsingle]

theorem priceBounds_eq (h : SameLists params others) : priceBounds params = priceBounds others := by
  have hprice := h.values "price" (by decide)
  have hleast := h.map_value ["price_min", "min_price", "minPrice", "priceMin"] (by decide)
  have hmost := h.map_value ["price_max", "max_price", "maxPrice", "priceMax"] (by decide)
  unfold priceBounds
  rw [hprice]
  dsimp only
  simp only [List.map_cons, List.map_nil] at hleast hmost ⊢
  rw [hleast, hmost]

theorem rawParams_eq (h : SameLists params others) : rawParams params = rawParams others := by
  have hlists : ∀ p ∈ listParams, listed (firstGiven params p.2) = listed (firstGiven others p.2) := by
    intro p hp
    refine (alike_firstGiven fun key hkey => h.lists key ?_).listed
    exact List.mem_append_right _ (List.mem_flatMap.mpr ⟨p, hp, hkey⟩)
  have hstock : firstGiven params ["in_stock", "inStock"] = firstGiven others ["in_stock", "inStock"] :=
    h.firstGiven_eq ["in_stock", "inStock"] (by decide)
  unfold rawParams
  rw [h.query_eq, h.priceBounds_eq, h.categoryIds_eq, hstock, h.values "sort" (by decide), h.values "page" (by decide),
    h.values "limit" (by decide)]
  dsimp only
  rw [List.map_congr_left fun p hp => congrArg _ (congrArg Value.ofStrings (hlists p hp))]

theorem without (h : SameLists params others) (key : Key) :
    SameLists (params.without key) (others.without key) where
  lists other hother := by
    rw [Fields.value_without, Fields.value_without]
    split
    · exact .refl _
    · exact h.lists other hother
  values other hother := by
    rw [Fields.value_without, Fields.value_without, h.values other hother]

end SameLists

/-- **Parameters that differ only in how lists are written** give the same filters. -/
theorem coerceValue_of_sameLists (h : SameLists params others) (hparams : Value.haveWritable params = true)
    (hothers : Value.haveWritable others = true) :
    coerceValue (.object params) = coerceValue (.object others) := by
  rw [coerceValue_eq hparams, coerceValue_eq hothers]
  exact congrArg (fun raw => Except.ok (normalize raw)) h.rawParams_eq

end Outfitter.Filters
