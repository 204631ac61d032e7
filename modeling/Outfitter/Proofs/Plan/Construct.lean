import Outfitter.Plan.Construct
import Outfitter.Proofs.Filters.Scalars
import Outfitter.Proofs.Journal.Writable
import Outfitter.Proofs.Schema.Payload

/-!
Every plan can be constructed.

A stage is only made where there is something to ask for, and then it passes the check of its kind. So
constructing the plan for filters that can be written does not fail, and comes to the plan that is compiled
(`construct_eq`).
-/

namespace Outfitter

namespace Plan

open Schema Filters

variable {filters : Fields} {fields : Value}

/-! ### stages that pass their checks -/

/-- A list or an object of values of any kind is checked to be what it is. -/
theorem listOf_anything (values : List Value) : listOf Stage.anything (.list values) = .ok values := by
  have hlist : listOf Stage.anything (.list (values.map id)) = .ok (values.map id) := listOf_map fun _ _ => rfl
  rwa [List.map_id] at hlist

section

variable {record : Fields}

theorem ofKind_categoricalMatch {conditions : List (String × List Value)}
    (hget : Fields.get? record "conditions" = some (.object (conditionFields conditions)))
    (h : (!conditions.isEmpty) = true) :
    Stage.ofKind "categorical_match" record = .ok (.categoricalMatch conditions) := by
  have hobject : objectOf (listOf Stage.anything) (.object (conditionFields conditions)) = .ok conditions :=
    (objectOf_map (g := id) fun p _ => listOf_anything p.2).trans (congrArg Checked.ok (List.map_id conditions))
  unfold Stage.ofKind
  dsimp only
  rw [required_present hget hobject]
  exact if_neg (Bool.not_eq_true _ ▸ Bool.not_eq_true' _ ▸ h)

theorem ofKind_textSearch {query scoreField : String} (hget : Fields.get? record "query" = some (.str query))
    (hfield : optional record ["score_field"] textScoreField text = .ok scoreField) (h : (!query.isEmpty) = true) :
    Stage.ofKind "text_search" record = .ok (.textSearch query scoreField) := by
  have hquery : textAtLeast 1 (.str query) = .ok query := by
    refine if_neg fun hshort => ?_
    obtain rfl : query = "" := String.length_eq_zero_iff.mp (by omega)
    cases h
  unfold Stage.ofKind
  dsimp only
  rw [required_present hget hquery, hfield]
  rfl

/-- An optional list of texts is checked to be what it is. -/
theorem orNone_texts (values : Option (List String)) :
    orNone texts (Stage.optionalValue .ofStrings values) = .ok values := by
  cases values with
  | none => rfl
  | some xs => exact orNone_ok nofun (texts_ofStrings xs)

theorem isBare_someList (values : List String) : Stage.isBare (someList values) = values.isEmpty := by
  cases values <;> rfl

theorem ofKind_variantMatch {colors sizes : Option (List String)} {inStock : Bool}
    (hcolors : Fields.get? record "colors" = some (Stage.optionalValue .ofStrings colors))
    (hsizes : Fields.get? record "sizes" = some (Stage.optionalValue .ofStrings sizes))
    (hstock : Fields.get? record "in_stock" = some (.bool inStock))
    (h : (Stage.isBare colors && Stage.isBare sizes && !inStock) = false) :
    Stage.ofKind "variant_match" record = .ok (.variantMatch colors sizes inStock) := by
  unfold Stage.ofKind
  dsimp only
  rw [optional_present hcolors _ (orNone_texts _), optional_present hsizes _ (orNone_texts _),
    optional_present hstock _ (a := inStock) rfl]
  exact if_neg (Bool.not_eq_true _ ▸ h)

theorem ofKind_derivedMinPrice {field : String} (hfield : optional record ["field"] minPriceField text = .ok field) :
    Stage.ofKind "derived_min_price" record = .ok (.derivedMinPrice field) := by
  unfold Stage.ofKind
  dsimp only
  rw [hfield]
  rfl

/-- A quantity that is a double exactly is checked to be this double. -/
theorem number_toValue {q : Quantity} (h : q.toValue.isDouble = true) :
    number q.toValue = .ok (double q) := by
  cases q with
  | fraction => rfl
  | whole n =>
    obtain ⟨x, hx, -⟩ := Value.isDouble_int.mp h
    unfold Quantity.toValue double number
    dsimp only
    rw [hx]

/-- The check of a bound that may be left out. -/
theorem optional_bound {bounds : Fields} {name : String} {bound : Option Quantity}
    (hget : Fields.get? bounds name = bound.map Quantity.toValue)
    (h : ∀ q ∈ bound, ∃ x, Quantity.ofDouble? x = some q) :
    optional bounds [name] none (orNone number) = .ok (bound.map double) := by
  cases bound with
  | none => exact optional_absent _ _ fun _ hother => List.mem_singleton.mp hother ▸ hget
  | some q =>
    obtain ⟨x, hx⟩ := h q rfl
    refine optional_present hget _ (orNone_ok ?_ (number_toValue (Quantity.isDouble_toValue hx)))
    cases q <;> exact nofun

theorem ofKind_priceMatch {least most : Option Double} {field : String}
    (hleast : optional record ["min"] none (orNone number) = .ok least)
    (hmost : optional record ["max"] none (orNone number) = .ok most)
    (hfield : optional record ["field"] minPriceField text = .ok field) (h : (least.isSome || most.isSome) = true) :
    Stage.ofKind "price_match" record = .ok (.priceMatch least most field) := by
  have hnone : ¬ (least.isNone && most.isNone) = true := by
    cases least
    · cases most
      · cases h
      · exact nofun
    · cases most <;> exact nofun
  unfold Stage.ofKind
  dsimp only
  rw [hleast, hmost, hfield]
  exact if_neg hnone

/-- A field and its direction are checked to be what they are. -/
theorem sortKey_sortPair (key : String × Direction) : Stage.sortKey (sortPair key) = .ok key := by
  obtain ⟨field, d⟩ := key
  have hd : Stage.direction (.int d.sign) = .ok d := by
    cases d <;> rfl
  show (·, ·) <$> Checked.part (.item 0) text (.str field) <*>
    Checked.part (.item 1) Stage.direction (.int d.sign) = _
  rw [part_ok _ hd]
  rfl

theorem ofKind_sort {keys : List (String × Direction)}
    (hget : Fields.get? record "keys" = some (.list (keys.map sortPair))) (h : keys ≠ []) :
    Stage.ofKind "sort" record = .ok (.sort keys) := by
  have hlist : listOf Stage.sortKey (.list (keys.map sortPair)) = .ok (keys.map id) :=
    listOf_map fun key _ => sortKey_sortPair key
  rw [List.map_id] at hlist
  have hkeys : Stage.sortKeysOf (.list (keys.map sortPair)) = .ok keys := by
    unfold Stage.sortKeysOf
    rw [hlist]
    exact if_neg fun hempty => h (List.isEmpty_iff.mp hempty)
  unfold Stage.ofKind
  dsimp only
  rw [required_present hget hkeys]
  rfl

/-- The check of a count that is not below the least one. -/
theorem count_int {least : Int} {n : Nat} (h : least ≤ n) : Stage.count least (.int n) = .ok n := by
  have hwithin : wholeWithin least none (.int n) = .ok n := if_neg (Int.not_lt.mpr h)
  unfold Stage.count
  rw [hwithin]
  rfl

theorem ofKind_skip {n : Nat} (hget : Fields.get? record "count" = some (.int n)) :
    Stage.ofKind "skip" record = .ok (.skip n) := by
  unfold Stage.ofKind
  dsimp only
  rw [required_present hget (count_int (Int.natCast_nonneg n))]
  rfl

theorem ofKind_limit {n : Nat} (hget : Fields.get? record "count" = some (.int n)) (h : 1 ≤ n) :
    Stage.ofKind "limit" record = .ok (.limit n) := by
  have hone : (1 : Int) ≤ n := Int.ofNat_le.mpr h
  unfold Stage.ofKind
  dsimp only
  rw [required_present hget (count_int hone)]
  rfl

theorem ofKind_projection {projected : List (String × Value)}
    (hget : Fields.get? record "projection" = some (.object (Fields.ofNamed projected)))
    (h : (!projected.isEmpty) = true) : Stage.ofKind "projection" record = .ok (.projection projected) := by
  have hobject : objectOf Stage.anything (.object (Fields.ofNamed projected)) = .ok (projected.map id) :=
    objectOf_map (f := id) (g := id) fun _ _ => rfl
  rw [List.map_id] at hobject
  unfold Stage.ofKind
  dsimp only
  rw [required_present hget hobject]
  exact if_neg (Bool.not_eq_true _ ▸ Bool.not_eq_true' _ ▸ h)

end

/-! ### the plan -/

/-- The stage that matches variants, as it is constructed. -/
theorem construct_variantMatch {colors sizes : List String} {inStock : Bool}
    (h : (!colors.isEmpty || !sizes.isEmpty || inStock) = true) :
    Stage.ofKind "variant_match" [("colors", Stage.optionalValue .ofStrings (someList colors)),
        ("sizes", Stage.optionalValue .ofStrings (someList sizes)), ("in_stock", .bool inStock)] =
      .ok (.variantMatch (someList colors) (someList sizes) inStock) := by
  refine ofKind_variantMatch rfl rfl rfl ?_
  rw [isBare_someList, isBare_someList]
  revert h
  cases colors.isEmpty <;> cases sizes.isEmpty <;> cases inStock <;> decide

/-- The stage that matches prices, as it is constructed. -/
theorem construct_priceMatch {least most : Option Quantity} (h : (least.isSome || most.isSome) = true)
    (hrange : IsRange least most) :
    Stage.ofKind "price_match" (Fields.ofOption "min" (least.map Quantity.toValue) ++
        Fields.ofOption "max" (most.map Quantity.toValue)) =
      .ok (.priceMatch (least.map double) (most.map double) minPriceField) := by
  obtain ⟨bounds, hbounds, hmin, hmax, hfield⟩ : ∃ bounds : Fields,
      bounds = Fields.ofOption "min" (least.map Quantity.toValue) ++
        Fields.ofOption "max" (most.map Quantity.toValue) ∧
      Fields.get? bounds "min" = least.map Quantity.toValue ∧
      Fields.get? bounds "max" = most.map Quantity.toValue ∧ Fields.get? bounds "field" = none := by
    refine ⟨_, rfl, ?_⟩
    cases least <;> cases most <;> exact ⟨rfl, rfl, rfl⟩
  have hdefault : optional bounds ["field"] minPriceField text = .ok minPriceField :=
    optional_absent _ _ fun _ hname => List.mem_singleton.mp hname ▸ hfield
  rw [← hbounds]
  refine ofKind_priceMatch (optional_bound hmin hrange.lower) (optional_bound hmax hrange.upper) hdefault ?_
  rwa [Option.isSome_map, Option.isSome_map]

/-- What came to something goes on. -/
theorem bind_ok {ε α β : Type} (a : α) (f : α → Except ε β) : (Except.ok a >>= f) = f a :=
  rfl

/-- What went on to something came to something first. -/
theorem exists_of_bind {ε α β : Type} {x : Except ε α} {f : α → Except ε β} {b : β}
    (h : (x >>= f) = .ok b) : ∃ a, x = .ok a ∧ f a = .ok b := by
  cases x with
  | error => cases h
  | ok a => exact ⟨a, rfl, h⟩

theorem exists_of_map {ε α β : Type} {x : Except ε α} {f : α → β} {b : β} (h : x.map f = .ok b) :
    ∃ a, x = .ok a ∧ f a = b := by
  cases x with
  | error => cases h
  | ok a => exact ⟨a, rfl, Except.ok.inj h⟩

/-- A stage that passes its check where it is wanted. -/
theorem checkedStage_eq {wanted : Bool} {kind : String} {args : Fields} {stage : Stage}
    (h : wanted = true → Stage.ofKind kind args = .ok stage) :
    checkedStage wanted kind args = .ok (stageIf wanted stage) := by
  cases wanted with
  | false => rfl
  | true =>
    unfold checkedStage
    rw [if_pos rfl, h rfl]
    rfl

/-- What compiling the filters writes as a text can be written. -/
structure Askable (filters : Fields) : Prop where
  lists : ∀ name ∈ categoricalFields.map Prod.fst ++ ["colors", "sizes"],
    (Fields.value filters name).isWritable = true
  query : (Fields.value filters "q").isWritable = true
  sort : (lastGiven (Fields.value filters "sort")).isWritable = true

theorem askable_of_haveWritable (h : Value.haveWritable filters = true) : Askable filters where
  lists _ _ := Value.isWritable_value h _
  query := Value.isWritable_value h _
  sort := isWritable_lastGiven (Value.isWritable_value h _)

theorem demandConditions_eq (h : Askable filters) :
    demandConditions filters = .ok (categoricalConditions filters) := by
  unfold demandConditions
  rw [Value.mapM_demandWritable fun _ hnames =>
    h.lists _ (List.mem_append_left _ (List.mem_map_of_mem hnames))]
  rfl

theorem demandList_eq {v : Value} (h : v.isWritable = true) : demandList v = .ok (listed v) := by
  unfold demandList
  rw [Value.demandWritable_of_isWritable h]
  rfl

theorem demandProjection_eq (h : fields.isWritable = true) :
    demandProjection fields = .ok (projectionFields fields) := by
  unfold demandProjection
  split
  · rfl
  · rw [Value.demandWritable_of_isWritable h]
    rfl

theorem isRange_priceBounds (price : Value) : IsRange (priceBounds price).1 (priceBounds price).2 :=
  isRange_inOrder (fun _ => exists_of_boundQuantity) fun _ => exists_of_boundQuantity

theorem sortKeys_ne_nil (sort : String) (hasQuery : Bool) : sortKeys sort hasQuery ≠ [] := by
  unfold sortKeys
  dsimp only
  split
  · cases hasQuery <;> exact nofun
  all_goals exact nofun

/-- The products on the pages before a page. -/
theorem skipped_eq {page limit : Nat} (h : 1 ≤ page) :
    max 0 (((page : Int) - 1) * limit) = (((page - 1) * limit : Nat) : Int) := by
  rw [Int.natCast_mul, Int.natCast_sub h]
  exact Int.max_eq_right (Int.mul_nonneg (by omega) (by omega))

/-- **The plan for what can be written is constructed as it is compiled.** -/
theorem construct_of_askable (hfilters : Askable filters)
    (hfields : demandProjection fields = .ok (projectionFields fields)) :
    construct filters fields = .ok (compile filters fields) := by
  have hrange := isRange_priceBounds (Fields.value filters "price")
  have hlimit := (limit_bounds (Fields.value filters "limit")).1
  unfold construct compile
  dsimp only
  generalize hbounds : priceBounds (Fields.value filters "price") = bounds at *
  obtain ⟨least, most⟩ := bounds
  dsimp only at *
  rw [demandConditions_eq hfilters, Value.demandWritable_of_isWritable hfilters.query,
    demandList_eq (hfilters.lists "colors" (by decide)), demandList_eq (hfilters.lists "sizes" (by decide)),
    Value.demandWritable_of_isWritable hfilters.sort, hfields,
    skipped_eq (one_le_page _)]
  simp only [bind_ok]
  rw [checkedStage_eq (ofKind_categoricalMatch rfl),
    checkedStage_eq (ofKind_textSearch rfl (optional_absent _ _ fun _ hname => List.mem_singleton.mp hname ▸ rfl)),
    checkedStage_eq construct_variantMatch, checkedStage_eq fun _ => rfl,
    checkedStage_eq fun h => construct_priceMatch h hrange,
    checkedStage_eq fun _ => ofKind_sort rfl (sortKeys_ne_nil _ _), checkedStage_eq fun _ => ofKind_skip rfl,
    checkedStage_eq fun _ => ofKind_limit rfl hlimit, checkedStage_eq (ofKind_projection rfl)]
  rfl

theorem construct_eq (hfilters : Value.haveWritable filters = true) (hfields : fields.isWritable = true) :
    construct filters fields = .ok (compile filters fields) :=
  construct_of_askable (askable_of_haveWritable hfilters) (demandProjection_eq hfields)

theorem lists_of_demandConditions {conditions : List (String × List Value)}
    (h : demandConditions filters = .ok conditions) :
    ∀ name ∈ categoricalFields.map Prod.fst, (Fields.value filters name).isWritable = true := by
  unfold demandConditions at h
  obtain ⟨_, hconditions, -⟩ := exists_of_map h
  intro name hname
  obtain ⟨names, hnames, rfl⟩ := List.mem_map.mp hname
  exact Value.isWritable_of_mapM_demandWritable hconditions names hnames

theorem isWritable_of_demandList {v : Value} {texts : List String} (h : demandList v = .ok texts) :
    v.isWritable = true := by
  obtain ⟨_, hv, -⟩ := exists_of_map h
  exact Value.isWritable_of_demandWritable hv

theorem eq_of_demandProjection {projected : List (String × Value)} (h : demandProjection fields = .ok projected) :
    projected = projectionFields fields := by
  unfold demandProjection at h
  split at h
  · exact (Except.ok.inj h).symm
  · obtain ⟨v, hv, rfl⟩ := exists_of_map h
    rw [Value.demandWritable_of_isWritable (Value.isWritable_of_demandWritable hv)] at hv
    rw [Except.ok.inj hv]

/-- **Filters that have a plan can be written where the plan asks for something**, and so can the projection. -/
theorem askable_of_construct {plan : QueryPlan} (h : construct filters fields = .ok plan) :
    Askable filters ∧ demandProjection fields = .ok (projectionFields fields) := by
  unfold construct at h
  obtain ⟨_, hconditions, h⟩ := exists_of_bind h
  obtain ⟨_, -, h⟩ := exists_of_bind h
  obtain ⟨_, hquery, h⟩ := exists_of_bind h
  obtain ⟨_, -, h⟩ := exists_of_bind h
  obtain ⟨_, hcolors, h⟩ := exists_of_bind h
  obtain ⟨_, hsizes, h⟩ := exists_of_bind h
  obtain ⟨_, -, h⟩ := exists_of_bind h
  obtain ⟨_, hsort, h⟩ := exists_of_bind h
  -- the price, the order and the page are not asked for a text
  obtain ⟨_, -, h⟩ := exists_of_bind h
  obtain ⟨_, -, h⟩ := exists_of_bind h
  obtain ⟨_, -, h⟩ := exists_of_bind h
  obtain ⟨_, -, h⟩ := exists_of_bind h
  obtain ⟨_, -, h⟩ := exists_of_bind h
  obtain ⟨projected, hprojected, -⟩ := exists_of_bind h
  obtain rfl := eq_of_demandProjection hprojected
  refine ⟨⟨fun name hname => ?_, Value.isWritable_of_demandWritable hquery,
    Value.isWritable_of_demandWritable hsort⟩, hprojected⟩
  rcases List.mem_append.mp hname with hname | hname
  · exact lists_of_demandConditions hconditions name hname
  · simp only [List.mem_cons, List.not_mem_nil, or_false] at hname
    rcases hname with rfl | rfl
    · exact isWritable_of_demandList hcolors
    · exact isWritable_of_demandList hsizes

theorem constructValue_eq {filters : Value} (hfilters : filters.isWritable = true)
    (hfields : fields.isWritable = true) :
    constructValue filters fields = .ok (compileValue filters fields) := by
  have hwritable : Value.haveWritable (filters.fields?.getD []) = true := by
    cases filters with
    | object filters => exact hfilters
    | _ => rfl
  exact construct_eq hwritable hfields

end Plan

end Outfitter
