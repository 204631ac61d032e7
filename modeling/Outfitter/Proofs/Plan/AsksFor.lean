import Outfitter.Proofs.Filters.Coerced
import Outfitter.Proofs.Filters.Holding
import Outfitter.Proofs.Plan.Order
import Outfitter.Proofs.Value.Same

/-!
A plan asks for what the filters say.

Compiling reads the filters once more. Where parameters have given them, reading changes nothing: the plan
has a stage exactly where there is something in the filters, and the stage asks for exactly that
(`asksFor_compile`).
-/

namespace Outfitter

/-- The values of which a categorical field takes one, if the plan asks for any. -/
def QueryPlan.condition? (plan : QueryPlan) (field : String) : Option Value :=
  match plan.stage? "categorical_match" with
  | some (.categoricalMatch conditions) => (List.lookup field conditions).map .list
  | _ => none

/-- The plan asks for what the filters say, and for nothing else. -/
structure QueryPlan.AsksFor (plan : QueryPlan) (filters : Fields) : Prop where
  categorical : ∀ p ∈ Plan.categoricalFields, plan.condition? p.2 = Fields.get? filters p.1
  searched : "text_search" ∈ plan.kinds ↔ Fields.has filters "q" = true
  text : ∀ query scoreField, .textSearch query scoreField ∈ plan.stages →
    Fields.get? filters "q" = some (.str query)
  matched : "variant_match" ∈ plan.kinds ↔ Fields.has filters "colors" = true ∨
    Fields.has filters "sizes" = true ∨ Fields.get? filters "in_stock" = some (.bool true)
  variants : ∀ colors sizes inStock, .variantMatch colors sizes inStock ∈ plan.stages →
    colors.map .ofStrings = Fields.get? filters "colors" ∧ sizes.map .ofStrings = Fields.get? filters "sizes" ∧
      (inStock = true ↔ Fields.get? filters "in_stock" = some (.bool true))
  priced : "price_match" ∈ plan.kinds ↔ Fields.has filters "price" = true
  price : ∀ least most field, .priceMatch least most field ∈ plan.stages →
    (Value.object (Filters.boundFields (least.map .float) (most.map .float))).same
      (Fields.value filters "price") = true
  sort : Fields.get? filters "sort" = some (.str plan.sort)
  page : Fields.get? filters "page" = some (.int plan.page)
  limit : Fields.get? filters "limit" = some (.int plan.limit)

namespace QueryPlan

variable {plan : QueryPlan} {stage : Plan.Stage} {kind : String}

/-- Of stages of different kinds, each is found by its kind. -/
theorem stage?_of_mem (hn : plan.kinds.Nodup) (h : stage ∈ plan.stages) :
    plan.stage? stage.kind = some stage := by
  unfold kinds at hn
  unfold stage?
  generalize plan.stages = stages at hn h
  induction stages with
  | nil => cases h
  | cons first rest ih =>
    obtain ⟨hfirst, hrest⟩ := List.nodup_cons.mp hn
    rcases List.mem_cons.mp h with rfl | h
    · simp
    · have hne : first.kind ≠ stage.kind := fun he => hfirst (he ▸ List.mem_map_of_mem h)
      rw [List.find?_cons_of_neg (by simpa using hne), ih hrest h]

theorem stage?_of_not_mem (h : kind ∉ plan.kinds) : plan.stage? kind = none := by
  unfold stage?
  rw [List.find?_eq_none]
  intro stage hstage hkind
  apply h
  rw [← eq_of_beq hkind]
  exact List.mem_map_of_mem hstage

end QueryPlan

namespace Plan

open Filters

variable {filters : Fields} {fields : Value}

/-! ### conditions -/

/-- The texts that filters list are listed again as they are. -/
theorem listValue_listed (h : Coerced filters) {name : String} (hname : name ∈ listFields) :
    listValue (listed (Fields.value filters name)) = Fields.get? filters name := by
  obtain ⟨xs, hxs, hget⟩ := h.tokens name hname
  have hlisted : listed (Fields.value filters name) = xs := by
    unfold Fields.value
    rw [hget]
    cases xs with
    | nil => rfl
    | cons x xs => exact listed_ofStrings hxs
  rw [hlisted, hget]

section

variable {names : List (String × String)} (f : String → List String)

/-- The condition on a field that takes one of the values that are listed under a name, if there are any. -/
def conditionOf (p : String × String) : Option (String × List Value) :=
  match f p.1 with
  | [] => none
  | values => some (p.2, values.map .str)

theorem lookup_conditions_none {field : String} (h : field ∉ names.map Prod.snd) :
    List.lookup field (names.filterMap (conditionOf f)) = none := by
  apply Classical.byContradiction
  intro hne
  obtain ⟨c, hc, rfl⟩ := List.mem_map.mp ((Keyed.mem_keys_iff _ field).mpr hne)
  obtain ⟨p, hp, he⟩ := List.mem_filterMap.mp hc
  apply h
  unfold conditionOf at he
  split at he
  · cases he
  · obtain rfl := Option.some.inj he
    exact List.mem_map_of_mem hp

/-- The condition on a field is found by the field. -/
theorem lookup_conditions (hn : (names.map Prod.snd).Nodup) {p : String × String} (hp : p ∈ names) :
    (List.lookup p.2 (names.filterMap (conditionOf f))).map .list = listValue (f p.1) := by
  induction names with
  | nil => cases hp
  | cons first rest ih =>
    obtain ⟨hfirst, hrest⟩ := List.nodup_cons.mp hn
    rcases List.mem_cons.mp hp with rfl | hp
    · have hnone := lookup_conditions_none f hfirst
      cases hf : f p.1 <;> simp [conditionOf, hf, hnone, listValue, Value.ofStrings]
    · have hne : p.2 ≠ first.2 := by
        intro he
        apply hfirst
        simpa only [← he] using List.mem_map_of_mem hp
      rw [← ih hrest hp]
      cases hf : f first.1 <;> simp [conditionOf, hf, Keyed.lookup_cons, hne]

/-- No two conditions are on one field. -/
theorem nodup_conditions (hn : (names.map Prod.snd).Nodup) :
    ((names.filterMap (conditionOf f)).map (·.1)).Nodup := by
  induction names with
  | nil => exact List.nodup_nil
  | cons first rest ih =>
    obtain ⟨hfirst, hrest⟩ := List.nodup_cons.mp hn
    have hnew : first.2 ∉ (rest.filterMap (conditionOf f)).map (·.1) := by
      rw [Keyed.mem_keys_iff]
      exact not_not_intro (lookup_conditions_none f hfirst)
    cases hf : f first.1 with
    | nil =>
      have hnone : conditionOf f first = none := by
        unfold conditionOf
        rw [hf]
      rw [List.filterMap_cons_none hnone]
      exact ih hrest
    | cons text texts =>
      have hsome : conditionOf f first = some (first.2, (text :: texts).map .str) := by
        unfold conditionOf
        rw [hf]
      rw [List.filterMap_cons_some hsome]
      exact List.nodup_cons.mpr ⟨hnew, ih hrest⟩

end

theorem nodup_categoricalConditions (filters : Fields) : ((categoricalConditions filters).map (·.1)).Nodup :=
  nodup_conditions (fun key => listed (Fields.value filters key)) (by decide)

/-- A field is asked for texts. -/
theorem exists_of_mem_categoricalConditions {c : String × List Value} (h : c ∈ categoricalConditions filters) :
    ∃ texts : List String, c.2 = texts.map .str := by
  obtain ⟨p, -, he⟩ := List.mem_filterMap.mp h
  dsimp only at he
  split at he
  · cases he
  · obtain rfl := Option.some.inj he
    exact ⟨_, rfl⟩

/-- A list that is asked for has an item. -/
theorem listValue_isSome {xs : List String} : (listValue xs).isSome = !xs.isEmpty := by
  cases xs <;> rfl

theorem mem_categoricalMatch {conditions : List (String × List Value)} :
    .categoricalMatch conditions ∈ (compile filters fields).stages ↔
      (!(categoricalConditions filters).isEmpty) = true ∧ conditions = categoricalConditions filters := by
  unfold compile
  simp [mem_stageIf]

theorem categoricalMatch_mem_kinds : "categorical_match" ∈ (compile filters fields).kinds ↔
    (!(categoricalConditions filters).isEmpty) = true := by
  unfold QueryPlan.kinds compile
  simp [mem_kinds_stageIf, Stage.kind]

/-- What the plan asks of a categorical field is what the filters list for it. -/
theorem condition?_eq_listed {p : String × String} (hp : p ∈ categoricalFields) :
    (compile filters fields).condition? p.2 = listValue (listed (Fields.value filters p.1)) := by
  have hlookup : (List.lookup p.2 (categoricalConditions filters)).map .list =
      listValue (listed (Fields.value filters p.1)) :=
    lookup_conditions (fun key => listed (Fields.value filters key)) (by decide) hp
  rw [← hlookup]
  unfold QueryPlan.condition?
  cases hc : (!(categoricalConditions filters).isEmpty) with
  | true =>
    have hstage := QueryPlan.stage?_of_mem (nodup_kinds filters fields) (mem_categoricalMatch.mpr ⟨hc, rfl⟩)
    rw [show (compile filters fields).stage? "categorical_match" = _ from hstage]
  | false =>
    have hnot : "categorical_match" ∉ (compile filters fields).kinds := by
      rw [categoricalMatch_mem_kinds, hc]
      exact Bool.false_ne_true
    rw [QueryPlan.stage?_of_not_mem hnot]
    have hnil : categoricalConditions filters = [] := by simpa using hc
    rw [hnil]
    rfl

theorem condition?_compile (h : Coerced filters) {p : String × String} (hp : p ∈ categoricalFields) :
    (compile filters fields).condition? p.2 = Fields.get? filters p.1 := by
  have hlists : ∀ p ∈ categoricalFields, p.1 ∈ listFields := by decide
  rw [condition?_eq_listed hp, listValue_listed h (hlists p hp)]

/-! ### the text and the variants -/

/-- The text that filters say is searched for as it is. -/
theorem get?_query (h : Coerced filters) : Fields.get? filters "q" =
    if (queryText filters).isEmpty then none else some (.str (queryText filters)) := by
  obtain ⟨q, htrimmed, hget⟩ := h.query
  have hread : queryText filters = q := by
    unfold queryText Fields.value
    rw [hget]
    by_cases hq : q.isEmpty = true
    · rw [if_pos hq]
      exact (String.isEmpty_iff.mp hq).symm
    · rw [if_neg hq]
      show String.ofList (Text.trim q.toList) = q
      rw [Text.trim_of_trimmed htrimmed, String.ofList_toList]
  rw [hread, hget]

theorem mem_textSearch {query scoreField : String} :
    .textSearch query scoreField ∈ (compile filters fields).stages ↔
      (!(queryText filters).isEmpty) = true ∧ query = queryText filters ∧ scoreField = textScoreField := by
  unfold compile
  simp [mem_stageIf]

theorem textSearch_mem_kinds :
    "text_search" ∈ (compile filters fields).kinds ↔ (!(queryText filters).isEmpty) = true := by
  unfold QueryPlan.kinds compile
  simp [mem_kinds_stageIf, Stage.kind]

/-- Only what is in stock is asked for. -/
def wantsStock (filters : Fields) : Bool :=
  match Fields.value filters "in_stock" with
  | .bool true => true
  | _ => false

theorem wantsStock_iff : wantsStock filters = true ↔ Fields.get? filters "in_stock" = some (.bool true) := by
  unfold wantsStock Fields.value
  cases Fields.get? filters "in_stock" with
  | none => simp
  | some v =>
    cases v with
    | bool b => cases b <;> simp
    | _ => simp

theorem mem_variantMatch {colors sizes : Option (List String)} {inStock : Bool} :
    .variantMatch colors sizes inStock ∈ (compile filters fields).stages →
      colors = someList (listed (Fields.value filters "colors")) ∧
        sizes = someList (listed (Fields.value filters "sizes")) ∧ inStock = wantsStock filters := by
  unfold compile
  simp only [List.mem_append, List.mem_cons, List.not_mem_nil, mem_stageIf, reduceCtorEq,
    Stage.variantMatch.injEq, and_false, or_false, false_or]
  exact And.right

theorem variantMatch_mem_kinds : "variant_match" ∈ (compile filters fields).kinds ↔
    (!(listed (Fields.value filters "colors")).isEmpty || !(listed (Fields.value filters "sizes")).isEmpty ||
      wantsStock filters) = true := by
  unfold QueryPlan.kinds compile
  simp only [List.map_append, List.map_cons, List.map_nil, List.mem_append, List.mem_cons, List.not_mem_nil,
    mem_kinds_stageIf, Stage.kind, String.reduceEq, and_true, and_false, or_false, false_or]
  exact Iff.rfl

theorem has_list (h : Coerced filters) {name : String} (hname : name ∈ listFields) :
    Fields.has filters name = !(listed (Fields.value filters name)).isEmpty := by
  unfold Fields.has
  rw [← listValue_listed h hname, listValue_isSome]

theorem map_someList (xs : List String) : (someList xs).map Value.ofStrings = listValue xs := by
  cases xs <;> rfl

/-! ### the price -/

theorem laterBound_nil (delta : Value) (key : String) : laterBound (.object []) delta key = delta.get key := by
  unfold laterBound
  cases delta.get key <;> rfl

/-- A range is read from a price in which it is written. -/
theorem priceBounds_priceValue {least most : Option Quantity} (h : IsRange least most) :
    priceBounds ((priceValue (least.map Quantity.toValue) (most.map Quantity.toValue)).getD .null) =
      (least, most) := by
  have hread : ∀ bound : Option Quantity, (∀ q ∈ bound, ∃ x, Quantity.ofDouble? x = some q) →
      boundQuantity? ((bound.map Quantity.toValue).getD .null) = bound := by
    intro bound hbound
    cases bound with
    | none => rfl
    | some q =>
      obtain ⟨x, hx⟩ := hbound q rfl
      exact boundQuantity?_toValue hx
  have hinOrder : ∀ price, priceBounds price = inOrder (bound? (mergePrice (.object []) price) "min")
      (bound? (mergePrice (.object []) price) "max") := fun _ => rfl
  rw [hinOrder, mergePrice_boundFields, laterBound_nil, laterBound_nil, get_min, get_max, hread least h.lower,
    hread most h.upper]
  unfold bound? Fields.value
  rw [get?_boundFields, get?_boundFields, if_pos rfl, if_neg (by decide), if_pos rfl, hread least h.lower,
    hread most h.upper]
  exact h.inOrder

/-- A double that was made from a quantity counts the same as the number that the quantity is written by. -/
theorem same_double {x : Double} {q : Quantity} (h : Quantity.ofDouble? x = some q) :
    (Value.float (double q)).same q.toValue = true := by
  obtain ⟨y, hy, hunits⟩ := exists_double h
  have hfloat : (Value.float (.finite y)).units? = some q.units := by rw [← hunits, Value.units?]
  have hwritten : q.toValue.units? = some q.units := by
    cases q <;> rfl
  rw [hy]
  exact Value.same_of_units hfloat hwritten

/-- The bounds that are matched are equal by value to the bounds that are written. -/
theorem same_boundFields {least most : Option Quantity} (h : IsRange least most) :
    (Value.object (boundFields ((least.map double).map .float) ((most.map double).map .float))).same
      (.object (boundFields (least.map Quantity.toValue) (most.map Quantity.toValue))) = true := by
  have hbound : ∀ bound : Option Quantity, (∀ q ∈ bound, ∃ x, Quantity.ofDouble? x = some q) →
      Option.Rel (fun v w => v.same w = true) ((bound.map double).map Value.float)
        (bound.map Quantity.toValue) := by
    intro bound hbound
    cases bound with
    | none => exact .none
    | some q =>
      obtain ⟨x, hx⟩ := hbound q rfl
      exact .some (same_double hx)
  refine Value.same_object (nodup_boundFields ..) (nodup_boundFields ..) fun key => ?_
  rw [get?_boundFields, get?_boundFields]
  split
  · exact hbound least h.lower
  · split
    · exact hbound most h.upper
    · exact .none

/-- **A plan for filters that parameters have given asks for what they say.** -/
theorem asksFor_compile (h : Coerced filters) (fields : Value) : (compile filters fields).AsksFor filters := by
  constructor
  case categorical => exact fun p hp => condition?_compile h hp
  case searched =>
    rw [textSearch_mem_kinds]
    unfold Fields.has
    rw [get?_query h]
    cases (queryText filters).isEmpty <;> simp
  case text =>
    intro query scoreField hstage
    obtain ⟨hne, rfl, -⟩ := mem_textSearch.mp hstage
    rw [get?_query h]
    exact if_neg (by simpa using hne)
  case matched =>
    rw [variantMatch_mem_kinds, has_list h (by decide), has_list h (by decide), ← wantsStock_iff]
    simp [or_assoc]
  case variants =>
    intro colors sizes inStock hstage
    obtain ⟨rfl, rfl, rfl⟩ := mem_variantMatch hstage
    rw [map_someList, map_someList, listValue_listed h (by decide), listValue_listed h (by decide), wantsStock_iff]
    exact ⟨rfl, rfl, Iff.rfl⟩
  case priced =>
    obtain ⟨least, most, hrange, hget⟩ := h.price
    rw [priceMatch_mem_kinds]
    unfold isPriced Fields.has Fields.value
    rw [hget, priceBounds_priceValue hrange]
    cases least <;> cases most <;> simp [priceValue]
  case price =>
    intro low high field hstage
    obtain ⟨least, most, hrange, hget⟩ := h.price
    obtain ⟨hpriced, hlow, hhigh, -⟩ := mem_priceMatch.mp hstage
    unfold isPriced Fields.value at hpriced
    unfold Fields.value at hlow hhigh ⊢
    rw [hget, priceBounds_priceValue hrange] at hpriced hlow hhigh
    have hvalue : priceValue (least.map Quantity.toValue) (most.map Quantity.toValue) =
        some (.object (boundFields (least.map Quantity.toValue) (most.map Quantity.toValue))) := by
      cases least <;> cases most <;> first | rfl | cases hpriced
    rw [hget, hvalue, hlow, hhigh]
    exact same_boundFields hrange
  case sort =>
    obtain ⟨order, hget⟩ := h.sort
    rw [sort_compile, Fields.value_of_get? hget, sortOrder_name]
    exact hget
  case page =>
    obtain ⟨v, hget⟩ := h.page
    rw [page_compile, Fields.value_of_get? hget, page_page]
    exact hget
  case limit =>
    obtain ⟨v, hget⟩ := h.limit
    rw [limit_compile, Fields.value_of_get? hget, limit_limit]
    exact hget

end Plan

end Outfitter
