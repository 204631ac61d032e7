import Outfitter.Proofs.Catalog.Listing
import Outfitter.Proofs.Documents.Matching
import Outfitter.Proofs.Documents.Pricing

/-!
What the pipeline of a plan means.

The documents that come through the pipeline for some filters are those of the products that the filters ask
for (`passes_iff_meets`). Each stage is read and run by itself, and what the stages let through is joined.
-/

namespace Outfitter.Documents

open Filters Plan

variable {engine : Engine} {doc doc' doc'' filters : Fields} {P Q : Prop} {p : Product}

/-! ### stages side by side -/

/-- The values are operations that let the document through if the condition holds, and turn it into the
second one. -/
def Lets (engine : Engine) (pipeline : List Value) (doc : Fields) (P : Prop) (doc' : Fields) : Prop :=
  ∃ ops, readAll? pipeline = some ops ∧ (P → runAll engine ops doc = some (some doc')) ∧
    (¬ P → runAll engine ops doc = some none)

theorem lets_nil : Lets engine [] doc True doc :=
  ⟨[], rfl, fun _ => rfl, fun h => absurd trivial h⟩

theorem Lets.congr {pipeline : List Value} (h : Lets engine pipeline doc P doc') (hP : P ↔ Q) :
    Lets engine pipeline doc Q doc' := by
  obtain ⟨ops, hread, hthrough, hout⟩ := h
  exact ⟨ops, hread, fun hq => hthrough (hP.mpr hq), fun hq => hout fun hp => hq (hP.mp hp)⟩

theorem runAll_append (first second : List Operation) (doc : Fields) :
    runAll engine (first ++ second) doc =
      (runAll engine first doc).bind fun result => result.elim (some none) (runAll engine second) := by
  induction first generalizing doc with
  | nil => rfl
  | cons op ops ih =>
    rw [List.cons_append, runAll, runAll]
    cases op.run engine doc with
    | none => rfl
    | some result =>
      cases result with
      | none => rfl
      | some doc => exact ih doc

theorem Lets.append {first second : List Value} (hfirst : Lets engine first doc P doc')
    (hsecond : Lets engine second doc' Q doc'') : Lets engine (first ++ second) doc (P ∧ Q) doc'' := by
  obtain ⟨ops, hread, hthrough, hout⟩ := hfirst
  obtain ⟨ops', hread', hthrough', hout'⟩ := hsecond
  refine ⟨ops ++ ops', ?_, fun ⟨hp, hq⟩ => ?_, fun h => ?_⟩
  · unfold readAll? at *
    rw [List.mapM_append, hread, hread']
    rfl
  · rw [runAll_append, hthrough hp]
    exact hthrough' hq
  · rw [runAll_append]
    by_cases hp : P
    · rw [hthrough hp]
      exact hout' fun hq => h ⟨hp, hq⟩
    · rw [hout hp]
      rfl

theorem Lets.passes {pipeline : List Value} (h : Lets engine pipeline doc P doc') :
    ∃ through, passes engine pipeline doc = some through ∧ (through = true ↔ P) := by
  obtain ⟨ops, hread, hthrough, hout⟩ := h
  by_cases hp : P
  · refine ⟨true, ?_, iff_of_true rfl hp⟩
    unfold Documents.passes
    rw [hread]
    exact congrArg (·.bind fun result => some result.isSome) (hthrough hp)
  · refine ⟨false, ?_, iff_of_false Bool.false_ne_true hp⟩
    unfold Documents.passes
    rw [hread]
    exact congrArg (·.bind fun result => some result.isSome) (hout hp)

/-- The operations of a stage, if it is wanted. -/
def operationsIf (wanted : Bool) (stage : Stage) : List Value :=
  (stageIf wanted stage).flatMap Stage.operations

theorem lets_operationsIf (wanted : Bool) {stage : Stage}
    (h : wanted = true → Lets engine stage.operations doc P doc) :
    Lets engine (operationsIf wanted stage) doc (wanted = true → P) doc := by
  cases wanted with
  | false => exact lets_nil.congr (iff_of_true trivial nofun)
  | true =>
    have hone : operationsIf true stage = stage.operations := List.append_nil _
    rw [hone]
    exact (h rfl).congr (imp_iff_right rfl).symm

/-! ### stages that match -/

theorem read_match {conditions : Fields} {tests : List Condition} (h : readConditions? conditions = some tests) :
    Operation.read? (Stage.single "$match" (.object conditions)) = some (.keep tests) := by
  show Operation.ofMatch? conditions = _
  unfold Operation.ofMatch?
  split
  · cases h
  · rw [h]
    rfl

theorem lets_match {conditions : Fields} {tests : List Condition} (h : readConditions? conditions = some tests) :
    Lets engine [Stage.single "$match" (.object conditions)] doc (meets tests (.object doc) = true) doc := by
  refine ⟨[.keep tests], ?_, fun hp => ?_, fun hp => ?_⟩
  · show ([_] : List Value).mapM Operation.read? = _
    rw [List.mapM_cons, read_match h]
    rfl
  · rw [runAll, Operation.run, if_pos hp]
    rfl
  · rw [runAll, Operation.run, if_neg hp]
    rfl

/-- The texts that filters list for each categorical field. -/
def askedTraits (filters : Fields) : List (String × List String) :=
  categoricalFields.filterMap fun (key, field) =>
    match listed (Fields.value filters key) with
    | [] => none
    | texts => some (field, texts)

theorem categoricalConditions_eq (filters : Fields) :
    categoricalConditions filters = (askedTraits filters).map fun (field, texts) => (field, texts.map .str) := by
  unfold categoricalConditions askedTraits
  rw [List.map_filterMap]
  refine List.filterMap_congr fun pair _ => ?_
  dsimp only
  cases listed (Fields.value filters pair.1) <;> rfl

theorem mem_askedTraits {field : String} {texts : List String} : (field, texts) ∈ askedTraits filters ↔
    texts ≠ [] ∧ ∃ pair ∈ categoricalFields, pair.2 = field ∧ listed (Fields.value filters pair.1) = texts := by
  unfold askedTraits
  rw [List.mem_filterMap]
  constructor
  · rintro ⟨pair, hpair, he⟩
    dsimp only at he
    split at he
    · cases he
    · rename_i hne
      obtain ⟨rfl, rfl⟩ := Prod.mk.inj (Option.some.inj he)
      exact ⟨hne, pair, hpair, rfl, rfl⟩
  · rintro ⟨hne, pair, hpair, rfl, rfl⟩
    refine ⟨pair, hpair, ?_⟩
    dsimp only
    split
    · rename_i hnil
      exact absurd hnil hne
    · rfl

/-- The conditions on categorical fields, read. -/
def traitTests (asked : List (String × List String)) : List Condition :=
  asked.map fun (field, texts) => ([field], [.isIn texts])

theorem read_traits (asked : List (String × List String)) (h : ∀ a ∈ asked, Path.ofText a.1.toList = [a.1]) :
    readConditions? (asked.map fun (field, texts) => (.text field, Stage.isOneOf (texts.map .str))) =
      some (traitTests asked) := by
  induction asked with
  | nil => rfl
  | cons a rest ih =>
    obtain ⟨ha, hrest⟩ := List.forall_mem_cons.mp h
    rw [List.map_cons, read_cons _ (read_isOneOf a.2) (ih hrest), ha]
    rfl

theorem meets_traits (h : p.WrittenIn doc) {asked : List (String × List String)}
    (hasked : ∀ a ∈ asked, ∃ pair ∈ categoricalFields, pair.2 = a.1) :
    meets (traitTests asked) (.object doc) = true ↔ ∀ a ∈ asked, ∃ s ∈ a.2, p.trait a.1 = some (.str s) := by
  induction asked with
  | nil => exact iff_of_true rfl nofun
  | cons a rest ih =>
    obtain ⟨⟨pair, hpair, hfield⟩, hrest⟩ := List.forall_mem_cons.mp hasked
    obtain ⟨hget, hsingle⟩ := h.traits pair hpair
    rw [hfield] at hget hsingle
    show (eachHolds [.isIn a.2] (reach [a.1] (.object doc)) && meets (traitTests rest) (.object doc)) = true ↔ _
    rw [Bool.and_eq_true_iff, ih hrest, holds_isIn hget hsingle, List.forall_mem_cons]

/-- **Categorical fields** take one of the values that the filters list. -/
theorem lets_traits (hf : Coerced filters) (h : p.WrittenIn doc) :
    Lets engine (operationsIf (!(categoricalConditions filters).isEmpty)
        (.categoricalMatch (categoricalConditions filters))) doc
      (∀ pair ∈ categoricalFields, ∀ xs, Fields.get? filters pair.1 = some (.ofStrings xs) →
        ∃ s ∈ xs, p.trait pair.2 = some (.str s)) doc := by
  have hasked : ∀ a ∈ askedTraits filters, ∃ pair ∈ categoricalFields, pair.2 = a.1 := by
    intro a ha
    obtain ⟨-, pair, hpair, hfield, -⟩ := mem_askedTraits.mp ha
    exact ⟨pair, hpair, hfield⟩
  have hpaths : ∀ pair ∈ categoricalFields, Path.ofText pair.2.toList = [pair.2] := by decide
  have hlists : ∀ pair ∈ categoricalFields, pair.1 ∈ listFields := by decide
  have hread := read_traits (askedTraits filters) fun a ha => by
    obtain ⟨pair, hpair, hfield⟩ := hasked a ha
    exact hfield ▸ hpaths pair hpair
  have hoperation : Stage.operations (.categoricalMatch (categoricalConditions filters)) =
      [Stage.single "$match" (.object ((askedTraits filters).map fun (field, texts) =>
        (.text field, Stage.isOneOf (texts.map .str))))] := by
    rw [categoricalConditions_eq, Stage.operations, List.map_map]
    rfl
  have hmatch : Lets engine (Stage.operations (.categoricalMatch (categoricalConditions filters))) doc _ doc :=
    hoperation ▸ (lets_match hread).congr (meets_traits h hasked)
  have hstage := lets_operationsIf (!(categoricalConditions filters).isEmpty) fun _ => hmatch
  refine hstage.congr ⟨fun hall pair hpair xs hxs => ?_, fun hall _ a ha => ?_⟩
  · obtain ⟨hlisted, hne⟩ := listValue_eq_some.mp ((listValue_listed hf (hlists pair hpair)).trans hxs)
    have hmem : (pair.2, xs) ∈ askedTraits filters := mem_askedTraits.mpr ⟨hne, pair, hpair, rfl, hlisted⟩
    refine hall ?_ _ hmem
    rw [categoricalConditions_eq]
    cases hasked' : askedTraits filters with
    | nil =>
      rw [hasked'] at hmem
      cases hmem
    | cons => rfl
  · obtain ⟨hne, pair, hpair, hfield, hlisted⟩ := mem_askedTraits.mp ha
    rw [← hfield]
    refine hall pair hpair a.2 ?_
    rw [← listValue_listed hf (hlists pair hpair), hlisted]
    exact listValue_eq_some.mpr ⟨rfl, hne⟩

/-- **The text is found**, if one is searched for. -/
theorem lets_text (engine : Engine) (hf : Coerced filters) (h : p.WrittenIn doc) : ∃ doc',
    Lets engine (operationsIf (!(queryText filters).isEmpty) (.textSearch (queryText filters) textScoreField)) doc
      (∀ q, Fields.get? filters "q" = some (.str q) → engine.finds q (.object doc) = true) doc' ∧
    p.WrittenIn doc' := by
  rw [get?_query hf]
  cases hq : (queryText filters).isEmpty with
  | true => exact ⟨doc, lets_nil.congr (iff_of_true trivial nofun), h⟩
  | false =>
    refine ⟨Fields.put doc textScoreField (engine.score (.object doc)), ?_, h.put (by decide) _⟩
    have hasked : (∀ q, some (Value.str (queryText filters)) = some (.str q) →
        engine.finds q (.object doc) = true) ↔ engine.finds (queryText filters) (.object doc) = true :=
      ⟨fun hall => hall _ rfl, fun hfinds q he => Value.str.inj (Option.some.inj he) ▸ hfinds⟩
    rw [if_neg Bool.false_ne_true, hasked]
    refine ⟨[.search (queryText filters), .put [(textScoreField, .score)]], rfl, fun hp => ?_, fun hp => ?_⟩
    · rw [runAll, Operation.run, if_pos hp]
      show runAll engine _ doc = _
      rw [runAll_put engine (v := engine.score (.object doc)) (by rw [Expr.eval]; rfl)]
      rfl
    · rw [runAll, Operation.run, if_neg hp]
      rfl

/-! ### variants -/

theorem any_stock {size : Size} {v : Value} (h : AsObject Size.WrittenIn size v) :
    (reach ["stockQty"] v).any (Test.above (.int 0)).holds = true ↔ 0 < size.stock := by
  obtain ⟨fields, rfl, hs⟩ := h
  rw [← eachHolds_single, holds_positive hs.stock]

/-- Any size of any variant is in stock. -/
theorem meets_stock (h : p.WrittenIn doc) :
    meets [(["variants", "sizes", "stockQty"], [.above (.int 0)])] (.object doc) = true ↔
      ∃ v ∈ p.variants, ∃ s ∈ v.sizes, 0 < s.stock := by
  rw [meets_single, eachHolds_single]
  refine h.variants.reach ["sizes", "stockQty"] (List.cons_ne_nil _ _) fun w v hw => ?_
  obtain ⟨fields, rfl, hw⟩ := hw
  exact hw.sizes.reach ["stockQty"] (List.cons_ne_nil _ _) fun _ _ => any_stock

section

variable {colors sizes : List String} (hcolors : listValue colors = Fields.get? filters "colors")
  (hsizes : listValue sizes = Fields.get? filters "sizes") (h : p.WrittenIn doc)

include hcolors hsizes h

/-- Something is asked of a variant: there is one that is as asked in every respect. -/
theorem lets_scoped (hscoped : (colors.isEmpty && sizes.isEmpty) = false) :
    Lets engine (Stage.operations (.variantMatch (someList colors) (someList sizes) (wantsStock filters))) doc
      (∃ v ∈ p.variants, v.Meets filters) doc := by
  have hsome : ∀ xs : List String, (someList xs).getD [] = xs := by
    intro xs
    cases xs <;> rfl
  have hoperation : Stage.operations (.variantMatch (someList colors) (someList sizes) (wantsStock filters)) =
      [Stage.single "$match" (.object [("variants",
        Stage.someElement (Stage.variantConditions colors sizes (wantsStock filters)))])] := by
    unfold Stage.operations
    dsimp only
    rw [hsome, hsome, hscoped, if_neg Bool.false_ne_true]
    rfl
  have hread : readConditions? [("variants",
      Stage.someElement (Stage.variantConditions colors sizes (wantsStock filters)))] =
      some [(["variants"], [.someElement (variantTests colors sizes (wantsStock filters))])] :=
    read_cons "variants" (read_someElement (read_variants colors sizes (wantsStock filters))) rfl
  have hmeets : meets [(["variants"], [.someElement (variantTests colors sizes (wantsStock filters))])]
      (.object doc) = true ↔ ∃ v ∈ p.variants, v.Meets filters := by
    rw [meets_single, h.variants.someElement fun w v hw => Variant.meets_iff hsizes hcolors hw]
  rw [hoperation]
  exact (lets_match hread).congr hmeets

omit hcolors hsizes

/-- Nothing is asked of a variant: any size is in stock. -/
theorem lets_unscoped :
    Lets engine (Stage.operations (.variantMatch (someList []) (someList []) (wantsStock filters))) doc
      (∃ v ∈ p.variants, ∃ s ∈ v.sizes, 0 < s.stock) doc := by
  have hoperation : Stage.operations (.variantMatch (someList []) (someList []) (wantsStock filters)) =
      [Stage.single "$match" (.object [("variants.sizes.stockQty", Stage.isPositive)])] := rfl
  have hread : readConditions? [("variants.sizes.stockQty", Stage.isPositive)] =
      some [(["variants", "sizes", "stockQty"], [.above (.int 0)])] := rfl
  rw [hoperation]
  exact (lets_match hread).congr (meets_stock h)

include hcolors hsizes

/-- **A variant is as asked**, or any size is in stock where nothing is asked of a variant. -/
theorem lets_variants (engine : Engine) :
    Lets engine (operationsIf (!colors.isEmpty || !sizes.isEmpty || wantsStock filters)
        (.variantMatch (someList colors) (someList sizes) (wantsStock filters))) doc
      ((Fields.has filters "colors" = true ∨ Fields.has filters "sizes" = true →
          ∃ v ∈ p.variants, v.Meets filters) ∧
        (Fields.has filters "colors" = false → Fields.has filters "sizes" = false → WantsStock filters →
          ∃ v ∈ p.variants, ∃ s ∈ v.sizes, 0 < s.stock)) doc := by
  have hhas : ∀ {name : String} {xs : List String}, listValue xs = Fields.get? filters name →
      Fields.has filters name = !xs.isEmpty := by
    intro name xs hxs
    unfold Fields.has
    rw [← hxs, listValue_isSome]
  rw [hhas hcolors, hhas hsizes]
  cases hscoped : colors.isEmpty && sizes.isEmpty with
  | true =>
    obtain ⟨hc, hs⟩ := Bool.and_eq_true_iff.mp hscoped
    obtain rfl := List.isEmpty_iff.mp hc
    obtain rfl := List.isEmpty_iff.mp hs
    refine (lets_operationsIf (wantsStock filters) fun _ => lets_unscoped h).congr ?_
    rw [wantsStock_iff]
    simp [WantsStock]
  | false =>
    have hany : (!colors.isEmpty || !sizes.isEmpty) = true := by rw [← Bool.not_and, hscoped]; rfl
    refine (lets_operationsIf _ fun _ => lets_scoped hcolors hsizes h hscoped).congr ?_
    rw [hany, Bool.true_or, ← Bool.or_eq_true, hany]
    refine ⟨fun hone => ⟨fun _ => hone rfl, fun hno hno' => ?_⟩, fun hall _ => hall.1 rfl⟩
    rw [hno, hno'] at hany
    cases hany

end

/-! ### prices -/

/-- The rank of a quantity. -/
def rankOf (q : Quantity) : Rank :=
  .ofUnits q.units

theorem rank?_toValue (q : Quantity) : rank? q.toValue = some (rankOf q) := by
  cases q <;> rfl

theorem rank?_double {x : Double} {q : Quantity} (h : Quantity.ofDouble? x = some q) :
    rank? (.float (double q)) = some (rankOf q) := by
  obtain ⟨y, hy, hunits⟩ := exists_double h
  rw [hy]
  show some (Rank.ofUnits y.units) = _
  rw [hunits]
  rfl

theorem ofSome_single {v : Value} (hv : isSingle v = true) (test : Value → Bool) : ofSome test v = test v := by
  cases v with
  | list => cases hv
  | _ => rfl

variable {least most : Option Quantity}

/-- The conditions on a price, read. -/
def boundTests (least most : Option Quantity) : List Test :=
  (least.toList.map fun q => .atLeast (.float (double q))) ++ most.toList.map fun q => .atMost (.float (double q))

theorem read_bounds (least most : Option Quantity) :
    readTests? (.object (Stage.priceCondition (least.map double) (most.map double))) =
      some (boundTests least most) := by
  cases least <;> cases most <;> rfl

theorem Price.holds_atLeast (x : Price) {q : Quantity} {y : Double} (h : Quantity.ofDouble? y = some q) :
    (Test.atLeast (.float (double q))).holds x.value = true ↔ rankOf q ≤ x.rank := by
  rw [Test.holds, ofSome_single x.isSingle]
  unfold compares
  rw [x.ranked, rank?_double h]
  exact decide_eq_true_iff

theorem Price.holds_atMost (x : Price) {q : Quantity} {y : Double} (h : Quantity.ofDouble? y = some q) :
    (Test.atMost (.float (double q))).holds x.value = true ↔ x.rank ≤ rankOf q := by
  rw [Test.holds, ofSome_single x.isSingle]
  unfold compares
  rw [x.ranked, rank?_double h]
  exact decide_eq_true_iff

/-- The bounds that filters write. -/
theorem Price.within_iff (x : Price) :
    x.Within (boundFields (least.map Quantity.toValue) (most.map Quantity.toValue)) ↔
      (∀ q ∈ least, rankOf q ≤ x.rank) ∧ ∀ q ∈ most, x.rank ≤ rankOf q := by
  have hmin := get?_boundFields (least.map Quantity.toValue) (most.map Quantity.toValue) "min"
  have hmax := get?_boundFields (least.map Quantity.toValue) (most.map Quantity.toValue) "max"
  rw [if_pos rfl] at hmin
  rw [if_neg (by decide), if_pos rfl] at hmax
  constructor
  · rintro ⟨hleast, hmost⟩
    constructor
    · rintro q rfl
      obtain ⟨r, hr, hle⟩ := hleast q.toValue hmin
      rw [rank?_toValue] at hr
      exact Option.some.inj hr ▸ hle
    · rintro q rfl
      obtain ⟨r, hr, hle⟩ := hmost q.toValue hmax
      rw [rank?_toValue] at hr
      exact Option.some.inj hr ▸ hle
  · rintro ⟨hleast, hmost⟩
    constructor
    · intro bound hbound
      obtain ⟨q, hq, rfl⟩ := Option.map_eq_some_iff.mp (hmin.symm.trans hbound)
      exact ⟨_, rank?_toValue q, hleast q hq⟩
    · intro bound hbound
      obtain ⟨q, hq, rfl⟩ := Option.map_eq_some_iff.mp (hmax.symm.trans hbound)
      exact ⟨_, rank?_toValue q, hmost q hq⟩

/-- A price is within the bounds if all tests hold of it. -/
theorem Price.eachHolds_iff (x : Price) (hrange : IsRange least most) :
    eachHolds (boundTests least most) [x.value] = true ↔
      x.Within (boundFields (least.map Quantity.toValue) (most.map Quantity.toValue)) := by
  rw [x.within_iff]
  have hone : ∀ t : Test, [x.value].any t.holds = t.holds x.value := fun _ => Bool.or_false _
  cases least with
  | none =>
    cases most with
    | none =>
      exact iff_of_true rfl ⟨fun _ h => absurd h (Option.not_mem_none _), fun _ h => absurd h (Option.not_mem_none _)⟩
    | some high =>
      obtain ⟨y, hy⟩ := hrange.upper high rfl
      show ([x.value].any (Test.atMost (.float (double high))).holds && true) = true ↔ _
      rw [hone, Bool.and_true, x.holds_atMost hy]
      simp
  | some low =>
    obtain ⟨y, hy⟩ := hrange.lower low rfl
    cases most with
    | none =>
      show ([x.value].any (Test.atLeast (.float (double low))).holds && true) = true ↔ _
      rw [hone, Bool.and_true, x.holds_atLeast hy]
      simp
    | some high =>
      obtain ⟨z, hz⟩ := hrange.upper high rfl
      show ([x.value].any (Test.atLeast (.float (double low))).holds &&
        ([x.value].any (Test.atMost (.float (double high))).holds && true)) = true ↔ _
      rw [hone, hone, Bool.and_true, Bool.and_eq_true_iff, x.holds_atLeast hy, x.holds_atMost hz]
      simp

/-- Null is within no bounds. -/
theorem eachHolds_null (h : (least.isSome || most.isSome) = true) :
    eachHolds (boundTests least most) [.null] = false := by
  have hnone : ∀ (holds : Rank → Rank → Bool) (w : Value), compares holds .null w = false := fun _ _ => rfl
  cases least with
  | none =>
    cases most with
    | none => cases h
    | some high =>
      show (((Test.atMost _).holds .null || false) && true) = false
      rw [Test.holds, ofSome_single rfl, hnone]
      rfl
  | some low =>
    show (((Test.atLeast _).holds .null || false) && _) = false
    rw [Test.holds, ofSome_single rfl, hnone]
    rfl

/-- The price that is matched. -/
theorem lets_priceMatch (hrange : IsRange least most) (hpriced : (least.isSome || most.isSome) = true) {v : Value}
    (hget : Fields.get? doc minPriceField = some v) (hv : IsLeast p.prices v) :
    Lets engine (Stage.operations (.priceMatch (least.map double) (most.map double) minPriceField)) doc
      (∃ x ∈ p.prices, (∀ y ∈ p.prices, x.rank ≤ y.rank) ∧
        x.Within (boundFields (least.map Quantity.toValue) (most.map Quantity.toValue))) doc := by
  have hoperation : Stage.operations (.priceMatch (least.map double) (most.map double) minPriceField) =
      [Stage.single "$match" (.object [(.text minPriceField,
        .object (Stage.priceCondition (least.map double) (most.map double)))])] := rfl
  have hread : readConditions? [(.text minPriceField,
      .object (Stage.priceCondition (least.map double) (most.map double)))] =
      some [([minPriceField], boundTests least most)] := read_cons _ (read_bounds least most) rfl
  rw [hoperation]
  refine (lets_match hread).congr ?_
  rw [meets_single]
  rcases hv with ⟨hnone, rfl⟩ | ⟨x, hx, rfl, hleast⟩
  · rw [reach_single hget rfl, eachHolds_null hpriced, hnone]
    simp
  · rw [reach_single hget x.isSingle, x.eachHolds_iff hrange]
    refine ⟨fun hwithin => ⟨x, hx, hleast, hwithin⟩, fun ⟨y, hy, hall, hwithin⟩ => ?_⟩
    -- another least price has the same rank
    have hrank : x.rank = y.rank := le_antisymm (hleast y hy) (hall x hx)
    rw [Price.within_iff] at hwithin ⊢
    rwa [hrank]

/-- **The least price lies within the bounds**, if there are any. -/
theorem lets_price (engine : Engine) (h : p.WrittenIn doc) (hrange : IsRange least most) (byPrice : Bool)
    (hget : Fields.get? filters "price" = priceValue (least.map Quantity.toValue) (most.map Quantity.toValue)) :
    ∃ doc', Lets engine (operationsIf (least.isSome || most.isSome || byPrice) (.derivedMinPrice minPriceField) ++
        operationsIf (least.isSome || most.isSome)
          (.priceMatch (least.map double) (most.map double) minPriceField)) doc
      (∀ bounds, Fields.get? filters "price" = some (.object bounds) →
        ∃ x ∈ p.prices, (∀ y ∈ p.prices, x.rank ≤ y.rank) ∧ x.Within bounds) doc' := by
  obtain ⟨derived, v, hrun, hproduct, hleast, hv⟩ := run_pricing engine h
  have hderive : Lets engine (operationsIf true (.derivedMinPrice minPriceField)) doc True derived :=
    ⟨pricing, read_pricing, fun _ => hrun, fun hno => absurd trivial hno⟩
  rw [hget]
  cases hpriced : least.isSome || most.isSome with
  | true =>
    have hprice : priceValue (least.map Quantity.toValue) (most.map Quantity.toValue) =
        some (.object (boundFields (least.map Quantity.toValue) (most.map Quantity.toValue))) := by
      cases least <;> cases most <;> first | rfl | cases hpriced
    refine ⟨derived, (hderive.append (lets_operationsIf _ fun _ =>
      lets_priceMatch hrange hpriced hleast hv)).congr ?_⟩
    rw [hprice, true_and, imp_iff_right rfl]
    exact ⟨fun hone bounds he => Value.object.inj (Option.some.inj he) ▸ hone, fun hall => hall _ rfl⟩
  | false =>
    have hprice : priceValue (least.map Quantity.toValue) (most.map Quantity.toValue) = none := by
      cases least <;> cases most <;> first | rfl | cases hpriced
    rw [hprice, Bool.false_or]
    cases byPrice with
    | true => exact ⟨derived, (hderive.append lets_nil).congr (iff_of_true ⟨trivial, trivial⟩ nofun)⟩
    | false => exact ⟨doc, lets_nil.congr (iff_of_true trivial nofun)⟩

/-! ### the pipeline -/

/-- Ordering the results and picking a page changes no document. -/
theorem lets_page (keys : List (String × Direction)) (skipped limit : Nat) :
    Lets engine ([Stage.sort keys, .skip skipped, .limit limit].flatMap Stage.operations) doc True doc :=
  ⟨[.arrange, .arrange, .arrange], rfl, fun _ => rfl, fun h => absurd trivial h⟩

/-- The name of the order that filters ask for. -/
def orderName (filters : Fields) : String :=
  (sortOrder (Fields.value filters "sort") (!(queryText filters).isEmpty)).name

/-- The pipeline of a plan without a projection, part by part. -/
theorem pipeline_compile (hbounds : priceBounds (Fields.value filters "price") = (least, most)) :
    (compile filters .null).pipeline =
      operationsIf (!(categoricalConditions filters).isEmpty) (.categoricalMatch (categoricalConditions filters)) ++
      operationsIf (!(queryText filters).isEmpty) (.textSearch (queryText filters) textScoreField) ++
      operationsIf (!(listed (Fields.value filters "colors")).isEmpty ||
          !(listed (Fields.value filters "sizes")).isEmpty || wantsStock filters)
        (.variantMatch (someList (listed (Fields.value filters "colors")))
          (someList (listed (Fields.value filters "sizes"))) (wantsStock filters)) ++
      (operationsIf (least.isSome || most.isSome || decide (orderName filters ∈ ["price_asc", "price_desc"]))
          (.derivedMinPrice minPriceField) ++
        operationsIf (least.isSome || most.isSome)
          (.priceMatch (least.map double) (most.map double) minPriceField)) ++
      [Stage.sort (sortKeys (orderName filters) (!(queryText filters).isEmpty)),
        .skip ((page (Fields.value filters "page") - 1) * limit (Fields.value filters "limit")),
        .limit (limit (Fields.value filters "limit"))].flatMap Stage.operations := by
  unfold QueryPlan.pipeline compile operationsIf
  rw [hbounds]
  dsimp only
  simp only [List.flatMap_append, List.append_assoc]
  rfl

/-- The pipeline lets through what each of its parts lets through. -/
theorem lets_compile (engine : Engine) (hf : Coerced filters) (h : p.WrittenIn doc) : ∃ doc',
    Lets engine (compile filters .null).pipeline doc
      (p.Meets filters fun q => engine.finds q (.object doc) = true) doc' := by
  obtain ⟨found, htext, hfound⟩ := lets_text engine hf h
  obtain ⟨least, most, hrange, hprice⟩ := hf.price
  have hbounds : priceBounds (Fields.value filters "price") = (least, most) := by
    unfold Fields.value
    rw [hprice]
    exact priceBounds_priceValue hrange
  have hlisted : "colors" ∈ listFields ∧ "sizes" ∈ listFields := by decide
  have hvariants := lets_variants (listValue_listed hf hlisted.1) (listValue_listed hf hlisted.2) hfound engine
  obtain ⟨priced, hpriced⟩ := lets_price engine hfound hrange
    (decide (orderName filters ∈ ["price_asc", "price_desc"])) hprice
  rw [pipeline_compile hbounds]
  refine ⟨priced, Lets.congr (((((lets_traits hf h).append htext).append hvariants).append hpriced).append
    (lets_page _ _ _)) ⟨?_, ?_⟩⟩
  · rintro ⟨⟨⟨⟨htraits, htext⟩, hvariant, hstock⟩, hprice⟩, -⟩
    exact ⟨htraits, htext, hvariant, hstock, hprice⟩
  · intro hm
    exact ⟨⟨⟨⟨hm.traits, hm.text⟩, hm.variant, hm.stock⟩, hm.price⟩, trivial⟩

/-- Filters from parameters without the names of categories. -/
theorem coerced_without {given : Fields} (h : Coerced given) :
    Coerced (given.without "include_categories") := by
  have hget := fun key => Fields.get?_without given "include_categories" key
  refine h.relisted (Fields.nodup_without h.nodup _) (fun key hkey => ?_) fun name hname => ?_
  · rw [hget, if_neg]
    rintro rfl
    exact hkey (by decide)
  · rw [hget]
    split
    · exact ⟨[], nofun, rfl⟩
    · exact h.tokens name hname

/-- **The pipeline means what the filters say**: a document comes through it exactly if its product is one that
the filters ask for. Nothing in the pipeline is beyond what the document store is known to do. -/
theorem passes_iff_meets (engine : Engine) {params : Value} {given : Fields}
    (hgiven : coerceValue params = .ok given) {p : Product} {doc : Fields} (hdoc : p.WrittenIn doc) :
    ∃ plan through, constructValue (.object (given.without "include_categories")) .null = .ok plan ∧
      passes engine plan.pipeline doc = some through ∧
      (through = true ↔
        p.Meets (given.without "include_categories") fun q => engine.finds q (.object doc) = true) := by
  have hcoerced : Coerced given := by
    unfold coerceValue at hgiven
    cases hfields : params.demandOptionalFields "get" with
    | error =>
      rw [hfields] at hgiven
      cases hgiven
    | ok fields =>
      rw [hfields] at hgiven
      change ((writtenParams fields).mapM Value.demandWritable >>= fun _ => .ok (coerce fields)) = _ at hgiven
      cases hwritten : (writtenParams fields).mapM Value.demandWritable with
      | error =>
        rw [hwritten] at hgiven
        cases hgiven
      | ok =>
        rw [hwritten] at hgiven
        rw [← Except.ok.inj hgiven]
        exact coerced_coerce fields
  have hfilters := coerced_without hcoerced
  have hplan : constructValue (.object (given.without "include_categories")) .null =
      .ok (compile (given.without "include_categories") .null) :=
    construct_eq hfilters.haveWritable rfl
  obtain ⟨doc', hlets⟩ := lets_compile engine hfilters hdoc
  obtain ⟨through, hpasses, hiff⟩ := hlets.passes
  exact ⟨_, through, hplan, hpasses, hiff⟩

/-! ### an instance -/

/-- A store in which every text is found everywhere. -/
def openEngine : Engine :=
  ⟨fun _ _ => true, fun _ => .int 1⟩

def redParams : Fields :=
  [("include_categories", .str "Dresses"), ("brand", .str "Acme, Other"), ("colors", .str "red"),
    ("sizes", .ofStrings ["M", "L"]), ("in_stock", .str "yes"), ("price_max", .str "49.5"), ("q", .str " silk ")]

/-- A product without a base price, whose only size in stock has a price of its own. -/
def redProduct : Product where
  trait field := if field = "brand" then some (.str "Acme") else none
  base := none
  variants := [⟨"blue", []⟩, ⟨"red", [⟨"M", 3, some ⟨.int 40, _, rfl⟩⟩, ⟨"L", 0, none⟩]⟩]

def redDocument : Fields :=
  [("name", .str "Silk dress"), ("brand", .str "Acme"), ("basePrice", .null),
    ("variants", .list [
      .object [("color", .str "blue")],
      .object [("color", .str "red"), ("sizes", .list [
        .object [("sizeLabel", .str "M"), ("stockQty", .int 3), ("priceOverride", .int 40)],
        .object [("sizeLabel", .str "L"), ("stockQty", .int 0), ("priceOverride", .null)]])]])]

theorem redProduct_writtenIn : redProduct.WrittenIn redDocument where
  traits pair hpair := by
    simp only [categoricalFields, List.mem_cons, List.not_mem_nil, or_false] at hpair
    rcases hpair with rfl | rfl | rfl | rfl | rfl | rfl | rfl | rfl <;>
      exact ⟨rfl, fun v hv => by cases hv; try rfl⟩
  base := .inr rfl
  variants := by
    have hblue : (⟨"blue", []⟩ : Variant).WrittenIn [("color", .str "blue")] := ⟨rfl, .inr ⟨rfl, .inl rfl⟩⟩
    have hmedium : (⟨"M", 3, some ⟨.int 40, _, rfl⟩⟩ : Size).WrittenIn
        [("sizeLabel", .str "M"), ("stockQty", .int 3), ("priceOverride", .int 40)] := ⟨rfl, rfl, rfl⟩
    have hlarge : (⟨"L", 0, none⟩ : Size).WrittenIn
        [("sizeLabel", .str "L"), ("stockQty", .int 0), ("priceOverride", .null)] := ⟨rfl, rfl, .inr rfl⟩
    refine .inl ⟨_, rfl, .cons ⟨_, rfl, hblue⟩ (.cons ⟨_, rfl, rfl, .inl ⟨_, rfl, ?_⟩⟩ .nil)⟩
    exact .cons ⟨_, rfl, hmedium⟩ (.cons ⟨_, rfl, hlarge⟩ .nil)

theorem passes_iff_meets_of_red :
    coerceValue (.object redParams) = .ok (coerce redParams) ∧ redProduct.WrittenIn redDocument ∧
    ∃ plan through, constructValue (.object ((coerce redParams).without "include_categories")) .null = .ok plan ∧
      passes openEngine plan.pipeline redDocument = some through ∧
      (through = true ↔ redProduct.Meets ((coerce redParams).without "include_categories")
        fun q => openEngine.finds q (.object redDocument) = true) := by
  have hgiven : coerceValue (.object redParams) = .ok (coerce redParams) := coerceValue_eq (by decide +kernel)
  exact ⟨hgiven, redProduct_writtenIn, passes_iff_meets openEngine hgiven redProduct_writtenIn⟩

example : passes openEngine (compile [("colors", .ofStrings ["red"]), ("in_stock", .bool true)] .null).pipeline
    redDocument = some true := by
  decide +kernel

end Outfitter.Documents
