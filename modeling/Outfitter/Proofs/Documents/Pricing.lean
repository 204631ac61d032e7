import Mathlib.Data.List.Flatten
import Outfitter.Proofs.Documents.Product
import Outfitter.Proofs.Value.Fields

/-!
The least price of a product.

The operations that derive it gather the sizes of all variants, put the price of each beside the base price,
and take the least of those that are not null (`eval_leastPrice`).
-/

namespace Outfitter.Documents

variable {fields doc : Fields} {name : String}

/-! ### the least of some numbers -/

theorem Price.ne_null (x : Price) : x.value ≠ .null := by
  intro he
  have hranked := x.ranked
  rw [he] at hranked
  cases hranked

theorem Price.isSingle (x : Price) : isSingle x.value = true := by
  have hranked := x.ranked
  cases hv : x.value with
  | list | object =>
    rw [hv] at hranked
    cases hranked
  | _ => rfl

/-- A price as it stands among others, null if there is none. -/
def candidate (x : Option Price) : Value :=
  (x.map Price.value).getD .null

/-- The prices of a product where each is looked for: the base price, and one price of each size. -/
def Product.candidates (p : Product) : List (Option Price) :=
  p.base :: (p.variants.flatMap (·.sizes)).map fun size => size.price.or p.base

theorem prices_eq (p : Product) : p.candidates.filterMap id = p.prices := by
  unfold Product.candidates Product.prices
  cases p.base <;> simp [List.filterMap_map]

/-- The value is the least of some prices, or null if there is none. -/
def IsLeast (xs : List Price) (v : Value) : Prop :=
  xs = [] ∧ v = .null ∨ ∃ x ∈ xs, v = x.value ∧ ∀ y ∈ xs, x.rank ≤ y.rank

/-- One more price is compared with the least of the others. -/
theorem leastOf?_cons (x : Price) {values : List Value} {least : Value} (hleast : leastOf? values = some least) :
    leastOf? (x.value :: values) =
      (rank? least).elim (some x.value) fun b => if b < x.rank then some least else some x.value := by
  rw [leastOf?]
  · rw [hleast, x.ranked]
    simp only [Option.bind_eq_bind, Option.bind_some]
    cases rank? least <;> rfl
  · exact x.ne_null

theorem exists_leastOf (xs : List Price) : ∃ v, leastOf? (xs.map Price.value) = some v ∧ IsLeast xs v := by
  induction xs with
  | nil => exact ⟨.null, rfl, .inl ⟨rfl, rfl⟩⟩
  | cons x xs ih =>
    obtain ⟨least, hleast, hcases⟩ := ih
    rw [List.map_cons, leastOf?_cons x hleast]
    rcases hcases with ⟨rfl, rfl⟩ | ⟨z, hz, rfl, hall⟩
    · exact ⟨x.value, rfl, .inr ⟨x, List.mem_cons_self .., rfl, by simp⟩⟩
    · rw [z.ranked]
      by_cases hlt : z.rank < x.rank
      · refine ⟨z.value, if_pos hlt, .inr ⟨z, List.mem_cons_of_mem _ hz, rfl, fun y hy => ?_⟩⟩
        rcases List.mem_cons.mp hy with rfl | hy
        · exact hlt.le
        · exact hall y hy
      · refine ⟨x.value, if_neg hlt, .inr ⟨x, List.mem_cons_self .., rfl, fun y hy => ?_⟩⟩
        rcases List.mem_cons.mp hy with rfl | hy
        · exact le_rfl
        · exact (not_lt.mp hlt).trans (hall y hy)

/-! ### prices in fields -/

theorem PriceIn.value {x : Option Price} (h : PriceIn fields name x) :
    (Fields.get? fields name).getD .null = candidate x := by
  cases x with
  | some x => exact congrArg (Option.getD · _) h
  | none => rcases h with h | h <;> rw [h] <;> rfl

/-- A field with a price, or else another one. -/
theorem PriceIn.cases {x : Option Price} (h : PriceIn fields name x) :
    (∃ y, x = some y ∧ Fields.get? fields name = some y.value) ∨
      x = none ∧ (Fields.get? fields name = none ∨ Fields.get? fields name = some .null) := by
  cases x with
  | some y => exact .inl ⟨y, rfl, h⟩
  | none => exact .inr ⟨rfl, h⟩

theorem follow_field (fields : Fields) (name : String) :
    follow [name] (.object fields) = some (Fields.get? fields name) := by
  unfold follow
  cases Fields.get? fields name <;> rfl

/-- The first expression, which is a price in a field, or else the second. -/
theorem eval_ifNull {x : Option Price} (h : PriceIn fields name x) {e alternative : Expr} {s : Scope}
    (he : e.eval s = some (Fields.get? fields name)) :
    (Expr.ifNull e alternative).eval s = x.elim (alternative.eval s) fun y => some (some y.value) := by
  rw [Expr.eval, he]
  rcases h.cases with ⟨y, rfl, hget⟩ | ⟨rfl, hget | hget⟩
  · rw [hget]
    have hne := y.ne_null
    cases hv : y.value with
    | null => exact absurd hv hne
    | _ =>
      show _ = some (some y.value)
      rw [hv]
  · rw [hget]
    rfl
  · rw [hget]
    rfl

/-- A list in a field, or else the empty one. -/
theorem eval_ifNull_list {α : Type} {written : α → Value → Prop} {xs : List α}
    (h : ListIn fields name written xs) {e : Expr} {s : Scope}
    (he : e.eval s = some (Fields.get? fields name)) :
    ∃ items, (Expr.ifNull e (.array [])).eval s = some (some (.list items)) ∧
      List.Forall₂ written xs items := by
  rw [Expr.eval, he]
  rcases h with ⟨items, hget, hitems⟩ | ⟨rfl, hget | hget⟩
  · exact ⟨items, by rw [hget], hitems⟩
  · exact ⟨[], by rw [hget]; rfl, .nil⟩
  · exact ⟨[], by rw [hget]; rfl, .nil⟩

/-! ### the operations -/

/-- All sizes of a product in one list. -/
def allSizes : Expr :=
  .reduce (.ifNull (.field ["variants"]) (.array [])) (.array [])
    (.concatArrays [.variable "value" [], .ifNull (.variable "this" ["sizes"]) (.array [])])

/-- The base price, and the prices of the sizes. -/
def candidatePrices : Expr :=
  .concatArrays [.array [.ifNull (.field ["basePrice"]) (.literal .null)],
    .map (.field ["_allSizes"]) "sz" (.ifNull (.variable "sz" ["priceOverride"]) (.field ["basePrice"]))]

def leastPrice : Expr :=
  .least (.filter (.field ["_candidatePrices"]) "p" (.isNotNull (.variable "p" [])))

/-- The operations of the derived price, read. -/
def pricing : List Operation :=
  [.put [("_allSizes", allSizes)], .put [("_candidatePrices", candidatePrices)],
    .put [(Plan.minPriceField, leastPrice)], .drop ["_allSizes", "_candidatePrices"]]

theorem read_pricing : readAll? (Plan.Stage.minPriceOperations Plan.minPriceField) = some pricing :=
  rfl

/-- The sizes of one more variant behind those gathered so far. -/
theorem eval_gather {w : Variant} {v : Value} (h : AsObject Variant.WrittenIn w v) (gathered : List Value)
    (s : Scope) :
    ∃ items, ((Expr.concatArrays [.variable "value" [], .ifNull (.variable "this" ["sizes"]) (.array [])]).eval
        ((s.bind "value" (.list gathered)).bind "this" v)) = some (some (.list (gathered ++ items))) ∧
      List.Forall₂ (AsObject Size.WrittenIn) w.sizes items := by
  obtain ⟨fields, rfl, hw⟩ := h
  have hthis : (Expr.variable "this" ["sizes"]).eval ((s.bind "value" (.list gathered)).bind "this"
      (.object fields)) = some (Fields.get? fields "sizes") := by
    rw [← follow_field, Expr.eval]
    rfl
  obtain ⟨items, hitems, hwritten⟩ := eval_ifNull_list hw.sizes hthis
  refine ⟨items, ?_, hwritten⟩
  have hvalue : (Expr.variable "value" []).eval ((s.bind "value" (.list gathered)).bind "this"
      (.object fields)) = some (some (.list gathered)) := by
    rw [Expr.eval]
    rfl
  rw [Expr.eval, evalItems, evalItems, evalItems, hvalue, hitems]
  simp [items?]

/-- The sizes of several variants behind those gathered so far. -/
theorem gathered {ws : List Variant} {variants : List Value}
    (h : List.Forall₂ (AsObject Variant.WrittenIn) ws variants) (s : Scope) (before : List Value) :
    ∃ items, (variants.foldlM (fun value this => ((Expr.concatArrays [.variable "value" [],
        .ifNull (.variable "this" ["sizes"]) (.array [])]).eval
          ((s.bind "value" value).bind "this" this)).join) (Value.list before)) =
        some (.list (before ++ items)) ∧
      List.Forall₂ (AsObject Size.WrittenIn) (ws.flatMap (·.sizes)) items := by
  induction h generalizing before with
  | nil => exact ⟨[], by rw [List.append_nil]; rfl, .nil⟩
  | cons hv _ ih =>
    obtain ⟨first, hfirst, hwritten⟩ := eval_gather hv before s
    obtain ⟨rest, hrest, hothers⟩ := ih (before ++ first)
    refine ⟨first ++ rest, ?_, List.rel_append hwritten hothers⟩
    rw [List.foldlM_cons, hfirst]
    show List.foldlM _ (Value.list (before ++ first)) _ = _
    rw [hrest, List.append_assoc]

/-- All sizes are gathered. -/
theorem eval_allSizes {p : Product} (h : p.WrittenIn doc) {s : Scope} (hs : s.document = .object doc) :
    ∃ items, allSizes.eval s = some (some (.list items)) ∧
      List.Forall₂ (AsObject Size.WrittenIn) (p.variants.flatMap (·.sizes)) items := by
  have hfield : (Expr.field ["variants"]).eval s = some (Fields.get? doc "variants") := by
    rw [← follow_field, ← hs, Expr.eval]
  obtain ⟨variants, heval, hvariants⟩ := eval_ifNull_list h.variants hfield
  obtain ⟨items, hitems, hwritten⟩ := gathered hvariants s []
  refine ⟨items, ?_, hwritten⟩
  have hinitial : (Expr.array []).eval s = some (some (.list [])) := by
    rw [Expr.eval, evalItems]
    rfl
  unfold allSizes
  rw [Expr.eval, heval, hinitial]
  show (do
    let result ← variants.foldlM _ (.list [])
    return some result : Option (Option Value)) = _
  rw [hitems]
  rfl

/-- The base price in a document. -/
theorem eval_base {base : Option Price} (h : PriceIn doc "basePrice" base) {s : Scope}
    (hs : s.document = .object doc) :
    ((Expr.field ["basePrice"]).eval s).map (·.getD .null) = some (candidate base) := by
  rw [Expr.eval, hs, follow_field]
  exact congrArg some h.value

/-- The price of a size, which is the base price if it has none of its own. -/
theorem eval_price {base : Option Price} (h : PriceIn doc "basePrice" base) {s : Scope}
    (hs : s.document = .object doc) {size : Size} {v : Value} (hv : AsObject Size.WrittenIn size v) :
    ((Expr.ifNull (.variable "sz" ["priceOverride"]) (.field ["basePrice"])).eval (s.bind "sz" v)).map
      (·.getD .null) = some (candidate (size.price.or base)) := by
  obtain ⟨fields, rfl, hsize⟩ := hv
  have hown : (Expr.variable "sz" ["priceOverride"]).eval (s.bind "sz" (.object fields)) =
      some (Fields.get? fields "priceOverride") := by
    rw [← follow_field, Expr.eval]
    rfl
  rw [eval_ifNull hsize.price hown]
  cases size.price with
  | some x => rfl
  | none => exact eval_base (s := s.bind "sz" (.object fields)) h hs

theorem mapM_of_forall₂ {α β γ : Type} {f : β → Option γ} {g : α → γ} {written : α → β → Prop} {xs : List α}
    {items : List β} (h : List.Forall₂ written xs items) (hf : ∀ x v, written x v → f v = some (g x)) :
    items.mapM f = some (xs.map g) := by
  induction h with
  | nil => rfl
  | cons hx _ ih =>
    rw [List.mapM_cons, hf _ _ hx, ih]
    rfl

/-- The prices that a product may have. -/
theorem eval_candidatePrices {p : Product} (h : PriceIn doc "basePrice" p.base) {s : Scope}
    (hs : s.document = .object doc) {items : List Value} (hget : Fields.get? doc "_allSizes" = some (.list items))
    (hitems : List.Forall₂ (AsObject Size.WrittenIn) (p.variants.flatMap (·.sizes)) items) :
    candidatePrices.eval s = some (some (.list (p.candidates.map candidate))) := by
  have hbase : (Expr.array [.ifNull (.field ["basePrice"]) (.literal .null)]).eval s =
      some (some (.list [candidate p.base])) := by
    have hfield : (Expr.field ["basePrice"]).eval s = some (Fields.get? doc "basePrice") := by
      rw [← follow_field, ← hs, Expr.eval]
    rw [Expr.eval, evalItems, evalItems, eval_ifNull h hfield]
    cases p.base with
    | some x => rfl
    | none =>
      rw [Option.elim_none, Expr.eval]
      rfl
  have hsizes : (Expr.map (.field ["_allSizes"]) "sz"
      (.ifNull (.variable "sz" ["priceOverride"]) (.field ["basePrice"]))).eval s =
      some (some (.list ((p.variants.flatMap (·.sizes)).map fun size => candidate (size.price.or p.base)))) := by
    have hfield : (Expr.field ["_allSizes"]).eval s = some (some (.list items)) := by
      rw [Expr.eval, hs, follow_field, hget]
    rw [Expr.eval, hfield]
    show (do
      let results ← items.mapM _
      return some (Value.list results) : Option (Option Value)) = _
    rw [mapM_of_forall₂ hitems fun size v hv => eval_price h hs hv]
    rfl
  unfold candidatePrices
  rw [Expr.eval, evalItems, evalItems, evalItems, hbase, hsizes]
  simp [items?, Product.candidates, Function.comp_def]

/-- Of the prices that a product may have, those that there are. -/
theorem eval_isNotNull {e : Expr} {s : Scope} {v : Value} (he : e.eval s = some (some v)) (hv : v ≠ .null) :
    (Expr.isNotNull e).eval s = some (some (.bool true)) := by
  rw [Expr.eval, he]
  cases v with
  | null => exact absurd rfl hv
  | _ => rfl

theorem keepWhere_candidates (xs : List (Option Price)) (s : Scope) :
    keepWhere? (fun v => truth? ((Expr.isNotNull (.variable "p" [])).eval (s.bind "p" v))) (xs.map candidate) =
      some ((xs.filterMap id).map Price.value) := by
  have htest : ∀ x : Option Price, truth? ((Expr.isNotNull (.variable "p" [])).eval (s.bind "p" (candidate x))) =
      some x.isSome := by
    intro x
    have hp : (Expr.variable "p" []).eval (s.bind "p" (candidate x)) = some (some (candidate x)) := by
      rw [Expr.eval]
      rfl
    cases x with
    | none =>
      rw [Expr.eval, hp]
      rfl
    | some x =>
      rw [eval_isNotNull hp x.ne_null]
      rfl
  induction xs with
  | nil => rfl
  | cons x xs ih =>
    rw [List.map_cons, keepWhere?, htest, ih]
    cases x <;> rfl

/-- **The least price is derived**, or null if there is no price at all. -/
theorem eval_leastPrice {p : Product} {s : Scope} (hs : s.document = .object doc)
    (hget : Fields.get? doc "_candidatePrices" = some (.list (p.candidates.map candidate))) :
    ∃ v, leastPrice.eval s = some (some v) ∧ IsLeast p.prices v := by
  obtain ⟨v, hv, hleast⟩ := exists_leastOf p.prices
  refine ⟨v, ?_, hleast⟩
  have hfield : (Expr.field ["_candidatePrices"]).eval s =
      some (some (.list (p.candidates.map candidate))) := by
    rw [Expr.eval, hs, follow_field, hget]
  have hknown : (Expr.filter (.field ["_candidatePrices"]) "p" (.isNotNull (.variable "p" []))).eval s =
      some (some (.list (p.prices.map Price.value))) := by
    rw [Expr.eval, hfield]
    show (do
      let kept ← keepWhere? _ _
      return some (Value.list kept) : Option (Option Value)) = _
    rw [keepWhere_candidates, prices_eq]
    rfl
  unfold leastPrice
  rw [Expr.eval, hknown]
  show (do
    let least ← leastOf? (p.prices.map Price.value)
    return some least : Option (Option Value)) = _
  rw [hv]
  rfl

/-! ### the document after them -/

/-- The fields that say what a product is are the same in both documents. -/
theorem Product.WrittenIn.of_get? {p : Product} (h : p.WrittenIn doc) {other : Fields}
    (hget : ∀ name ∈ "basePrice" :: "variants" :: Plan.categoricalFields.map (·.2),
      Fields.get? other name = Fields.get? doc name) : p.WrittenIn other where
  traits pair hpair := by
    have hname : pair.2 ∈ "basePrice" :: "variants" :: Plan.categoricalFields.map (·.2) :=
      List.mem_cons_of_mem _ (List.mem_cons_of_mem _ (List.mem_map_of_mem hpair))
    rw [hget _ hname]
    exact h.traits pair hpair
  base := by
    unfold PriceIn
    rw [hget "basePrice" (List.mem_cons_self ..)]
    exact h.base
  variants := by
    unfold ListIn
    rw [hget "variants" (List.mem_cons_of_mem _ (List.mem_cons_self ..))]
    exact h.variants

/-- What a field is set to is not what says what a product is. -/
theorem Product.WrittenIn.put {p : Product} (h : p.WrittenIn doc) {name : String}
    (hname : name ∉ "basePrice" :: "variants" :: Plan.categoricalFields.map (·.2)) (v : Value) :
    p.WrittenIn (Fields.put doc name v) := by
  refine h.of_get? fun other hother => ?_
  have hne : Key.text other ≠ .text name := fun he => hname (Key.text.inj he ▸ hother)
  rw [Fields.get?_put, if_neg hne]

theorem Product.WrittenIn.without {p : Product} (h : p.WrittenIn doc) (name : String)
    (hname : name ∉ "basePrice" :: "variants" :: Plan.categoricalFields.map (·.2)) :
    p.WrittenIn (Fields.without doc name) := by
  refine h.of_get? fun other hother => ?_
  have hne : Key.text other ≠ .text name := fun he => hname (Key.text.inj he ▸ hother)
  rw [Fields.get?_without, if_neg hne]

theorem run_put (engine : Engine) {name : String} {e : Expr} {v : Value}
    (h : e.eval (engine.scope doc) = some (some v)) :
    (Operation.put [(name, e)]).run engine doc = some (some (Fields.put doc name v)) := by
  rw [Operation.run, putEach, h]
  rfl

theorem runAll_put (engine : Engine) {name : String} {e : Expr} {v : Value} {ops : List Operation}
    (h : e.eval (engine.scope doc) = some (some v)) :
    runAll engine (.put [(name, e)] :: ops) doc = runAll engine ops (Fields.put doc name v) := by
  rw [runAll, run_put engine h]
  rfl

/-- **The operations put the least price into the document**, and leave the product what it is. -/
theorem run_pricing (engine : Engine) {p : Product} (h : p.WrittenIn doc) :
    ∃ doc' v, runAll engine pricing doc = some (some doc') ∧ p.WrittenIn doc' ∧
      Fields.get? doc' Plan.minPriceField = some v ∧ IsLeast p.prices v := by
  obtain ⟨items, hsizes, hitems⟩ := eval_allSizes h (s := engine.scope doc) rfl
  obtain ⟨doc₁, hdoc₁⟩ : ∃ d, d = Fields.put doc "_allSizes" (.list items) := ⟨_, rfl⟩
  have hproduct₁ : p.WrittenIn doc₁ := hdoc₁ ▸ h.put (by decide) _
  have hgathered : Fields.get? doc₁ "_allSizes" = some (.list items) := by
    rw [hdoc₁, Fields.get?_put, if_pos rfl]
  have hcandidates := eval_candidatePrices hproduct₁.base (s := engine.scope doc₁) rfl hgathered hitems
  obtain ⟨doc₂, hdoc₂⟩ : ∃ d, d = Fields.put doc₁ "_candidatePrices" (.list (p.candidates.map candidate)) :=
    ⟨_, rfl⟩
  have hproduct₂ : p.WrittenIn doc₂ := hdoc₂ ▸ hproduct₁.put (by decide) _
  have hprices : Fields.get? doc₂ "_candidatePrices" = some (.list (p.candidates.map candidate)) := by
    rw [hdoc₂, Fields.get?_put, if_pos rfl]
  obtain ⟨v, hv, hleast⟩ := eval_leastPrice (s := engine.scope doc₂) rfl hprices
  have hproduct₃ : p.WrittenIn (Fields.put doc₂ Plan.minPriceField v) := hproduct₂.put (by decide) v
  refine ⟨_, v, ?_, (hproduct₃.without "_allSizes" (by decide)).without "_candidatePrices"
    (by decide), ?_, hleast⟩
  · unfold pricing
    rw [runAll_put engine hsizes, ← hdoc₁, runAll_put engine hcandidates, ← hdoc₂, runAll_put engine hv]
    rfl
  · rw [Fields.get?_without, if_neg (by decide), Fields.get?_without, if_neg (by decide), Fields.get?_put,
      if_pos rfl]

end Outfitter.Documents
