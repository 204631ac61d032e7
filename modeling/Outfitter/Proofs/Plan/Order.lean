import Outfitter.Plan.Traced
import Outfitter.Proofs.Journal.Steady
import Outfitter.Proofs.Plan.Construct

/-!
The order of a plan.

Whatever the filters are, they have a plan, and it is well ordered (`exists_wellOrdered`): its stages are of
different kinds and in the order of the kinds, a price is only matched where it was derived before, and the
page that is skipped to is the page of the plan.
-/

namespace Outfitter

/-- The stages are in their order, and what they say about the page is what the plan says. -/
structure QueryPlan.WellOrdered (plan : QueryPlan) : Prop where
  kinds : plan.kinds.Sublist Plan.Stage.kinds
  nodup : plan.kinds.Nodup
  /-- The stages that no plan lacks. -/
  always : ∀ kind ∈ ["sort", "skip", "limit"], kind ∈ plan.kinds
  derived : "price_match" ∈ plan.kinds → "derived_min_price" ∈ plan.kinds
  bounds : ∀ least most field, .priceMatch (some least) (some most) field ∈ plan.stages →
    ∃ x y : Double.Finite, least = .finite x ∧ most = .finite y ∧ x.units ≤ y.units
  page : 1 ≤ plan.page
  limit : 1 ≤ plan.limit ∧ plan.limit ≤ 100
  limited : ∀ n : Nat, .limit n ∈ plan.stages ↔ (n : Int) = plan.limit
  skipped : ∀ n : Nat, .skip n ∈ plan.stages ↔ (n : Int) = (plan.page - 1) * plan.limit

namespace Plan

open Filters Journal

variable {filters : Fields} {fields : Value} {stage other : Stage} {wanted : Bool}

/-! ### stages that are wanted -/

theorem mem_stageIf : stage ∈ stageIf wanted other ↔ wanted = true ∧ stage = other := by
  cases wanted with
  | false => exact iff_of_false List.not_mem_nil fun h => Bool.false_ne_true h.1
  | true => exact List.mem_singleton.trans (and_iff_right rfl).symm

theorem sublist_stageIf (wanted : Bool) (stage : Stage) :
    ((stageIf wanted stage).map Stage.kind).Sublist [stage.kind] := by
  cases wanted with
  | false => exact List.nil_sublist _
  | true => exact List.Sublist.refl _

theorem mem_kinds_stageIf {kind : String} :
    kind ∈ (stageIf wanted stage).map Stage.kind ↔ wanted = true ∧ kind = stage.kind := by
  cases wanted <;> simp [stageIf]

/-! ### what a plan holds -/

theorem sublist_kinds (filters : Fields) (fields : Value) :
    (compile filters fields).kinds.Sublist Stage.kinds := by
  unfold QueryPlan.kinds compile
  dsimp only
  simp only [List.map_append]
  have h := sublist_stageIf
  exact ((((((h _ _).append (h _ _)).append (h _ _)).append (h _ _)).append (h _ _)).append
    (List.Sublist.refl ["sort", "skip", "limit"])).append (h _ _)

theorem nodup_kinds (filters : Fields) (fields : Value) : (compile filters fields).kinds.Nodup :=
  (sublist_kinds filters fields).nodup (by decide)

theorem page_compile (filters : Fields) (fields : Value) :
    (compile filters fields).page = page (Fields.value filters "page") :=
  rfl

theorem limit_compile (filters : Fields) (fields : Value) :
    (compile filters fields).limit = limit (Fields.value filters "limit") :=
  rfl

theorem sort_compile (filters : Fields) (fields : Value) : (compile filters fields).sort =
    (sortOrder (Fields.value filters "sort") (!(queryText filters).isEmpty)).name := by
  unfold compile
  generalize priceBounds (Fields.value filters "price") = bounds
  cases bounds
  dsimp only

/-- A bound is asked for. -/
def isPriced (filters : Fields) : Bool :=
  (priceBounds (Fields.value filters "price")).1.isSome || (priceBounds (Fields.value filters "price")).2.isSome

theorem mem_priceMatch {least most : Option Double} {field : String} :
    .priceMatch least most field ∈ (compile filters fields).stages ↔ isPriced filters = true ∧
      least = (priceBounds (Fields.value filters "price")).1.map double ∧
      most = (priceBounds (Fields.value filters "price")).2.map double ∧ field = minPriceField := by
  unfold compile isPriced
  simp [mem_stageIf]

theorem mem_skip {n : Nat} : .skip n ∈ (compile filters fields).stages ↔
    n = (page (Fields.value filters "page") - 1) * limit (Fields.value filters "limit") := by
  unfold compile
  simp [mem_stageIf]

theorem mem_limit {n : Nat} :
    .limit n ∈ (compile filters fields).stages ↔ n = limit (Fields.value filters "limit") := by
  unfold compile
  simp [mem_stageIf]

theorem priceMatch_mem_kinds : "price_match" ∈ (compile filters fields).kinds ↔ isPriced filters = true := by
  unfold QueryPlan.kinds compile isPriced
  simp [mem_kinds_stageIf, Stage.kind]

/-- A quantity that was made from a double is this double. -/
theorem exists_double {x : Double} {q : Quantity} (h : Quantity.ofDouble? x = some q) :
    ∃ y : Double.Finite, double q = .finite y ∧ y.units = q.units := by
  obtain ⟨y, rfl, ⟨hw, rfl⟩ | ⟨-, rfl⟩⟩ := Quantity.toValue_cases h
  · obtain ⟨z, hz, hwhole, htruncate⟩ := Double.exists_ofInt_truncate hw
    refine ⟨z, hz, ?_⟩
    rw [← Double.truncate_mul hwhole, htruncate]
    rfl
  · exact ⟨y, rfl, rfl⟩

/-- The plan for filters is well ordered. -/
theorem wellOrdered_compile (filters : Fields) (fields : Value) : (compile filters fields).WellOrdered := by
  have hpage := one_le_page (Fields.value filters "page")
  have hlimit := limit_bounds (Fields.value filters "limit")
  unfold maxLimit at hlimit
  constructor
  case kinds => exact sublist_kinds filters fields
  case nodup => exact nodup_kinds filters fields
  case always =>
    intro kind hkind
    simp only [List.mem_cons, List.not_mem_nil, or_false] at hkind
    unfold QueryPlan.kinds compile
    rcases hkind with rfl | rfl | rfl <;> simp [Stage.kind]
  case derived =>
    intro h
    have hpriced := priceMatch_mem_kinds.mp h
    unfold isPriced at hpriced
    unfold QueryPlan.kinds compile
    simp [mem_kinds_stageIf, Stage.kind, hpriced]
  case bounds =>
    intro least most field h
    obtain ⟨-, hleast, hmost, -⟩ := mem_priceMatch.mp h
    obtain ⟨low, hlow, rfl⟩ := Option.map_eq_some_iff.mp hleast.symm
    obtain ⟨high, hhigh, rfl⟩ := Option.map_eq_some_iff.mp hmost.symm
    have hrange := isRange_priceBounds (Fields.value filters "price")
    obtain ⟨_, hlow'⟩ := hrange.lower low hlow
    obtain ⟨_, hhigh'⟩ := hrange.upper high hhigh
    obtain ⟨x, hx, hxunits⟩ := exists_double hlow'
    obtain ⟨y, hy, hyunits⟩ := exists_double hhigh'
    refine ⟨x, y, hx, hy, ?_⟩
    rw [hxunits, hyunits]
    exact hrange.le low hlow high hhigh
  case page =>
    rw [page_compile]
    omega
  case limit =>
    rw [limit_compile]
    omega
  case limited =>
    intro n
    rw [mem_limit, limit_compile]
    omega
  case skipped =>
    intro n
    rw [mem_skip, page_compile, limit_compile, ← Int.natCast_inj, Int.natCast_mul, Int.natCast_sub hpage]
    rfl

/-! ### compiling with an entry -/

/-- The entry about a plan can be written. -/
theorem isWritable_entry (filters : Fields) (fields : Value) :
    (entry (compile filters fields)).isWritable = true := by
  apply Entry.isWritable_of_data
  rw [Value.haveWritable_iff]
  intro p hp
  simp only [entry, Entry.info, List.mem_cons, List.not_mem_nil, or_false] at hp
  rcases hp with rfl | rfl | rfl
  · exact Value.isWritable_texts _
  · exact isWritable_of_isDouble (isDouble_page _)
  · exact isWritable_of_isDouble (isDouble_limit _)

theorem steady_compiled (filters fields : Value) : Traced.Steady (compiled filters fields) :=
  (Traced.steady_liftExcept _).bind fun _ => (Traced.steady_note _).bind fun _ => Traced.steady_pure _

/-- The entry about a plan that is constructed is in nobody's way. -/
theorem outcomeWhen_compiled_of_construct {filters : Value}
    (h : constructValue filters fields = .ok (compileValue filters fields)) (d : Bool) :
    (compiled filters fields).outcomeWhen d = .ok (compileValue filters fields) := by
  have hlift := (Traced.outcomeWhen_liftExcept d _).trans h
  have hnote := Traced.outcomeWhen_note_of_writable d (isWritable_entry (filters.fields?.getD []) fields)
  have hsteady : ∀ plan, Traced.Steady (do Traced.note (entry plan); return plan) := fun plan =>
    (Traced.steady_note _).bind fun _ => Traced.steady_pure _
  unfold compiled
  rw [Traced.outcomeWhen_bind_of_ok (Traced.steady_liftExcept _) hsteady hlift]
  exact Traced.outcomeWhen_bind_of_ok (Traced.steady_note _) (fun _ => Traced.steady_pure _) hnote

/-- Filters have a plan if they can be written where it asks for something. -/
theorem outcomeWhen_compiled_of_askable (hfilters : Askable filters)
    (hfields : demandProjection fields = .ok (projectionFields fields)) (d : Bool) :
    (compiled (.object filters) fields).outcomeWhen d = .ok (compile filters fields) := by
  have hconstruct : constructValue (.object filters) fields = .ok (compile filters fields) :=
    construct_of_askable hfilters hfields
  exact outcomeWhen_compiled_of_construct hconstruct d

/-- They have one only then. -/
theorem askable_of_compiled {d : Bool} {plan : QueryPlan}
    (h : (compiled (.object filters) fields).outcomeWhen d = .ok plan) :
    Askable filters ∧ demandProjection fields = .ok (projectionFields fields) := by
  have hsteady : ∀ plan, Traced.Steady (do Traced.note (entry plan); return plan) := fun plan =>
    (Traced.steady_note _).bind fun _ => Traced.steady_pure _
  obtain ⟨plan, hplan, -⟩ := Traced.exists_of_bind (Traced.steady_liftExcept _) hsteady h
  rw [Traced.outcomeWhen_liftExcept] at hplan
  exact askable_of_construct hplan

/-- The outcome of compiling what can be written. -/
theorem outcomeWhen_compiled {filters : Value} (hfilters : filters.isWritable = true)
    (hfields : fields.isWritable = true) (d : Bool) :
    (compiled filters fields).outcomeWhen d = .ok (compileValue filters fields) :=
  outcomeWhen_compiled_of_construct (constructValue_eq hfilters hfields) d

/-- **Whatever the filters are, they have a plan, and it is well ordered.** -/
theorem exists_wellOrdered (filters fields : Value) (hfilters : filters.isWritable = true)
    (hfields : fields.isWritable = true) (c : Context) :
    ∃ plan, ((compiled filters fields).runFrom c).1 = .ok plan ∧ plan.WellOrdered := by
  refine ⟨compileValue filters fields, ?_, wellOrdered_compile _ fields⟩
  rw [(steady_compiled filters fields).outcome c]
  exact outcomeWhen_compiled hfilters hfields c.debugging

/-- Fields of mixed shapes, and price bounds the wrong way round. -/
theorem exists_wellOrdered_of_mixed :
    ∃ plan, ((compiled (.object [("brand", .str "Acme, , Noir"), ("colors", .bool true), ("q", .list []),
        ("price", .object [("min", .str "80.5"), ("max", .int 20)]), ("page", .list [.null, .str "3"])])
      (.list [.str "name,slug", .null])).runFrom (.initial true)).1 = .ok plan ∧ plan.WellOrdered :=
  exists_wellOrdered _ _ (by decide +kernel) (by decide +kernel) _

end Plan

end Outfitter
