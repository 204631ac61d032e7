import Outfitter.Proofs.Filters.Idempotent
import Outfitter.Proofs.Plan.AsksFor
import Outfitter.Proofs.Schema.Fitting

/-!
Filters that cross the boundary of the program.

The payload that filters make may write their numbers in another way, and it is normalized again. Filters in
which nothing is left to rewrite, and whose price bounds are a range, come out of it as they were
(`crosses_of_settled`).
-/

namespace Outfitter.Schema

open Filters Plan

variable {filters : Fields} {α : Type}

/-- The filters make a payload, and the payload makes filters that are equal to them. -/
def Crosses (filters : Fields) : Prop :=
  ∃ p, Payload.ofFilters (.object filters) = .ok p ∧
    (Value.object p.toFilters).same (.object filters) = true

theorem ofFilters_object (filters : Fields) :
    Payload.ofFilters (.object filters) = Payload.check .notRecord (.object filters) := by
  cases filters <;> rfl

/-- The value is a price whose bounds are a range, and not negative. -/
def IsSpan (v : Value) : Prop :=
  ∃ least most, IsRange least most ∧ (∀ q ∈ least, 0 ≤ q.units) ∧ (∀ q ∈ most, 0 ≤ q.units) ∧
    priceValue (least.map Quantity.toValue) (most.map Quantity.toValue) = some v

/-- The filters fit, and there is nothing left to rewrite in them. -/
structure Settled (filters : Fields) : Prop where
  fits : Holds Fitting filters
  normal : ∀ name ∈ listFields, ∀ v, Fields.get? filters name = some v → IsNormal name v
  price : ∀ v, Fields.get? filters "price" = some v → IsSpan v

/-- The second value may stand for the first in a field: it is equal to it, and normalization leaves it. -/
structure Comes (name : String) (v w : Value) : Prop where
  same : w.same v = true
  kept : Value.pruned? w = some w
  normal : name ∈ listFields → IsNormal name w

/-! ### single fields -/

theorem same_ofStrings (xs : List String) : (Value.ofStrings xs).same (.ofStrings xs) = true := by
  have hkeyed : ∀ xs : List String, Value.areKeyed (xs.map .str) = true := by
    intro xs
    induction xs with
    | nil => rfl
    | cons x xs ih => exact ih
  exact Value.same_self _ (hkeyed xs)

/-- A field that is read under its first spelling, and what is written of it. -/
theorem exists_optional {name : String} {others : List String} {check : Value → Checked α} {f : α → Value}
    (hothers : ∀ other ∈ others, Fields.get? filters other = none)
    (h : ∀ v, Fields.get? filters name = some v → v ≠ .null ∧ ∃ a, check v = .ok a ∧ Comes name v (f a)) :
    ∃ o, optional filters (name :: others) none (orNone check) = .ok o ∧
      Option.Rel (Comes name) (Fields.get? filters name) (o.map f) := by
  cases hv : Fields.get? filters name with
  | some v =>
    obtain ⟨hnull, a, ha, hcomes⟩ := h v hv
    exact ⟨some a, optional_present hv _ (orNone_ok hnull ha), .some hcomes⟩
  | none =>
    refine ⟨none, optional_absent _ _ fun other hmem => ?_, .none⟩
    rcases List.mem_cons.mp hmem with rfl | hother
    · exact hv
    · exact hothers other hother

theorem Fitting.comes {name : String} {v : Value} (h : Fitting name v) (hname : name ∉ listFields)
    (hsame : v.same v = true) : Comes name v v :=
  ⟨hsame, h.pruned?, fun hmem => absurd hmem hname⟩

variable (h : Settled filters)

include h

theorem Settled.absent {other : String} (hother : ∀ v, ¬ Fitting other v) :
    Fields.get? filters other = none :=
  Option.eq_none_iff_forall_ne_some.mpr fun v hv => hother v (h.fits.get? hv)

theorem Settled.exists_list (name : String) (hname : name ∈ listFields) (others : List String)
    (hothers : ∀ other ∈ others, ∀ v, ¬ Fitting other v) :
    ∃ o, optional filters (name :: others) none (orNone texts) = .ok o ∧
      Option.Rel (Comes name) (Fields.get? filters name) (o.map .ofStrings) := by
  refine exists_optional (fun other hother => h.absent (hothers other hother)) fun v hv => ?_
  obtain ⟨xs, rfl, hxs⟩ := (fitting_list hname v).mp (h.fits.get? hv)
  refine ⟨nofun, xs, texts_ofStrings xs, same_ofStrings xs, ?_, fun _ => h.normal name hname _ hv⟩
  exact Lists.pruned? (P := fun _ => True) ⟨xs, rfl, hxs⟩

/-- A field with one value, which is read as it is. -/
theorem Settled.exists_scalar (name : String) (hname : name ∉ listFields) (others : List String)
    (hothers : ∀ other ∈ others, ∀ v, ¬ Fitting other v) (check : Value → Checked α) (f : α → Value)
    (hcheck : ∀ v, Fitting name v → v ≠ .null ∧ v.same v = true ∧ ∃ a, check v = .ok a ∧ f a = v) :
    ∃ o, optional filters (name :: others) none (orNone check) = .ok o ∧
      Option.Rel (Comes name) (Fields.get? filters name) (o.map f) := by
  refine exists_optional (fun other hother => h.absent (hothers other hother)) fun v hv => ?_
  have hfits := h.fits.get? hv
  obtain ⟨hnull, hsame, a, ha, rfl⟩ := hcheck v hfits
  exact ⟨hnull, a, ha, hfits.comes hname hsame⟩

omit h

/-! ### the price -/

theorem isPrice_toValue {q : Quantity} {x : Double} (hx : Quantity.ofDouble? x = some q) (hq : 0 ≤ q.units) :
    IsPrice q.toValue := by
  obtain ⟨y, hy, -⟩ := exists_double hx
  cases q with
  | whole n =>
    have hn : 0 ≤ n := Int.nonneg_of_mul_nonneg_left hq (Int.natCast_pos.mpr Double.unitsPerOne_pos)
    obtain ⟨m, rfl⟩ := Int.eq_ofNat_of_zero_le hn
    exact .inl ⟨m, rfl, y, hy⟩
  | fraction y => exact .inr ⟨_, rfl, decide_eq_true hq⟩

theorem IsSpan.prices {v : Value} (h : IsSpan v) : Prices IsPrice v := by
  obtain ⟨least, most, hrange, hleast, hmost, he⟩ := h
  have hbound : ∀ {bound : Option Quantity}, (∀ q ∈ bound, ∃ x, Quantity.ofDouble? x = some q) →
      (∀ q ∈ bound, 0 ≤ q.units) → ∀ w ∈ bound.map Quantity.toValue, IsPrice w := by
    intro bound hread hunits w hw
    obtain ⟨q, hq, rfl⟩ := Option.map_eq_some_iff.mp hw
    obtain ⟨x, hx⟩ := hread q hq
    exact isPrice_toValue hx (hunits q hq)
  have hlow := hbound hrange.lower hleast
  have hhigh := hbound hrange.upper hmost
  refine leaves_boundFields hlow hhigh (fun _ => IsPrice.isNumber) v ?_
  rw [pruned?_bounds (fun v hv => (hlow v hv).isNumber) fun v hv => (hhigh v hv).isNumber]
  exact he

/-- A bound of a price is read as a double. -/
theorem nonNegative_toValue {x : Double} {q : Quantity} (hq : Quantity.ofDouble? x = some q)
    (hunits : 0 ≤ q.units) : nonNegativeNumber q.toValue = .ok (double q) := by
  obtain ⟨y, hy, hyq⟩ := exists_double hq
  have hnumber : number q.toValue = .ok (double q) := by
    cases q with
    | fraction => rfl
    | whole n =>
      have hfinite : Double.ofInt n = .finite y := hy
      show number (.int n) = .ok (Double.ofInt n)
      unfold number
      dsimp only
      rw [hfinite]
  have hpositive : isNonNegative (double q) = true := by
    rw [hy]
    exact decide_eq_true (hyq ▸ hunits)
  unfold nonNegativeNumber
  rw [hnumber]
  exact if_pos hpositive

theorem range_check {least most : Option Quantity} (hrange : IsRange least most)
    (hleast : ∀ q ∈ least, 0 ≤ q.units) (hmost : ∀ q ∈ most, 0 ≤ q.units) (otherwise : String → Mismatch) :
    PriceRange.check otherwise
        (.object (boundFields (least.map Quantity.toValue) (most.map Quantity.toValue))) =
      .ok ⟨least.map double, most.map double⟩ := by
  have hbound : ∀ (fields : Fields) (name : String) (bound : Option Quantity),
      (∀ q ∈ bound, ∃ x, Quantity.ofDouble? x = some q) → (∀ q ∈ bound, 0 ≤ q.units) →
      Fields.get? fields name = bound.map Quantity.toValue →
      optional fields [name] none (orNone nonNegativeNumber) = .ok (bound.map double) := by
    intro fields name bound hread hunits hget
    cases bound with
    | none => exact optional_absent _ _ fun other hother => List.mem_singleton.mp hother ▸ hget
    | some q =>
      obtain ⟨x, hx⟩ := hread q rfl
      have hnull : q.toValue ≠ .null := by cases q <;> exact nofun
      exact optional_present hget _ (orNone_ok hnull (nonNegative_toValue hx (hunits q rfl)))
  have hmin := get?_boundFields (least.map Quantity.toValue) (most.map Quantity.toValue) "min"
  have hmax := get?_boundFields (least.map Quantity.toValue) (most.map Quantity.toValue) "max"
  show PriceRange.mk <$> optional _ ["min"] none (orNone nonNegativeNumber)
    <*> optional _ ["max"] none (orNone nonNegativeNumber) = _
  rw [hbound _ "min" least hrange.lower hleast hmin, hbound _ "max" most hrange.upper hmost hmax]
  rfl

theorem Settled.exists_price (h : Settled filters) (otherwise : String → Mismatch) :
    ∃ o, optional filters ["price"] none (orNone (PriceRange.check otherwise)) = .ok o ∧
      Option.Rel (Comes "price") (Fields.get? filters "price") (o.map fun r => .object r.toFields) := by
  refine exists_optional (fun _ hother => absurd hother List.not_mem_nil) fun v hv => ?_
  obtain ⟨least, most, hrange, hleast, hmost, he⟩ := h.price v hv
  have hnone : ¬ ((least.map Quantity.toValue).isNone && (most.map Quantity.toValue).isNone) = true := by
    intro hnone
    unfold priceValue at he
    rw [if_pos hnone] at he
    cases he
  have hvalue : Value.object (boundFields (least.map Quantity.toValue) (most.map Quantity.toValue)) = v := by
    unfold priceValue at he
    rw [if_neg hnone] at he
    exact Option.some.inj he
  have hfields : PriceRange.toFields ⟨least.map double, most.map double⟩ =
      boundFields ((least.map double).map .float) ((most.map double).map .float) := rfl
  refine ⟨hvalue ▸ nofun, _, hvalue ▸ range_check hrange hleast hmost otherwise, ?_, ?_, fun hmem => ?_⟩
  · rw [← hvalue, hfields]
    exact same_boundFields hrange
  · have hnumbers : ∀ bound : Option Quantity, ∀ v ∈ (bound.map double).map Value.float, IsNumber v := by
      intro bound v hv
      obtain ⟨x, -, rfl⟩ := Option.map_eq_some_iff.mp hv
      exact .inr ⟨x, rfl⟩
    rw [hfields, pruned?_bounds (hnumbers least) (hnumbers most)]
    cases least <;> cases most <;> first | rfl | exact absurd rfl hnone
  · exact absurd hmem (by decide)

/-! ### all fields -/

/-- Settled filters make a payload, and every field of theirs comes back from it. -/
theorem Settled.exists_payload (h : Settled filters) (otherwise : String → Mismatch) :
    ∃ p, Payload.check otherwise (.object filters) = .ok p ∧
      ∀ row ∈ p.table, Option.Rel (Comes row.1) (Fields.get? filters row.1) row.2 := by
  have hno : ∀ other ∈ ([] : List String), ∀ v, ¬ Fitting other v := fun _ hm => absurd hm List.not_mem_nil
  obtain ⟨categories, hcategories, rcategories⟩ := h.exists_list "include_categories" (by decide)
    ["includeCategories"] fun _ hm v hv => absurd (List.mem_singleton.mp hm ▸ hv).1 (by decide)
  obtain ⟨ids, hids, rids⟩ := h.exists_list "category_ids" (by decide)
    ["categoryIds"] fun _ hm v hv => absurd (List.mem_singleton.mp hm ▸ hv).1 (by decide)
  obtain ⟨colors, hcolors, rcolors⟩ := h.exists_list "colors" (by decide) [] hno
  obtain ⟨sizes, hsizes, rsizes⟩ := h.exists_list "sizes" (by decide) [] hno
  obtain ⟨price, hprice, rprice⟩ := h.exists_price otherwise
  obtain ⟨occasion, hoccasion, roccasion⟩ := h.exists_list "occasion" (by decide) [] hno
  obtain ⟨season, hseason, rseason⟩ := h.exists_list "season" (by decide) [] hno
  obtain ⟨fit, hfit, rfit⟩ := h.exists_list "fit" (by decide) [] hno
  obtain ⟨silhouette, hsilhouette, rsilhouette⟩ := h.exists_list "silhouette" (by decide) [] hno
  obtain ⟨material, hmaterial, rmaterial⟩ := h.exists_list "material" (by decide) [] hno
  obtain ⟨pattern, hpattern, rpattern⟩ := h.exists_list "pattern" (by decide) [] hno
  obtain ⟨brand, hbrand, rbrand⟩ := h.exists_list "brand" (by decide) [] hno
  obtain ⟨q, hq, rq⟩ := h.exists_scalar "q" (by decide) [] hno text .str
    (by
      rintro _ ⟨s, rfl, _⟩
      exact ⟨nofun, Value.same_self _ rfl, s, rfl, rfl⟩)
  obtain ⟨stock, hstock, rstock⟩ := h.exists_scalar "in_stock" (by decide) ["inStock"]
    (fun _ hm v hv => absurd (List.mem_singleton.mp hm ▸ hv).1 (by decide)) truth .bool
    (by
      rintro _ ⟨b, rfl⟩
      exact ⟨nofun, Value.same_self _ rfl, b, rfl, rfl⟩)
  obtain ⟨sort, hsort, rsort⟩ := h.exists_scalar "sort" (by decide) [] hno
    (oneOf (SortOrder.all.map SortOrder.name) Payload.sortNames) .str
    (by
      rintro _ ⟨s, hs, rfl⟩
      exact ⟨nofun, Value.same_self _ rfl, s, if_pos hs, rfl⟩)
  obtain ⟨page, hpage, rpage⟩ := h.exists_scalar "page" (by decide) [] hno (wholeWithin 1 none) .int
    (by
      rintro _ ⟨n, rfl, hleast⟩
      exact ⟨nofun, Value.same_self _ rfl, n, if_neg (Int.not_lt.mpr hleast), rfl⟩)
  obtain ⟨limit, hlimit, rlimit⟩ := h.exists_scalar "limit" (by decide) [] hno
    (wholeWithin 1 (some maxLimit)) .int
    (by
      rintro _ ⟨n, rfl, hleast, hmost⟩
      exact ⟨nofun, Value.same_self _ rfl, n,
        (if_neg (Int.not_lt.mpr hleast)).trans (if_neg (Int.not_lt.mpr hmost)), rfl⟩)
  refine ⟨⟨categories, ids, colors, sizes, price, occasion, season, fit, silhouette, material, pattern, brand, q,
    stock, sort, page, limit⟩, ?_, ?_⟩
  · unfold Payload.check record
    dsimp only
    rw [hcategories, hids, hcolors, hsizes, hprice, hoccasion, hseason, hfit, hsilhouette, hmaterial, hpattern,
      hbrand, hq, hstock, hsort, hpage, hlimit]
    rfl
  · simp only [Payload.table, List.forall_mem_cons]
    exact ⟨rcategories, rids, rcolors, rsizes, rprice, roccasion, rseason, rfit, rsilhouette, rmaterial, rpattern,
      rbrand, rq, rstock, rsort, rpage, rlimit, fun _ hm => absurd hm List.not_mem_nil⟩

/-- Whatever fits stands in a field that a payload has. -/
theorem mem_table_of_fitting {name : String} {v : Value} (h : Fitting name v) (p : Payload) :
    name ∈ p.table.map (·.1) := by
  have hlists : ∀ name ∈ listFields, name ∈ p.table.map (·.1) := by
    simp only [Payload.table, List.map_cons, List.map_nil]
    decide
  unfold Fitting at h
  split at h
  all_goals first
    | exact hlists _ h.1
    | simp only [Payload.table, List.map_cons, List.map_nil]
      decide

/-- All fields of settled filters are among those of the payload, and the other way round. -/
theorem rel_toFields (h : Settled filters) {p : Payload}
    (hrows : ∀ row ∈ p.table, Option.Rel (Comes row.1) (Fields.get? filters row.1) row.2) (key : Key) :
    Option.Rel (fun v w => ∃ name : String, key = name ∧ Comes name v w) (Fields.get? filters key)
      (Fields.get? p.toFields key) := by
  rw [toFields_table]
  by_cases hkey : ∃ row ∈ p.table, Key.text row.1 = key
  · obtain ⟨row, hrow, rfl⟩ := hkey
    have hrel := hrows row hrow
    rw [Fields.get?_ofTable (nodup_table p), Keyed.lookup_of_mem (nodup_table p) hrow, Option.join_some]
    generalize Fields.get? filters row.1 = v at hrel
    generalize row.2 = w at hrel
    cases hrel with
    | none => exact .none
    | some hcomes => exact .some ⟨row.1, rfl, hcomes⟩
  · have hfilters : Fields.get? filters key = none := by
      refine Option.eq_none_iff_forall_ne_some.mpr fun v hv => hkey ?_
      obtain ⟨name, rfl, hfits⟩ := h.fits.get?_text hv
      obtain ⟨row, hrow, he⟩ := List.mem_map.mp (mem_table_of_fitting hfits p)
      exact ⟨row, hrow, congrArg Key.text he⟩
    have hpayload : Fields.get? (Fields.ofTable p.table) key = none := by
      refine Classical.byContradiction fun hne => hkey ?_
      obtain ⟨name, hname, he⟩ := Fields.mem_keys_ofTable ((Fields.mem_keys_iff _ key).mpr hne)
      obtain ⟨row, hrow, rfl⟩ := List.mem_map.mp hname
      exact ⟨row, hrow, he⟩
    rw [hfilters, hpayload]
    exact .none

/-- What comes back in a payload is found in its filters. -/
theorem get?_toFilters {p : Payload} {name : String} {v w : Value}
    (hget : Fields.get? p.toFields name = some w) (h : Comes name v w) :
    Fields.get? p.toFilters name = some w := by
  unfold Payload.toFilters
  by_cases hname : name ∈ listFields
  · rw [get?_normalize_field (nodup_toFields p) hname, hget, Option.map_some, (h.normal hname).rewritten]
    exact h.kept
  · rw [get?_normalize_other (nodup_toFields p) hname, hget]
    exact h.kept

/-- **Settled filters cross the boundary unchanged.** -/
theorem crosses_of_settled (h : Settled filters) : Crosses filters := by
  obtain ⟨p, hp, hrows⟩ := h.exists_payload .notRecord
  refine ⟨p, (ofFilters_object filters).trans hp, ?_⟩
  refine Value.same_object (nodup_normalize (nodup_toFields p)) h.fits.nodup fun key => ?_
  have hrel := rel_toFields h hrows key
  cases hv : Fields.get? filters key with
  | none =>
    rw [hv] at hrel
    have hnone : Fields.get? p.toFields key = none := by
      generalize Fields.get? p.toFields key = w at hrel
      cases hrel
      rfl
    rw [show Fields.get? p.toFilters key = none from get?_normalize_none hnone]
    exact .none
  | some v =>
    rw [hv] at hrel
    obtain ⟨w, hw, name, rfl, hcomes⟩ : ∃ w, Fields.get? p.toFields key = some w ∧
        ∃ name : String, key = name ∧ Comes name v w := by
      generalize Fields.get? p.toFields key = w at hrel
      cases hrel with
      | some h => exact ⟨_, rfl, h⟩
    rw [get?_toFilters hw hcomes]
    exact .some hcomes.same

end Outfitter.Schema
