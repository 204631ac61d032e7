import Outfitter.Proofs.Filters.Holding
import Outfitter.Proofs.Journal.Writable
import Outfitter.Proofs.Number.Decimal
import Outfitter.Proofs.Schema.Payload
import Outfitter.Proofs.Text.Runs

/-!
Filters that fit the form of a payload.

A field of such filters holds a list of texts, price bounds that are not negative, or a single value in its
range (`Fitting`). Filters that fit pass the check of a payload (`isOk_check`), and what passes the check comes
to filters that fit (`holds_toFilters`).
-/

namespace Outfitter.Schema

open Filters

variable {α β : Type}

/-! ### checks in which nothing is wrong -/

namespace Checked

/-- Nothing is wrong. -/
def IsOk (c : Checked α) : Prop :=
  ∃ a, c = .ok a

theorem map_eq_ok {f : α → β} {c : Checked α} {b : β} : f <$> c = .ok b ↔ ∃ a, c = .ok a ∧ f a = b := by
  cases c with
  | ok a => exact ⟨fun h => ⟨a, rfl, ok.inj h⟩, fun ⟨_, ha, hb⟩ => by rw [← hb, ← ok.inj ha]; rfl⟩
  | faulty => exact ⟨nofun, nofun⟩

/-- Of two checks side by side, nothing is wrong in either. -/
theorem seq_eq_ok {f : Checked (α → β)} {c : Checked α} {b : β} :
    f <*> c = .ok b ↔ ∃ g a, f = .ok g ∧ c = .ok a ∧ g a = b := by
  cases f with
  | ok g =>
    cases c with
    | ok a => exact ⟨fun h => ⟨g, a, rfl, rfl, ok.inj h⟩, fun ⟨_, _, hg, ha, hb⟩ => by
        rw [← hb, ← ok.inj hg, ← ok.inj ha]; rfl⟩
    | faulty => exact ⟨nofun, nofun⟩
  | faulty => cases c <;> exact ⟨nofun, nofun⟩

theorem IsOk.map {c : Checked α} (h : c.IsOk) (f : α → β) : (f <$> c).IsOk := by
  obtain ⟨a, ha⟩ := h
  exact ⟨f a, map_eq_ok.mpr ⟨a, ha, rfl⟩⟩

theorem IsOk.seq {f : Checked (α → β)} {c : Checked α} (hf : f.IsOk) (hc : c.IsOk) : (f <*> c).IsOk := by
  obtain ⟨g, hg⟩ := hf
  obtain ⟨a, ha⟩ := hc
  exact ⟨g a, seq_eq_ok.mpr ⟨g, a, hg, ha, rfl⟩⟩

theorem andThen_eq_ok {c : Checked α} {f : α → Checked β} {b : β} (h : c.andThen f = .ok b) :
    ∃ a, c = .ok a ∧ f a = .ok b := by
  cases c with
  | ok a => exact ⟨a, rfl, h⟩
  | faulty => cases h

theorem of_part {step : Step} {check : Value → Checked α} {v : Value} {a : α}
    (h : part step check v = .ok a) : check v = .ok a := by
  unfold part within about mapProblems at h
  cases hc : check v with
  | ok b =>
    rw [hc] at h
    exact h
  | faulty =>
    rw [hc] at h
    cases h

end Checked

theorem of_orNone {check : Value → Checked α} {v : Value} {o : Option α} (h : orNone check v = .ok o) :
    ∀ a ∈ o, check v = .ok a := by
  unfold orNone at h
  split at h
  · cases h
    exact nofun
  · obtain ⟨a, ha, rfl⟩ := Checked.map_eq_ok.mp h
    exact fun _ hb => Option.some.inj hb ▸ ha

theorem get?_of_spelling? {fields : Fields} {names : List String} {name : String} {v : Value}
    (h : spelling? fields names = some (name, v)) : Fields.get? fields name = some v := by
  obtain ⟨other, -, hother⟩ := List.exists_of_findSome?_eq_some h
  obtain ⟨w, hw, he⟩ := Option.map_eq_some_iff.mp hother
  obtain ⟨rfl, rfl⟩ := Prod.mk.inj he
  exact hw

/-- What has been found in a field that may be left out has passed its check. -/
theorem of_optional {fields : Fields} {names : List String} {check : Value → Checked α} {o : Option α}
    (h : optional fields names none (orNone check) = .ok o) :
    ∀ a ∈ o, ∃ v, (∃ name : String, Fields.get? fields name = some v) ∧ check v = .ok a := by
  unfold optional at h
  split at h
  · rename_i hspelling
    exact fun a ha => ⟨_, ⟨_, get?_of_spelling? hspelling⟩, of_orNone (Checked.of_part h) a ha⟩
  · cases h
    exact nofun

theorem exists_of_optional {fields : Fields} {name : String} {names : List String} {v : Value}
    {check : Value → Checked α} {o : Option α} (hget : Fields.get? fields name = some v) (hv : v ≠ .null)
    (h : optional fields (name :: names) none (orNone check) = .ok o) : ∃ a, check v = .ok a := by
  have hspelling : spelling? fields (name :: names) = some (name, v) := by
    unfold spelling?
    rw [List.findSome?_cons, hget]
    rfl
  unfold optional at h
  rw [hspelling] at h
  have hor := Checked.of_part h
  unfold orNone at hor
  split at hor
  · exact absurd rfl hv
  · obtain ⟨a, ha, -⟩ := Checked.map_eq_ok.mp hor
    exact ⟨a, ha⟩

theorem isOk_orNone {check : Value → Checked α} {v : Value} (h : (check v).IsOk) : (orNone check v).IsOk := by
  unfold orNone
  split
  · exact ⟨none, rfl⟩
  · exact h.map _

/-- Nothing is wrong with a field if its only spelling is right, or absent. -/
theorem isOk_optional {fields : Fields} {name : String} {others : List String} {check : Value → Checked α}
    (hothers : ∀ other ∈ others, Fields.get? fields other = none)
    (h : ∀ v, Fields.get? fields name = some v → (check v).IsOk) :
    (optional fields (name :: others) none (orNone check)).IsOk := by
  cases hv : Fields.get? fields name with
  | some v =>
    obtain ⟨o, ho⟩ := isOk_orNone (h v hv)
    exact ⟨o, optional_present hv _ ho⟩
  | none =>
    refine ⟨none, optional_absent _ _ fun other hmem => ?_⟩
    rcases List.mem_cons.mp hmem with rfl | hother
    · exact hv
    · exact hothers other hother

/-! ### fields that fit -/

/-- A number that may be a price bound: not negative, and not beyond all doubles if it is a whole number. -/
def IsPrice (v : Value) : Prop :=
  (∃ n : Nat, v = .int n ∧ ∃ x, Double.ofInt n = .finite x) ∨ ∃ x, v = .float x ∧ isNonNegative x = true

/-- The field that a payload may have, with a value that it may hold. -/
def Fitting (name : String) (v : Value) : Prop :=
  match name with
  | "price" => Prices IsPrice v
  | "q" => ∃ s : String, v = .str s ∧ s.isEmpty = false
  | "in_stock" => ∃ b, v = .bool b
  | "sort" => ∃ s ∈ SortOrder.all.map SortOrder.name, v = .str s
  | "page" => ∃ n : Int, v = .int n ∧ 1 ≤ n
  | "limit" => ∃ n : Int, v = .int n ∧ 1 ≤ n ∧ n ≤ maxLimit
  | name => name ∈ listFields ∧ Lists (fun _ => True) v

theorem fitting_list {name : String} (h : name ∈ listFields) (v : Value) :
    Fitting name v ↔ Lists (fun _ => True) v := by
  simp only [listFields, List.mem_cons, List.not_mem_nil, or_false] at h
  rcases h with rfl | rfl | rfl | rfl | rfl | rfl | rfl | rfl | rfl | rfl | rfl <;>
    exact and_iff_right (by decide)

theorem IsPrice.isNumber {v : Value} (h : IsPrice v) : IsNumber v := by
  rcases h with ⟨n, rfl, -⟩ | ⟨x, rfl, -⟩
  · exact .inl ⟨n, rfl⟩
  · exact .inr ⟨x, rfl⟩

theorem Fitting.pruned? {name : String} {v : Value} (h : Fitting name v) : Value.pruned? v = some v := by
  have hnames : ∀ s ∈ SortOrder.all.map SortOrder.name, s.isEmpty = false := by decide
  have htext : ∀ s : String, s.isEmpty = false → Value.pruned? (.str s) = some (.str s) := by
    intro s hs
    unfold Value.pruned?
    exact if_neg (by
      show ¬ s.isEmpty = true
      rw [hs]
      exact Bool.false_ne_true)
  unfold Fitting at h
  split at h
  · exact Prices.pruned? h fun _ => IsPrice.isNumber
  · obtain ⟨s, rfl, hs⟩ := h
    exact htext s hs
  · obtain ⟨b, rfl⟩ := h
    rfl
  · obtain ⟨s, hs, rfl⟩ := h
    exact htext s (hnames s hs)
  · obtain ⟨n, rfl, -⟩ := h
    rfl
  · obtain ⟨n, rfl, -⟩ := h
    rfl
  · exact h.2.pruned?

/-! ### filters that fit pass -/

section

variable {filters : Fields}

theorem IsPrice.isOk {v : Value} (h : IsPrice v) : (nonNegativeNumber v).IsOk := by
  rcases h with ⟨n, rfl, x, hx⟩ | ⟨x, rfl, hx⟩
  · have hpositive := (Double.isWhole_of_ofInt hx).2
    have hunits : isNonNegative (.finite x) = true := by
      refine decide_eq_true ?_
      unfold Double.Finite.units
      rw [hpositive, if_neg Bool.false_ne_true]
      exact Int.natCast_nonneg _
    refine ⟨.finite x, ?_⟩
    unfold nonNegativeNumber number
    simp only [hx]
    exact if_pos hunits
  · exact ⟨x, if_pos hx⟩

theorem isOk_range {v : Value} (h : Prices IsPrice v) (otherwise : String → Mismatch) :
    (PriceRange.check otherwise v).IsOk := by
  obtain ⟨fields, rfl, hbounds⟩ := h
  have hbound : ∀ name : String, (optional fields [name] none (orNone nonNegativeNumber)).IsOk :=
    fun name => isOk_optional (fun _ hother => absurd hother List.not_mem_nil) fun v hv =>
      (hbounds.each _ (Fields.mem_of_get? hv)).2.isOk
  exact ((hbound "min").map _).seq (hbound "max")

theorem isOk_wholeWithin {n least : Int} {most : Option Int} (hleast : least ≤ n) (hmost : ∀ m ∈ most, n ≤ m) :
    (wholeWithin least most (.int n)).IsOk := by
  refine ⟨n, ?_⟩
  show (if n < least then _ else _ : Checked Int) = _
  rw [if_neg (Int.not_lt.mpr hleast)]
  cases most with
  | none => rfl
  | some m => exact if_neg (Int.not_lt.mpr (hmost m rfl))

/-- A field of filters that fit, which is checked under this name first. -/
theorem isOk_field (h : Holds Fitting filters) {name : String} {others : List String}
    (hothers : ∀ other ∈ others, ∀ v, ¬ Fitting other v) {check : Value → Checked α}
    (hcheck : ∀ v, Fitting name v → (check v).IsOk) :
    (optional filters (name :: others) none (orNone check)).IsOk := by
  refine isOk_optional (fun other hother => ?_) fun v hv => hcheck v (h.get? hv)
  exact Option.eq_none_iff_forall_ne_some.mpr fun v hv => hothers other hother v (h.get? hv)

/-- **Filters that fit make a payload.** -/
theorem isOk_check (h : Holds Fitting filters) (otherwise : String → Mismatch) :
    (Payload.check otherwise (.object filters)).IsOk := by
  have hlist : ∀ name ∈ listFields, ∀ v, Fitting name v → (texts v).IsOk := by
    intro name hname v hv
    obtain ⟨xs, rfl, -⟩ := (fitting_list hname v).mp hv
    exact ⟨xs, texts_ofStrings xs⟩
  have hlone : ∀ name ∈ listFields, (optional filters [name] none (orNone texts)).IsOk :=
    fun name hname => isOk_field h (fun _ hother => absurd hother List.not_mem_nil) (hlist name hname)
  have hsingle : ∀ {β : Type} {name : String} {check : Value → Checked β},
      (∀ v, Fitting name v → (check v).IsOk) → (optional filters [name] none (orNone check)).IsOk :=
    fun hcheck => isOk_field h (fun _ hother => absurd hother List.not_mem_nil) hcheck
  -- another spelling of a name never stands in filters that fit
  have hspelled : ∀ {β : Type} {name other : String} {check : Value → Checked β}, (∀ v, ¬ Fitting other v) →
      (∀ v, Fitting name v → (check v).IsOk) → (optional filters [name, other] none (orNone check)).IsOk :=
    fun hother hcheck => isOk_field h (fun _ hmem => List.mem_singleton.mp hmem ▸ hother) hcheck
  have hcategories : (optional filters ["include_categories", "includeCategories"] none (orNone texts)).IsOk :=
    hspelled (fun v hv => absurd hv.1 (by decide)) (hlist "include_categories" (by decide))
  have hids : (optional filters ["category_ids", "categoryIds"] none (orNone texts)).IsOk :=
    hspelled (fun v hv => absurd hv.1 (by decide)) (hlist "category_ids" (by decide))
  have hprice : (optional filters ["price"] none (orNone (PriceRange.check otherwise))).IsOk :=
    hsingle fun v hv => isOk_range hv otherwise
  have hq : (optional filters ["q"] none (orNone text)).IsOk :=
    hsingle fun v ⟨s, hs, _⟩ => ⟨s, by rw [hs]; rfl⟩
  have hstock : (optional filters ["in_stock", "inStock"] none (orNone truth)).IsOk :=
    hspelled (fun v hv => absurd hv.1 (by decide)) fun v ⟨b, hb⟩ => ⟨b, by rw [hb]; rfl⟩
  have hsort : (optional filters ["sort"] none (orNone (oneOf (SortOrder.all.map SortOrder.name)
      Payload.sortNames))).IsOk :=
    hsingle fun v ⟨s, hs, he⟩ => ⟨s, by rw [he]; exact if_pos hs⟩
  have hpage : (optional filters ["page"] none (orNone (wholeWithin 1 none))).IsOk :=
    hsingle fun v ⟨n, hn, hleast⟩ => hn ▸ isOk_wholeWithin hleast nofun
  have hlimit : (optional filters ["limit"] none (orNone (wholeWithin 1 (some maxLimit)))).IsOk :=
    hsingle fun v ⟨n, hn, hleast, hmost⟩ => hn ▸ isOk_wholeWithin hleast fun m hm => Option.some.inj hm ▸ hmost
  unfold Payload.check record
  exact (hcategories.map Payload.mk).seq hids |>.seq (hlone "colors" (by decide))
    |>.seq (hlone "sizes" (by decide)) |>.seq hprice |>.seq (hlone "occasion" (by decide))
    |>.seq (hlone "season" (by decide)) |>.seq (hlone "fit" (by decide))
    |>.seq (hlone "silhouette" (by decide)) |>.seq (hlone "material" (by decide))
    |>.seq (hlone "pattern" (by decide)) |>.seq (hlone "brand" (by decide)) |>.seq hq |>.seq hstock
    |>.seq hsort |>.seq hpage |>.seq hlimit

end

/-! ### payloads come to filters that fit -/

/-- What the check of a payload makes sure of. -/
structure Payload.Sound (p : Payload) : Prop where
  least : ∀ r ∈ p.price, ∀ x ∈ r.least, isNonNegative x = true
  most : ∀ r ∈ p.price, ∀ x ∈ r.most, isNonNegative x = true
  sort : ∀ s ∈ p.sort, s ∈ SortOrder.all.map SortOrder.name
  page : ∀ n ∈ p.page, 1 ≤ n
  limit : ∀ n ∈ p.limit, 1 ≤ n ∧ n ≤ maxLimit

theorem of_nonNegativeNumber {v : Value} {x : Double} (h : nonNegativeNumber v = .ok x) :
    isNonNegative x = true := by
  obtain ⟨y, -, hy⟩ := Checked.andThen_eq_ok h
  split at hy
  · cases hy
    assumption
  · cases hy

theorem parts_of_range {fields : Fields} {otherwise : String → Mismatch} {r : PriceRange}
    (h : PriceRange.check otherwise (.object fields) = .ok r) :
    optional fields ["min"] none (orNone nonNegativeNumber) = .ok r.least ∧
      optional fields ["max"] none (orNone nonNegativeNumber) = .ok r.most := by
  obtain ⟨g, most, hg, hmost, rfl⟩ := Checked.seq_eq_ok.mp h
  obtain ⟨least, hleast, rfl⟩ := Checked.map_eq_ok.mp hg
  exact ⟨hleast, hmost⟩

theorem of_range {v : Value} {otherwise : String → Mismatch} {r : PriceRange}
    (h : PriceRange.check otherwise v = .ok r) :
    (∀ x ∈ r.least, isNonNegative x = true) ∧ ∀ x ∈ r.most, isNonNegative x = true := by
  have hbound : ∀ {fields : Fields} {name : String} {o : Option Double},
      optional fields [name] none (orNone nonNegativeNumber) = .ok o → ∀ x ∈ o, isNonNegative x = true := by
    intro fields name o ho x hx
    obtain ⟨v, -, hv⟩ := of_optional ho x hx
    exact of_nonNegativeNumber hv
  cases v with
  | object fields => exact ⟨hbound (parts_of_range h).1, hbound (parts_of_range h).2⟩
  | _ => cases h

theorem of_wholeWithin {least n : Int} {most : Option Int} {v : Value} (h : wholeWithin least most v = .ok n) :
    least ≤ n ∧ ∀ m ∈ most, n ≤ m := by
  obtain ⟨k, -, hk⟩ := Checked.andThen_eq_ok h
  split at hk
  · cases hk
  · rename_i hleast
    cases most with
    | none =>
      cases hk
      exact ⟨Int.not_lt.mp hleast, nofun⟩
    | some m =>
      dsimp only at hk
      split at hk
      · cases hk
      · rename_i hmost
        cases hk
        exact ⟨Int.not_lt.mp hleast, fun _ hm => Option.some.inj hm ▸ Int.not_lt.mp hmost⟩

theorem of_oneOf {texts : List String} {allowed s : String} {v : Value} (h : oneOf texts allowed v = .ok s) :
    s ∈ texts := by
  unfold oneOf at h
  split at h
  · split at h
    · cases h
      assumption
    · cases h
  · cases h

/-- The parts of a payload in which more than a shape is checked. -/
theorem parts_of_check {otherwise : String → Mismatch} {fields : Fields} {p : Payload}
    (h : Payload.check otherwise (.object fields) = .ok p) :
    optional fields ["price"] none (orNone (PriceRange.check otherwise)) = .ok p.price ∧
      optional fields ["sort"] none
        (orNone (oneOf (SortOrder.all.map SortOrder.name) Payload.sortNames)) = .ok p.sort ∧
      optional fields ["page"] none (orNone (wholeWithin 1 none)) = .ok p.page ∧
      optional fields ["limit"] none (orNone (wholeWithin 1 (some maxLimit))) = .ok p.limit := by
  unfold Payload.check record at h
  dsimp only at h
  simp only [Checked.seq_eq_ok, Checked.map_eq_ok] at h
  -- the last part stands outermost
  obtain ⟨_, limit, ⟨_, page, ⟨_, sort, ⟨_, stock, ⟨_, q, ⟨_, brand, ⟨_, pattern, ⟨_, material,
    ⟨_, silhouette, ⟨_, fit, ⟨_, season, ⟨_, occasion, ⟨_, price, ⟨_, sizes, ⟨_, colors, ⟨_, ids,
    ⟨categories, -, rfl⟩, -, rfl⟩, -, rfl⟩, -, rfl⟩, hprice, rfl⟩, -, rfl⟩, -, rfl⟩, -, rfl⟩, -, rfl⟩,
    -, rfl⟩, -, rfl⟩, -, rfl⟩, -, rfl⟩, -, rfl⟩, hsort, rfl⟩, hpage, rfl⟩, hlimit, rfl⟩ := h
  exact ⟨hprice, hsort, hpage, hlimit⟩

theorem sound_of_check {otherwise : String → Mismatch} {v : Value} {p : Payload}
    (h : Payload.check otherwise v = .ok p) : p.Sound := by
  cases v with
  | object fields =>
    obtain ⟨hprice, hsort, hpage, hlimit⟩ := parts_of_check h
    have hrange : ∀ r ∈ p.price,
        (∀ x ∈ r.least, isNonNegative x = true) ∧ ∀ x ∈ r.most, isNonNegative x = true := by
      intro r hr
      obtain ⟨v, -, hv⟩ := of_optional hprice r hr
      exact of_range hv
    refine ⟨fun r hr => (hrange r hr).1, fun r hr => (hrange r hr).2, fun s hs => ?_, fun n hn => ?_,
      fun n hn => ?_⟩
    · obtain ⟨v, -, hv⟩ := of_optional hsort s hs
      exact of_oneOf hv
    · obtain ⟨v, -, hv⟩ := of_optional hpage n hn
      exact (of_wholeWithin hv).1
    · obtain ⟨v, -, hv⟩ := of_optional hlimit n hn
      exact ⟨(of_wholeWithin hv).1, (of_wholeWithin hv).2 _ rfl⟩
  | _ => cases h

/-- The bounds of a price in a payload have been checked. -/
theorem isOk_bound {otherwise : String → Mismatch} {fields bounds : Fields} {p : Payload}
    (h : Payload.check otherwise (.object fields) = .ok p)
    (hprice : Fields.get? fields "price" = some (.object bounds)) :
    ∀ key ∈ ["min", "max"], ∀ v, Fields.get? bounds key = some v → v ≠ .null →
      (nonNegativeNumber v).IsOk := by
  intro key hkey v hget hv
  obtain ⟨r, hr⟩ := exists_of_optional hprice nofun (parts_of_check h).1
  obtain ⟨hleast, hmost⟩ := parts_of_range hr
  simp only [List.mem_cons, List.not_mem_nil, or_false] at hkey
  rcases hkey with rfl | rfl
  · exact exists_of_optional hget hv hleast
  · exact exists_of_optional hget hv hmost

/-- The fields of a payload, with their values. -/
def Payload.table (p : Payload) : List (String × Option Value) :=
  [("include_categories", p.includeCategories.map .ofStrings), ("category_ids", p.categoryIds.map .ofStrings),
    ("colors", p.colors.map .ofStrings), ("sizes", p.sizes.map .ofStrings),
    ("price", p.price.map fun r => .object r.toFields), ("occasion", p.occasion.map .ofStrings),
    ("season", p.season.map .ofStrings), ("fit", p.fit.map .ofStrings),
    ("silhouette", p.silhouette.map .ofStrings), ("material", p.material.map .ofStrings),
    ("pattern", p.pattern.map .ofStrings), ("brand", p.brand.map .ofStrings), ("q", p.q.map .str),
    ("in_stock", p.inStock.map .bool), ("sort", p.sort.map .str), ("page", p.page.map .int),
    ("limit", p.limit.map .int)]

theorem toFields_table (p : Payload) : p.toFields = Fields.ofTable p.table := by
  unfold Payload.toFields Fields.ofTable Payload.table presentField
  simp only [List.flatMap_cons, List.flatMap_nil, List.append_assoc, List.append_nil]

theorem nodup_table (p : Payload) : (p.table.map (·.1)).Nodup := by
  show (_ : List String).Nodup
  simp only [Payload.table, List.map_cons, List.map_nil]
  decide

theorem nodup_toFields (p : Payload) : p.toFields.keys.Nodup := by
  rw [toFields_table]
  exact Fields.nodup_ofTable (nodup_table p)

/-- What a payload holds before normalization: lists that may be empty, a price that may have no bounds, and a
text that may be empty. -/
def Offered (name : String) (v : Value) : Prop :=
  match name with
  | "price" => ∃ r : PriceRange, v = .object r.toFields ∧ (∀ x ∈ r.least, isNonNegative x = true) ∧
      ∀ x ∈ r.most, isNonNegative x = true
  | "q" => ∃ s, v = .str s
  | name => if name ∈ listFields then ∃ xs, v = .ofStrings xs else Fitting name v

theorem Payload.Sound.offered {p : Payload} (h : p.Sound) : Holds Offered p.toFields := by
  rw [toFields_table]
  refine holds_ofTable (nodup_table p) fun q hq v hv => ?_
  have hlist : ∀ {xs : Option (List String)}, v ∈ xs.map Value.ofStrings → ∃ xs, v = .ofStrings xs := by
    intro xs hv
    obtain ⟨ys, -, rfl⟩ := Option.map_eq_some_iff.mp hv
    exact ⟨ys, rfl⟩
  simp only [Payload.table, List.mem_cons, List.not_mem_nil, or_false] at hq
  rcases hq with rfl | rfl | rfl | rfl | rfl | rfl | rfl | rfl | rfl | rfl | rfl | rfl | rfl | rfl | rfl | rfl | rfl
  any_goals exact hlist hv
  · obtain ⟨r, hr, rfl⟩ := Option.map_eq_some_iff.mp hv
    exact ⟨r, rfl, h.least r hr, h.most r hr⟩
  · obtain ⟨s, -, rfl⟩ := Option.map_eq_some_iff.mp hv
    exact ⟨s, rfl⟩
  · obtain ⟨b, -, rfl⟩ := Option.map_eq_some_iff.mp hv
    exact ⟨b, rfl⟩
  · obtain ⟨s, hs, rfl⟩ := Option.map_eq_some_iff.mp hv
    exact ⟨s, h.sort s hs, rfl⟩
  · obtain ⟨n, hn, rfl⟩ := Option.map_eq_some_iff.mp hv
    exact ⟨n, rfl, h.page n hn⟩
  · obtain ⟨n, hn, rfl⟩ := Option.map_eq_some_iff.mp hv
    exact ⟨n, rfl, h.limit n hn⟩

theorem offered_list {name : String} (h : name ∈ listFields) {v : Value} (hv : Offered name v) :
    ∃ xs, v = .ofStrings xs := by
  simp only [listFields, List.mem_cons, List.not_mem_nil, or_false] at h
  rcases h with rfl | rfl | rfl | rfl | rfl | rfl | rfl | rfl | rfl | rfl | rfl <;> exact hv

/-- What normalization leaves of a field that is no list fits. -/
theorem leaves_offered {name : String} (h : name ∉ listFields) {v : Value} (hv : Offered name v) :
    Leaves (Fitting name) v := by
  have hkept : ∀ {v}, Fitting name v → Leaves (Fitting name) v := by
    intro v hv u hu
    rw [hv.pruned?] at hu
    exact Option.some.inj hu ▸ hv
  unfold Offered at hv
  split at hv
  · obtain ⟨r, rfl, hleast, hmost⟩ := hv
    have hbound : ∀ {o : Option Double}, (∀ x ∈ o, isNonNegative x = true) →
        ∀ v ∈ o.map Value.float, IsPrice v := by
      intro o ho v hv
      obtain ⟨x, hx, rfl⟩ := Option.map_eq_some_iff.mp hv
      exact .inr ⟨x, rfl, ho x hx⟩
    exact leaves_boundFields (hbound hleast) (hbound hmost) fun _ => IsPrice.isNumber
  · obtain ⟨s, rfl⟩ := hv
    intro u hu
    cases hs : s.isEmpty with
    | true =>
      obtain rfl := String.isEmpty_iff.mp hs
      cases hu
    | false =>
      have hfits : Fitting "q" (.str s) := ⟨s, rfl, hs⟩
      exact hkept hfits u hu
  · rw [if_neg h] at hv
    exact hkept hv

/-- **A payload that has been checked comes to filters that fit.** -/
theorem holds_toFilters {otherwise : String → Mismatch} {v : Value} {p : Payload}
    (h : Payload.check otherwise v = .ok p) : Holds Fitting p.toFilters := by
  refine (sound_of_check h).offered.normalize (P := fun _ _ => True) ?_ ?_ ?_
  · intro name hname v hv
    obtain ⟨xs, rfl⟩ := offered_list hname hv
    exact ⟨xs, rfl, fun _ _ => trivial⟩
  · exact fun name hname v hv => (fitting_list hname v).mpr hv
  · exact fun name hname v hv => leaves_offered hname hv

/-! ### whole numbers that have been read -/

/-- A whole number that is plainly written has no more digits than it may have. -/
theorem isShort_of_plainWhole {text : List Char} {n : Int} (h : plainWhole text = .ok n) :
    Numeral.isShort n = true := by
  have hshort : ∀ digits : List Char, (digits.dropWhile (· = '0')).length ≤ Numeral.maxDigits →
      Numeral.isShort (Text.ofDigits digits) = true := by
    intro digits hlength
    -- zeros in front count nothing
    have hzeros : digits.takeWhile (· = '0') = List.replicate (digits.takeWhile (· = '0')).length '0' :=
      List.eq_replicate_of_mem fun c hc => of_decide_eq_true (List.all_eq_true.mp List.all_takeWhile c hc)
    rw [← List.takeWhile_append_dropWhile (p := (· = '0')) (l := digits), hzeros, Text.ofDigits_zeros_append]
    exact isShort_of_lt_pow (Text.ofDigits_lt _) hlength
  have hplain : ∀ {digits : List Char} {sign : Nat} {unread : Bool} {m : Int}, m.natAbs = Text.ofDigits digits →
      (if Numeral.maxDigits < sign + (digits.dropWhile (· = '0')).length then .error .tooLong
        else if unread then .error .unreadable else .ok m) = (.ok n : Except WholeDefect Int) →
      Numeral.isShort n = true := by
    intro digits sign unread m hm h
    split at h
    · cases h
    · rename_i hsize
      split at h
      · cases h
      · obtain rfl := Except.ok.inj h
        have hdigits := hshort digits (Nat.le_trans (Nat.le_add_left _ sign) (Nat.not_lt.mp hsize))
        rw [← hm] at hdigits
        exact Numeral.isShort_natAbs m ▸ hdigits
  unfold plainWhole at h
  dsimp only at h
  split at h
  · exact hplain (by rw [if_pos rfl, Int.natAbs_neg, Int.natAbs_natCast]) h
  · exact hplain (by rw [if_neg Bool.false_ne_true, Int.natAbs_natCast]) h

theorem isShort_of_wholeOfText {s : String} {n : Int} (h : wholeOfText s = .ok n) : Numeral.isShort n = true := by
  unfold wholeOfText at h
  dsimp only at h
  split at h
  · rename_i hm
    obtain rfl := Checked.ok.inj h
    split at hm
    · exact isShort_of_plainWhole hm
    · exact isShort_of_plainWhole hm
  · cases h
  · cases h

/-- A double that stands for a whole number is one of 64 bits. -/
theorem isShort_of_wholeOfDouble {x : Double} {n : Int} (h : wholeOfDouble x = .ok n) :
    Numeral.isShort n = true := by
  unfold wholeOfDouble at h
  split at h
  · rename_i y
    split at h
    · rename_i m hm
      split at h
      · rename_i hbits
        obtain rfl := Checked.ok.inj h
        have hm : m = y.truncate := by
          unfold Double.toInt? at hm
          dsimp only at hm
          split at hm
          · exact (Option.some.inj hm).symm
          · cases hm
        have hlt := Double.natAbs_truncate_lt hbits
        rw [← hm] at hlt
        have hpow : Nat.pow 2 63 ≤ 10 ^ 63 := Nat.pow_le_pow_left (by decide) 63
        exact Numeral.isShort_natAbs m ▸ isShort_of_lt_pow (Nat.lt_of_lt_of_le hlt hpow) (by decide)
      · cases h
    · cases h
  · cases h

/-- A whole number that is read from what can be written can be written, too. -/
theorem isShort_of_whole {v : Value} {n : Int} (hv : v.isWritable = true) (h : whole v = .ok n) :
    Numeral.isShort n = true := by
  cases v with
  | int => exact Checked.ok.inj h ▸ hv
  | bool b =>
    obtain rfl := Checked.ok.inj h
    cases b <;> decide +kernel
  | float => exact isShort_of_wholeOfDouble h
  | str => exact isShort_of_wholeOfText h
  | _ => cases h

/-! ### filters that fit and can be written -/

/-- The field that a payload may have, with a value that it may hold and that can be written. -/
def Kept (name : String) (v : Value) : Prop :=
  Fitting name v ∧ v.isWritable = true

/-- A price bound can be written. -/
theorem isWritable_of_isPrice {v : Value} (h : IsPrice v) : v.isWritable = true := by
  rcases h with ⟨n, rfl, x, hx⟩ | ⟨x, rfl, -⟩
  · exact isShort_of_ofInt hx
  · rfl

/-- Of what fits, only the number of a page may be too long to be written. -/
theorem Fitting.kept {name : String} {v : Value} (h : Fitting name v) (hname : name ≠ "page") : Kept name v := by
  refine ⟨h, ?_⟩
  unfold Fitting at h
  split at h
  · obtain ⟨fields, rfl, hbounds⟩ := h
    exact (Value.haveWritable_iff fields).mpr fun p hp => isWritable_of_isPrice (hbounds.each p hp).2
  · obtain ⟨s, rfl, -⟩ := h
    rfl
  · obtain ⟨b, rfl⟩ := h
    rfl
  · obtain ⟨s, -, rfl⟩ := h
    rfl
  · exact absurd rfl hname
  · obtain ⟨n, rfl, hleast, hmost⟩ := h
    obtain ⟨m, rfl⟩ := Int.eq_ofNat_of_zero_le (Int.le_trans (by decide) hleast)
    exact Numeral.isShort_of_le (n := 100) (by decide +kernel) (Int.ofNat_le.mp hmost)
  · obtain ⟨-, xs, rfl, -⟩ := h
    exact Value.isWritable_texts xs

/-- The number of a page stands in the filters as it does in the payload. -/
theorem Payload.get?_page (p : Payload) : Fields.get? p.toFilters "page" = p.page.map .int := by
  have hlookup : p.table.lookup "page" = some (p.page.map .int) := rfl
  unfold toFilters
  rw [get?_normalize_other (nodup_toFields p) (by decide), toFields_table, Fields.get?_ofTable (nodup_table p), hlookup]
  cases p.page <;> rfl

/-- **A payload that has been checked of a value that can be written comes to filters that can.** -/
theorem kept_toFilters {otherwise : String → Mismatch} {v : Value} {p : Payload} (hv : v.isWritable = true)
    (h : Payload.check otherwise v = .ok p) : Holds Kept p.toFilters := by
  have hpage : ∀ n ∈ p.page, Numeral.isShort n = true := by
    intro n hn
    cases v with
    | object fields =>
      obtain ⟨-, -, hpage, -⟩ := parts_of_check h
      obtain ⟨w, ⟨name, hget⟩, hw⟩ := of_optional hpage n hn
      obtain ⟨k, hk, hn⟩ := Checked.andThen_eq_ok hw
      have hshort := isShort_of_whole ((Value.haveWritable_iff fields).mp hv _ (Fields.mem_of_get? hget)) hk
      split at hn
      · cases hn
      · exact Checked.ok.inj hn ▸ hshort
    | _ => cases h
  have hfits := holds_toFilters h
  refine ⟨hfits.nodup, fun q hq => ?_⟩
  obtain ⟨name, hname, hfit⟩ := hfits.values q hq
  refine ⟨name, hname, ?_⟩
  by_cases hkey : name = "page"
  · have hget := Fields.get?_of_mem hfits.nodup hq
    rw [hname, hkey, p.get?_page] at hget
    obtain ⟨n, hn, he⟩ := Option.map_eq_some_iff.mp hget
    exact ⟨hfit, he ▸ hpage n hn⟩
  · exact hfit.kept hkey

end Outfitter.Schema
