import Outfitter.Proofs.Filters.Normal
import Outfitter.Proofs.Filters.Overlay
import Outfitter.Proofs.Number.Double

/-!
What filters ask for.

`Look` is what filters ask for, however they are written: the order of the fields does not matter, and
price bounds may be whole numbers or doubles. `Shows` relates filters to it. Merging the filters of two
turns joins what they ask for (`shows_merge`).
-/

namespace Outfitter.Filters

/-- What filters ask for. -/
structure Look where
  /-- The tokens of the fields that hold lists. -/
  tokens : String → List String
  least : Option Double.Finite
  most : Option Double.Finite
  inStock : Bool

/-- A whole number that is not negative. -/
structure Natural (x : Double.Finite) : Prop where
  whole : x.isWhole = true
  positive : x.negative = false

/-! ### price bounds -/

/-- The value is a number. -/
def IsNumber (v : Value) : Prop :=
  (∃ n, v = .int n) ∨ ∃ x, v = .float x

/-- The number rounds to the double. -/
inductive Means : Value → Double.Finite → Prop where
  | int {n : Int} {x : Double.Finite} (h : Double.ofInt n = .finite x) : Means (.int n) x
  | float {x : Double.Finite} : Means (.float (.finite x)) x

/-- The number is the double, which is whole. -/
inductive Is : Value → Double.Finite → Prop where
  | int {x : Double.Finite} : Is (.int x.truncate) x
  | float {x : Double.Finite} : Is (.float (.finite x)) x

theorem Means.isNumber {v : Value} {x : Double.Finite} (h : Means v x) : IsNumber v := by
  cases h with
  | int => exact .inl ⟨_, rfl⟩
  | float => exact .inr ⟨_, rfl⟩

theorem Is.means {v : Value} {x : Double.Finite} (h : Is v x) (hx : Natural x) : Means v x := by
  cases h with
  | int => exact .int (Double.ofInt_truncate hx.whole hx.positive)
  | float => exact .float

/-- What is related to something present is present. -/
theorem exists_of_rel {α β : Type} {r : α → β → Prop} {a : Option α} {b : Option β} (h : Option.Rel r a b)
    {v : α} (hv : v ∈ a) : ∃ x ∈ b, r v x := by
  cases h with
  | none => cases hv
  | some h => exact ⟨_, rfl, Option.some.inj hv ▸ h⟩

theorem Means.quantity {v : Value} {x : Double.Finite} (h : Means v x) (hx : Natural x) :
    boundQuantity? v = some (.whole x.truncate) := by
  have hwhole : Quantity.ofDouble? (.finite x) = some (.whole x.truncate) :=
    congrArg some (if_pos hx.whole)
  cases h with
  | int h => exact (congrArg Quantity.ofDouble? h).trans hwhole
  | float => exact hwhole

/-- Fields with the bounds of a price. -/
def boundFields (least most : Option Value) : Fields :=
  Fields.ofOption "min" least ++ Fields.ofOption "max" most

/-- A price with these bounds, which is left out if there are none. -/
def priceValue (least most : Option Value) : Option Value :=
  if least.isNone && most.isNone then none else some (.object (boundFields least most))

theorem mem_boundFields {least most : Option Value} {p : Key × Value} (h : p ∈ boundFields least most) :
    p.2 ∈ least ∨ p.2 ∈ most := by
  rcases List.mem_append.mp h with hp | hp
  · cases least with
    | none => cases hp
    | some v => exact .inl (List.mem_singleton.mp hp ▸ rfl)
  · cases most with
    | none => cases hp
    | some v => exact .inr (List.mem_singleton.mp hp ▸ rfl)

theorem pruneFields_numbers {fields : Fields} (h : ∀ p ∈ fields, IsNumber p.2) :
    Value.pruneFields fields = fields := by
  induction fields with
  | nil => rfl
  | cons p rest ih =>
    obtain ⟨k, v⟩ := p
    have hrest := ih fun p hp => h p (List.mem_cons_of_mem _ hp)
    unfold Value.pruneFields
    rw [hrest]
    rcases h (k, v) (List.mem_cons_self ..) with ⟨n, rfl⟩ | ⟨x, rfl⟩ <;> rfl

theorem pruned?_bounds {least most : Option Value} (hleast : ∀ v ∈ least, IsNumber v)
    (hmost : ∀ v ∈ most, IsNumber v) :
    Value.pruned? (.object (boundFields least most)) = priceValue least most := by
  have hfields : Value.prune (.object (boundFields least most)) = .object (boundFields least most) := by
    refine congrArg Value.object (pruneFields_numbers fun p hp => ?_)
    rcases mem_boundFields hp with hp | hp
    · exact hleast _ hp
    · exact hmost _ hp
  unfold Value.pruned?
  rw [hfields]
  cases least <;> cases most <;> rfl

theorem get_min (least most : Option Value) :
    ((priceValue least most).getD .null).get "min" = least.getD .null := by
  cases least <;> cases most <;> rfl

theorem get_max (least most : Option Value) :
    ((priceValue least most).getD .null).get "max" = most.getD .null := by
  cases least <;> cases most <;> rfl

/-! ### filters -/

/-- The fields that a look shows in. -/
def lookFields : List String :=
  listFields ++ ["in_stock", "price"]

variable {counts : Value → Double.Finite → Prop}

/-- The filters ask for this. -/
structure Shows (counts : Value → Double.Finite → Prop) (filters : Fields) (l : Look) : Prop where
  nodup : filters.keys.Nodup
  others : ∀ key, key ∉ lookFields.map Key.text → Fields.get? filters key = none
  tokens : ∀ name ∈ listFields, Fields.get? filters name = listValue (l.tokens name)
  inStock : Fields.get? filters "in_stock" = if l.inStock then some (.bool true) else none
  price : ∃ least most : Option Value, Option.Rel counts least l.least ∧ Option.Rel counts most l.most ∧
    Fields.get? filters "price" = priceValue least most

/-- The filters ask for this when what is vacuous is left out. -/
structure Gives (counts : Value → Double.Finite → Prop) (filters : Fields) (l : Look) : Prop where
  nodup : filters.keys.Nodup
  others : ∀ key, key ∉ lookFields.map Key.text → Fields.get? filters key = none
  tokens : ∀ name ∈ listFields, Fields.get? filters name = some (.ofStrings (l.tokens name)) ∨
    Fields.get? filters name = none ∧ l.tokens name = []
  inStock : Fields.get? filters "in_stock" = if l.inStock then some (.bool true) else none
  price : ∃ least most : Option Value, Option.Rel counts least l.least ∧ Option.Rel counts most l.most ∧
    (Fields.get? filters "price" = some (.object (boundFields least most)) ∨
      Fields.get? filters "price" = none ∧ least = none ∧ most = none)

variable {filters base delta : Fields} {l d : Look}

theorem Shows.mono {counts' : Value → Double.Finite → Prop} (h : Shows counts filters l)
    (hc : ∀ v x, (l.least = some x ∨ l.most = some x) → counts v x → counts' v x) :
    Shows counts' filters l := by
  obtain ⟨least, most, hleast, hmost, hp⟩ := h.price
  refine ⟨h.nodup, h.others, h.tokens, h.inStock, least, most, ?_, ?_, hp⟩
  · generalize hl : l.least = x at hleast
    cases hleast with
    | none => exact .none
    | some hv => exact .some (hc _ _ (.inl hl) hv)
  · generalize hl : l.most = x at hmost
    cases hmost with
    | none => exact .none
    | some hv => exact .some (hc _ _ (.inr hl) hv)

theorem Shows.gives (h : Shows counts filters l) : Gives counts filters l := by
  obtain ⟨least, most, hleast, hmost, hp⟩ := h.price
  refine ⟨h.nodup, h.others, fun name hname => ?_, h.inStock, least, most, hleast, hmost, ?_⟩
  · rw [h.tokens name hname]
    exact listValue_cases _
  · rw [hp]
    cases least <;> cases most <;> simp [priceValue]

/-- Filters are known by the names of their fields. -/
theorem Shows.exists_name (h : Shows counts filters l) {p : Key × Value} (hp : p ∈ filters) :
    ∃ name ∈ lookFields, Key.text name = p.1 := by
  have hget := Fields.get?_of_mem h.nodup hp
  refine List.mem_map.mp (Classical.byContradiction fun hne => ?_)
  rw [h.others p.1 hne] at hget
  cases hget

/-- Every field is known by a text. -/
def Named (filters : Fields) : Prop :=
  ∀ p ∈ filters, ∃ name : String, p.1 = name

theorem Shows.named (h : Shows counts filters l) : Named filters := by
  intro p hp
  obtain ⟨name, -, he⟩ := h.exists_name hp
  exact ⟨name, he.symm⟩

/-- What holds of lists of texts, of true, and of prices, holds of every value in filters. -/
theorem Shows.forall_values {P : Value → Prop} (h : Shows counts filters l)
    (htexts : ∀ xs, P (.ofStrings xs)) (htrue : P (.bool true))
    (hprice : ∀ fields : Fields, (∀ p ∈ fields, ∃ x, (x ∈ l.least ∨ x ∈ l.most) ∧ counts p.2 x) →
      P (.object fields)) : ∀ p ∈ filters, P p.2 := by
  intro (k, v) hp
  have hget := Fields.get?_of_mem h.nodup hp
  obtain ⟨name, hname, rfl⟩ := h.exists_name hp
  rcases List.mem_append.mp hname with hname | hname
  · rw [h.tokens name hname] at hget
    rcases listValue_cases (l.tokens name) with he | ⟨he, -⟩
    · rw [he] at hget
      exact Option.some.inj hget ▸ htexts _
    · rw [he] at hget
      cases hget
  · rcases List.mem_cons.mp hname with rfl | hname
    · rw [h.inStock] at hget
      split at hget
      · exact Option.some.inj hget ▸ htrue
      · cases hget
    · obtain rfl := List.mem_singleton.mp hname
      obtain ⟨least, most, hleast, hmost, hp⟩ := h.price
      rw [hp] at hget
      unfold priceValue at hget
      split at hget
      · cases hget
      · refine Option.some.inj hget ▸ hprice _ fun p hp => ?_
        rcases mem_boundFields hp with hp | hp
        · obtain ⟨x, hx, hc⟩ := exists_of_rel hleast hp
          exact ⟨x, .inl hx, hc⟩
        · obtain ⟨x, hx, hc⟩ := exists_of_rel hmost hp
          exact ⟨x, .inr hx, hc⟩

/-! ### merging -/

/-- The lists of a look hold no empty text and nothing twice, and its bounds are natural numbers. -/
structure Look.Neat (l : Look) : Prop where
  nodup : ∀ name ∈ listFields, (l.tokens name).Nodup
  texts : ∀ name ∈ listFields, ∀ c ∈ l.tokens name, c.isEmpty = false
  least : ∀ x ∈ l.least, Natural x
  most : ∀ x ∈ l.most, Natural x

/-- What earlier filters and later ones ask for together. -/
def Look.join (l d : Look) : Look :=
  ⟨fun name => firsts (l.tokens name) (d.tokens name), d.least.or l.least, d.most.or l.most,
    l.inStock || d.inStock⟩

theorem Look.Neat.join (hl : l.Neat) (hd : d.Neat) : (l.join d).Neat := by
  refine ⟨fun name h => nodup_firsts (hl.nodup name h), fun name h c hc => ?_, fun x hx => ?_, fun x hx => ?_⟩
  · rcases mem_firsts.mp hc with hc | hc
    · exact hl.texts name h c hc
    · exact hd.texts name h c hc
  · rcases Option.or_eq_some_iff.mp hx with hx | ⟨-, hx⟩
    · exact hd.least x hx
    · exact hl.least x hx
  · rcases Option.or_eq_some_iff.mp hx with hx | ⟨-, hx⟩
    · exact hd.most x hx
    · exact hl.most x hx

theorem filter_nonempty {xs : List String} (h : ∀ c ∈ xs, c.isEmpty = false) :
    xs.filter (!·.isEmpty) = xs :=
  List.filter_eq_self.mpr fun c hc => by rw [h c hc]; rfl

theorem itemsOf_listValue (xs : List String) : itemsOf ((listValue xs).getD .null) = xs.map Value.str := by
  cases xs <;> rfl

theorem listValue_injective {xs ys : List String} (h : listValue xs = listValue ys) : xs = ys := by
  have hitems : xs.map Value.str = ys.map Value.str := by
    rw [← itemsOf_listValue, h, itemsOf_listValue]
  exact (List.map_inj_right fun _ _ => Value.str.inj).mp hitems

theorem union_listValue {a b : List String} (ha : a.Nodup) :
    union ((listValue a).getD .null) ((listValue b).getD .null) = .ofStrings (firsts a b) := by
  have hfirsts : firsts [] (a ++ b) = firsts a b :=
    (List.foldl_append ..).trans (congrArg (firsts · b) (firsts_nil ha))
  unfold union
  rw [itemsOf_listValue, itemsOf_listValue, ← List.map_append, Value.distinct_texts, hfirsts]
  rfl

/-- The bound of a merged price. -/
theorem laterBound_eq (least most : Option Value) {least' most' : Option Value} (hnull : ∀ v ∈ least', v ≠ .null)
    (hnull' : ∀ v ∈ most', v ≠ .null) :
    laterBound ((priceValue least most).getD .null) ((priceValue least' most').getD .null) "min" =
        (least'.or least).getD .null ∧
      laterBound ((priceValue least most).getD .null) ((priceValue least' most').getD .null) "max" =
        (most'.or most).getD .null := by
  unfold laterBound
  rw [get_min, get_min, get_max, get_max]
  constructor
  · cases least' with
    | none => rfl
    | some v =>
      have := hnull v rfl
      cases v <;> first | rfl | exact absurd rfl this
  · cases most' with
    | none => rfl
    | some v =>
      have := hnull' v rfl
      cases v <;> first | rfl | exact absurd rfl this

theorem Means.ne_null {v : Value} {x : Double.Finite} (h : Means v x) : v ≠ .null := by
  cases h <;> exact nofun

theorem quantity_of_rel {v : Option Value} {x : Option Double.Finite} (h : Option.Rel Means v x)
    (hx : ∀ y ∈ x, Natural y) :
    (boundQuantity? (v.getD .null)).map Quantity.toValue = x.map fun y => .int y.truncate := by
  cases h with
  | none => rfl
  | some h =>
    rw [Option.getD_some, h.quantity (hx _ rfl)]
    rfl

theorem rel_or {α β : Type} {r : α → β → Prop} {a a' : Option α} {b b' : Option β}
    (h : Option.Rel r a b) (h' : Option.Rel r a' b') : Option.Rel r (a.or a') (b.or b') := by
  cases h with
  | none => exact h'
  | some h => exact .some h

theorem ne_null_of_rel {v : Option Value} {x : Option Double.Finite} (h : Option.Rel Means v x) :
    ∀ w ∈ v, w ≠ .null := by
  rintro w hw
  obtain ⟨x, -, hwx⟩ := exists_of_rel h hw
  exact hwx.ne_null

/-- Merged bounds are whole numbers. -/
theorem mergePrice_eq {least most least' most' : Option Value}
    (hleast : Option.Rel Means least l.least) (hmost : Option.Rel Means most l.most)
    (hleast' : Option.Rel Means least' d.least) (hmost' : Option.Rel Means most' d.most)
    (hl : l.Neat) (hd : d.Neat) :
    mergePrice ((priceValue least most).getD .null) ((priceValue least' most').getD .null) =
      boundFields ((l.join d).least.map fun x => .int x.truncate)
        ((l.join d).most.map fun x => .int x.truncate) := by
  obtain ⟨hmin, hmax⟩ := laterBound_eq least most (ne_null_of_rel hleast') (ne_null_of_rel hmost')
  have hqmin := quantity_of_rel (rel_or hleast' hleast) (hl.join hd).least
  have hqmax := quantity_of_rel (rel_or hmost' hmost) (hl.join hd).most
  have hfield : ∀ (key : Key) {q : Option Quantity} {x : Option Double.Finite},
      q.map Quantity.toValue = x.map (fun y => Value.int y.truncate) →
      (q.map fun q => (key, q.toValue)) = (x.map fun y => Value.int y.truncate).map (key, ·) := by
    rintro key q x h
    rw [← h, Option.map_map]
    rfl
  unfold mergePrice boundFields Fields.ofOption
  rw [List.filterMap_cons, List.filterMap_cons, List.filterMap_nil, hmin, hmax, hfield "min" hqmin,
    hfield "max" hqmax]
  show _ = boundFields ((d.least.or l.least).map _) ((d.most.or l.most).map _)
  cases d.least.or l.least <;> cases d.most.or l.most <;> rfl

theorem bind_pruned?_listValue {xs : List String} (h : ∀ c ∈ xs, c.isEmpty = false) :
    (listValue xs).bind Value.pruned? = listValue xs := by
  rcases listValue_cases xs with he | ⟨he, -⟩
  · rw [he]
    refine (pruned?_texts xs).trans ?_
    rw [filter_nonempty h, he]
  · rw [he]
    rfl

theorem bind_pruned?_priceValue {least most : Option Value} (hleast : ∀ v ∈ least, IsNumber v)
    (hmost : ∀ v ∈ most, IsNumber v) :
    (priceValue least most).bind Value.pruned? = priceValue least most := by
  by_cases h : least.isNone && most.isNone
  · unfold priceValue
    rw [if_pos h]
    rfl
  · have hp : priceValue least most = some (.object (boundFields least most)) := if_neg h
    rw [hp]
    exact (pruned?_bounds hleast hmost).trans hp

theorem isNumber_of_rel {v : Option Value} {x : Option Double.Finite} (h : Option.Rel Means v x) :
    ∀ w ∈ v, IsNumber w := by
  rintro w hw
  obtain ⟨x, -, hwx⟩ := exists_of_rel h hw
  exact hwx.isNumber

theorem rel_means {v : Option Value} {x : Option Double.Finite} (h : Option.Rel Is v x)
    (hx : ∀ y ∈ x, Natural y) : Option.Rel Means v x := by
  cases h with
  | none => exact .none
  | some h => exact .some (h.means (hx _ rfl))

theorem none_of_rel {α β : Type} {r : α → β → Prop} {a : Option α} {b : Option β} (h : Option.Rel r a b)
    (ha : a = none) : b = none := by
  cases h with
  | none => rfl
  | some => cases ha

theorem rel_int (x : Option Double.Finite) : Option.Rel Is (x.map fun y => Value.int y.truncate) x := by
  cases x with
  | none => exact .none
  | some x => exact .some .int

/-- The tokens of merged filters are those of both sides, each once. -/
theorem get?_merge_list (hn : base.keys.Nodup) {name : String} (hname : name ∈ listFields) {xs ys : List String}
    (hbase : Fields.get? base name = listValue xs) (hxs : xs.Nodup) (htexts : ∀ c ∈ xs, c.isEmpty = false)
    (hdelta : Fields.get? delta name = listValue ys) (htexts' : ∀ c ∈ ys, c.isEmpty = false) :
    Fields.get? (merge base delta) name = listValue (firsts xs ys) := by
  have hfirsts : ∀ c ∈ firsts xs ys, c.isEmpty = false := fun c hc =>
    (mem_firsts.mp hc).elim (htexts c) (htexts' c)
  have hearlier : Fields.value base name = (listValue xs).getD .null :=
    congrArg (Option.getD · Value.null) hbase
  have hlater : Fields.value delta name = (listValue ys).getD .null :=
    congrArg (Option.getD · Value.null) hdelta
  rw [get?_merge hn, get?_overlay_list hname, laterList, Fields.has, hdelta]
  rcases listValue_cases ys with he | ⟨he, rfl⟩
  · rw [he, Option.isSome_some, if_pos rfl, hearlier, hlater, union_listValue hxs]
    exact (pruned?_texts _).trans (congrArg listValue (filter_nonempty hfirsts))
  · rw [he, Option.isSome_none, if_neg Bool.false_ne_true, Option.none_or, hbase]
    exact bind_pruned?_listValue htexts

/-- **What merged filters ask for** is what both sides ask for together. -/
theorem shows_merge (hb : Shows Is base l) (hl : l.Neat) (hdelta : Shows Means delta d) (hd : d.Neat) :
    Shows Is (merge base delta) (l.join d) := by
  have hget := @get?_merge base delta hb.nodup
  constructor
  · exact nodup_merge hb.nodup
  · intro key hkey
    rw [hget, get?_overlay_none (hb.others key hkey) (hdelta.others key hkey)]
    rfl
  · intro name hname
    exact get?_merge_list hb.nodup hname (hb.tokens name hname) (hl.nodup name hname)
      (hl.texts name hname) (hdelta.tokens name hname) (hd.texts name hname)
  · rw [hget, get?_overlay_scalar (by decide), laterScalar, Fields.value, hdelta.inStock, hb.inStock]
    show _ = if (l.inStock || d.inStock) then some (Value.bool true) else none
    cases d.inStock <;> cases l.inStock <;> rfl
  · obtain ⟨least, most, hleast, hmost, hp⟩ := hb.price
    obtain ⟨least', most', hleast', hmost', hp'⟩ := hdelta.price
    have hprice := mergePrice_eq (rel_means hleast hl.least) (rel_means hmost hl.most) hleast' hmost' hl hd
    rw [hget, get?_overlay_price, laterPrice, Fields.has, Fields.value, Fields.value, hp, hp']
    by_cases hnone : least'.isNone && most'.isNone
    · obtain ⟨hnoleast, hnomost⟩ := Bool.and_eq_true_iff.mp hnone
      have hdnone : d.least = none ∧ d.most = none :=
        ⟨none_of_rel hleast' (Option.isNone_iff_eq_none.mp hnoleast),
          none_of_rel hmost' (Option.isNone_iff_eq_none.mp hnomost)⟩
      have hnil : priceValue least' most' = none := if_pos hnone
      refine ⟨least, most, ?_, ?_, ?_⟩
      · show Option.Rel Is least (d.least.or l.least)
        rw [hdnone.1]
        exact hleast
      · show Option.Rel Is most (d.most.or l.most)
        rw [hdnone.2]
        exact hmost
      · rw [hnil]
        exact bind_pruned?_priceValue (isNumber_of_rel (rel_means hleast hl.least))
          (isNumber_of_rel (rel_means hmost hl.most))
    · have hsome : priceValue least' most' = some (.object (boundFields least' most')) := if_neg hnone
      refine ⟨_, _, rel_int _, rel_int _, ?_⟩
      rw [hprice, hsome]
      exact pruned?_bounds (isNumber_of_rel (rel_means (rel_int _) (hl.join hd).least))
        (isNumber_of_rel (rel_means (rel_int _) (hl.join hd).most))

end Outfitter.Filters
