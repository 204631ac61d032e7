import Outfitter.Proofs.Filters.Palette

/-!
Filters whose fields hold only what they may.

What a field may hold is told by its name. Merging keeps to it if the union of two lists, the merged price
and a single value of a later turn do (`Holds.merge`), and so does normalization (`Holds.normalize`).
-/

namespace Outfitter.Filters

variable {filters base delta : Fields} {may : String → Value → Prop}

/-- No field stands twice, and each holds what it may. -/
structure Holds (may : String → Value → Prop) (filters : Fields) : Prop where
  nodup : filters.keys.Nodup
  values : ∀ p ∈ filters, ∃ name : String, p.1 = name ∧ may name p.2

theorem holds_nil : Holds may [] :=
  ⟨List.nodup_nil, fun _ h => absurd h List.not_mem_nil⟩

theorem holds_of_get? (hn : filters.keys.Nodup)
    (h : ∀ key v, Fields.get? filters key = some v → ∃ name : String, key = name ∧ may name v) :
    Holds may filters :=
  ⟨hn, fun p hp => h p.1 p.2 (Fields.get?_of_mem hn hp)⟩

theorem Holds.get? (h : Holds may filters) {name : String} {v : Value}
    (hv : Fields.get? filters name = some v) : may name v := by
  obtain ⟨other, he, hmay⟩ := h.values _ (Fields.mem_of_get? hv)
  exact Key.text.inj he ▸ hmay

theorem Holds.get?_text (h : Holds may filters) {key : Key} {v : Value}
    (hv : Fields.get? filters key = some v) : ∃ name : String, key = name ∧ may name v :=
  h.values _ (Fields.mem_of_get? hv)

theorem Holds.named (h : Holds may filters) : Named filters := by
  intro p hp
  obtain ⟨name, he, -⟩ := h.values p hp
  exact ⟨name, he⟩

theorem holds_ofTable {table : List (String × Option Value)} (hn : (table.map (·.1)).Nodup)
    (h : ∀ p ∈ table, ∀ v ∈ p.2, may p.1 v) : Holds may (Fields.ofTable table) := by
  refine ⟨Fields.nodup_ofTable hn, fun q hq => ?_⟩
  obtain ⟨p, hp, hmem⟩ := List.mem_flatMap.mp hq
  obtain ⟨v, hv, rfl⟩ := Option.map_eq_some_iff.mp (Option.mem_toList.mp hmem)
  exact ⟨p.1, rfl, h p hp v hv⟩

/-- What is left of the value, if anything is, may be held. -/
def Leaves (may : Value → Prop) (v : Value) : Prop :=
  ∀ u ∈ Value.pruned? v, may u

/-! ### lists of texts -/

/-- Some texts that are as asked, each once and none empty. -/
structure Texts (P : String → Prop) (xs : List String) : Prop where
  nonempty : xs ≠ []
  nodup : xs.Nodup
  texts : ∀ x ∈ xs, x.isEmpty = false
  each : ∀ x ∈ xs, P x

/-- The value lists texts that are as asked. -/
def Lists (P : String → Prop) (v : Value) : Prop :=
  ∃ xs, v = .ofStrings xs ∧ Texts P xs

section

variable {P Q : String → Prop} {v : Value} {xs ys : List String}

theorem Texts.listValue (h : Texts P xs) : listValue xs = some (.ofStrings xs) := by
  rcases listValue_cases xs with he | ⟨-, hnil⟩
  · exact he
  · exact absurd hnil h.nonempty

theorem Lists.pruned? (h : Lists P v) : Value.pruned? v = some v := by
  obtain ⟨xs, rfl, hxs⟩ := h
  rw [pruned?_texts, filter_nonempty hxs.texts, hxs.listValue]

theorem Lists.mono (h : Lists P v) (hmono : ∀ x, P x → Q x) : Lists Q v := by
  obtain ⟨xs, rfl, hxs⟩ := h
  exact ⟨xs, rfl, hxs.nonempty, hxs.nodup, hxs.texts, fun x hx => hmono x (hxs.each x hx)⟩

/-- A list that is left of some texts lists them. -/
theorem lists_of_listValue (hn : xs.Nodup) (ht : ∀ x ∈ xs, x.isEmpty = false) (hp : ∀ x ∈ xs, P x)
    (h : v ∈ Outfitter.listValue xs) : Lists P v := by
  rcases listValue_cases xs with he | ⟨he, -⟩
  · have hne : xs ≠ [] := by
      rintro rfl
      cases he
    rw [he] at h
    exact ⟨xs, (Option.some.inj h).symm, hne, hn, ht, hp⟩
  · rw [he] at h
    cases h

/-- The union of two lists, of which the first may be absent. -/
theorem leaves_union {b : Option Value} (hb : ∀ w ∈ b, Lists P w) (hv : Lists P v) :
    Leaves (Lists P) (union (b.getD .null) v) := by
  obtain ⟨xs, hxs, hn, ht, hp⟩ : ∃ xs, b.getD .null = (listValue xs).getD .null ∧ xs.Nodup ∧
      (∀ x ∈ xs, x.isEmpty = false) ∧ ∀ x ∈ xs, P x := by
    cases b with
    | none => exact ⟨[], rfl, List.nodup_nil, by simp, by simp⟩
    | some w =>
      obtain ⟨xs, rfl, hxs⟩ := hb w rfl
      exact ⟨xs, congrArg (Option.getD · _) hxs.listValue.symm, hxs.nodup, hxs.texts, hxs.each⟩
  obtain ⟨ys, rfl, hys⟩ := hv
  have hfirsts : ∀ {R : String → Prop}, (∀ x ∈ xs, R x) → (∀ x ∈ ys, R x) → ∀ x ∈ firsts xs ys, R x :=
    fun hx hy c hc => (mem_firsts.mp hc).elim (hx c) (hy c)
  have htexts := hfirsts ht hys.texts
  have hvalue : Value.ofStrings ys = (listValue ys).getD .null := by
    rw [hys.listValue]
    rfl
  intro u hu
  rw [hxs, hvalue, union_listValue hn, pruned?_texts, filter_nonempty htexts] at hu
  exact lists_of_listValue (nodup_firsts hn) htexts (hfirsts hp hys.each) hu

end

/-! ### prices -/

/-- The fields are bounds of a price, at least one, and as asked. -/
structure Bounds (B : Value → Prop) (fields : Fields) : Prop where
  nonempty : fields ≠ []
  nodup : fields.keys.Nodup
  each : ∀ p ∈ fields, (p.1 = "min" ∨ p.1 = "max") ∧ B p.2

/-- The value is a price with bounds that are as asked. -/
def Prices (B : Value → Prop) (v : Value) : Prop :=
  ∃ fields, v = .object fields ∧ Bounds B fields

section

variable {B B' : Value → Prop} {v : Value}

theorem pruned?_numbers {fields : Fields} (hne : fields ≠ []) (h : ∀ p ∈ fields, IsNumber p.2) :
    Value.pruned? (.object fields) = some (.object fields) := by
  have hprune : Value.prune (.object fields) = .object fields :=
    congrArg Value.object (pruneFields_numbers h)
  have hsolid : (Value.object fields).isVacuous = false := by
    cases fields with
    | nil => exact absurd rfl hne
    | cons => rfl
  unfold Value.pruned?
  rw [hprune, if_neg (by rw [hsolid]; exact Bool.false_ne_true)]

theorem Prices.pruned? (h : Prices B v) (hnumber : ∀ v, B v → IsNumber v) : Value.pruned? v = some v := by
  obtain ⟨fields, rfl, hf⟩ := h
  exact pruned?_numbers hf.nonempty fun p hp => hnumber p.2 (hf.each p hp).2

/-- A bound of a price is as asked. -/
theorem Prices.get (h : Prices B v) (key : String) : v.get key = .null ∨ B (v.get key) := by
  obtain ⟨fields, rfl, hf⟩ := h
  show (Fields.get? fields key).getD .null = .null ∨ B ((Fields.get? fields key).getD .null)
  cases hv : Fields.get? fields key with
  | none => exact .inl rfl
  | some w => exact .inr (hf.each _ (Fields.mem_of_get? hv)).2

theorem nodup_boundFields (least most : Option Value) : (boundFields least most).keys.Nodup := by
  cases least <;> cases most <;> simp [boundFields, Fields.ofOption, Fields.keys]

theorem get?_boundFields (least most : Option Value) (key : Key) : Fields.get? (boundFields least most) key =
    if key = "min" then least else if key = "max" then most else none := by
  by_cases hkey : key = "min"
  · subst hkey
    cases least <;> cases most <;> rfl
  · cases least <;> cases most <;> simp [boundFields, Fields.ofOption, Fields.get?, Keyed.lookup_cons, hkey]

/-- A price with the bounds that are left of two. -/
theorem leaves_boundFields {least most : Option Value} (hleast : ∀ v ∈ least, B v) (hmost : ∀ v ∈ most, B v)
    (hnumber : ∀ v, B v → IsNumber v) : Leaves (Prices B) (.object (boundFields least most)) := by
  have heach : ∀ p ∈ boundFields least most, (p.1 = "min" ∨ p.1 = "max") ∧ B p.2 := by
    intro p hp
    rcases List.mem_append.mp hp with hp | hp
    · obtain ⟨v, hv, rfl⟩ := Option.map_eq_some_iff.mp (Option.mem_toList.mp hp)
      exact ⟨.inl rfl, hleast v hv⟩
    · obtain ⟨v, hv, rfl⟩ := Option.map_eq_some_iff.mp (Option.mem_toList.mp hp)
      exact ⟨.inr rfl, hmost v hv⟩
  intro u hu
  rw [pruned?_bounds (fun v hv => hnumber v (hleast v hv)) fun v hv => hnumber v (hmost v hv)] at hu
  have hne : boundFields least most ≠ [] := by
    intro hnil
    cases least <;> cases most <;> cases hnil
    cases hu
  have he : priceValue least most = some (.object (boundFields least most)) := by
    cases least <;> cases most <;> first | rfl | exact absurd rfl hne
  rw [he] at hu
  exact ⟨_, (Option.some.inj hu).symm, hne, nodup_boundFields _ _, heach⟩

theorem mergePrice_boundFields (base delta : Value) : mergePrice base delta =
    boundFields ((boundQuantity? (laterBound base delta "min")).map Quantity.toValue)
      ((boundQuantity? (laterBound base delta "max")).map Quantity.toValue) := by
  unfold mergePrice boundFields
  rw [List.filterMap_cons, List.filterMap_cons, List.filterMap_nil]
  cases boundQuantity? (laterBound base delta "min") <;>
    cases boundQuantity? (laterBound base delta "max") <;> rfl

/-- The price that is merged from two, of which the first may be absent. -/
theorem leaves_mergePrice {b : Option Value} (hb : ∀ w ∈ b, Prices B w) (hv : Prices B' v)
    (hnumber : ∀ v, B v → IsNumber v)
    (hbound : ∀ v, B v ∨ B' v → ∀ q ∈ boundQuantity? v, B q.toValue) :
    Leaves (Prices B) (.object (mergePrice (b.getD .null) v)) := by
  have hlater : ∀ key : String,
      ∀ w ∈ (boundQuantity? (laterBound (b.getD .null) v key)).map Quantity.toValue, B w := by
    intro key w hw
    obtain ⟨q, hq, rfl⟩ := Option.map_eq_some_iff.mp hw
    have hearlier : (b.getD .null).get key = .null ∨ B ((b.getD .null).get key) := by
      cases b with
      | none => exact .inl rfl
      | some w => exact (hb w rfl).get key
    have hcases : laterBound (b.getD .null) v key = .null ∨ B (laterBound (b.getD .null) v key) ∨
        B' (laterBound (b.getD .null) v key) := by
      unfold laterBound
      split
      · exact hearlier.imp_right .inl
      · rename_i hne
        exact .inr (.inr ((hv.get key).resolve_left hne))
    rcases hcases with he | he
    · rw [he] at hq
      cases hq
    · exact hbound _ he q hq
  rw [mergePrice_boundFields]
  exact leaves_boundFields (hlater "min") (hlater "max") hnumber

end

/-! ### merging -/

/-- What a later turn may hold can be merged into what the turns before may hold. -/
structure Merges (may later : String → Value → Prop) : Prop where
  /-- Nothing that may be held is vacuous, or has anything vacuous inside. -/
  kept : ∀ name v, may name v → Value.pruned? v = some v
  list : ∀ name ∈ listFields, ∀ (b : Option Value) (v : Value), (∀ w ∈ b, may name w) → later name v →
    Leaves (may name) (union (b.getD .null) v)
  price : ∀ (b : Option Value) (v : Value), (∀ w ∈ b, may "price" w) → later "price" v →
    Leaves (may "price") (.object (mergePrice (b.getD .null) v))
  scalar : ∀ name ∈ scalarFields, ∀ v, later name v → Leaves (may name) v

theorem exists_of_laterList {name : String} {w : Value} (h : laterList base delta name = some w) :
    ∃ u, Fields.get? delta name = some u ∧ w = union ((Fields.get? base name).getD .null) u := by
  unfold laterList Fields.has Fields.value at h
  cases hlater : Fields.get? delta name with
  | none =>
    rw [hlater] at h
    cases h
  | some u =>
    rw [hlater] at h
    exact ⟨u, rfl, (Option.some.inj h).symm⟩

theorem exists_of_laterPrice {w : Value} (h : laterPrice base delta "price" = some w) :
    ∃ u, Fields.get? delta "price" = some u ∧
      w = .object (mergePrice ((Fields.get? base "price").getD .null) u) := by
  unfold laterPrice Fields.has Fields.value at h
  cases hlater : Fields.get? delta "price" with
  | none =>
    rw [hlater] at h
    cases h
  | some u =>
    rw [hlater] at h
    exact ⟨u, rfl, (Option.some.inj h).symm⟩

theorem get?_of_laterScalar {name : String} {w : Value} (h : laterScalar delta name = some w) :
    Fields.get? delta name = some w := by
  unfold laterScalar Fields.value at h
  cases hlater : Fields.get? delta name with
  | none =>
    rw [hlater] at h
    cases h
  | some u =>
    rw [hlater, Option.getD_some] at h
    split at h
    · cases h
    · exact h

/-- A field of merged filters before pruning is a union, a merged price, a later single value, or what it
was before. -/
theorem get?_overlay_cases {key : Key} {w : Value} (h : Fields.get? (overlay base delta) key = some w) :
    (∃ name ∈ listFields, key = .text name ∧ ∃ u, Fields.get? delta name = some u ∧
      w = union ((Fields.get? base name).getD .null) u) ∨
    (key = "price" ∧ ∃ u, Fields.get? delta "price" = some u ∧
      w = .object (mergePrice ((Fields.get? base "price").getD .null) u)) ∨
    (∃ name ∈ scalarFields, key = .text name ∧ Fields.get? delta name = some w) ∨
    Fields.get? base key = some w := by
  cases key with
  | text name =>
    by_cases hlist : name ∈ listFields
    · rw [get?_overlay_list hlist] at h
      rcases Option.or_eq_some_iff.mp h with h | ⟨-, h⟩
      · exact .inl ⟨name, hlist, rfl, exists_of_laterList h⟩
      · exact .inr (.inr (.inr h))
    by_cases hprice : name = "price"
    · subst hprice
      rw [get?_overlay_price] at h
      rcases Option.or_eq_some_iff.mp h with h | ⟨-, h⟩
      · exact .inr (.inl ⟨rfl, exists_of_laterPrice h⟩)
      · exact .inr (.inr (.inr h))
    by_cases hscalar : name ∈ scalarFields
    · rw [get?_overlay_scalar hscalar] at h
      rcases Option.or_eq_some_iff.mp h with h | ⟨-, h⟩
      · exact .inr (.inr (.inl ⟨name, hscalar, rfl, get?_of_laterScalar h⟩))
      · exact .inr (.inr (.inr h))
    · simp only [overlay_eq, get?_putAll, if_neg hscalar, List.mem_singleton, if_neg hprice,
        if_neg hlist] at h
      exact .inr (.inr (.inr h))
  | _ =>
    simp only [overlay_eq, get?_putAll] at h
    exact .inr (.inr (.inr h))

/-- **Merged filters hold what they may**, if what the later ones hold can be merged into it. -/
theorem Holds.merge (hm : Merges may later) (hb : Holds may base) (hd : Holds later delta) :
    Holds may (merge base delta) := by
  refine holds_of_get? (nodup_merge hb.nodup) fun key v hv => ?_
  rw [get?_merge hb.nodup] at hv
  obtain ⟨w, hw, hleft⟩ := Option.bind_eq_some_iff.mp hv
  have hearlier : ∀ name : String, ∀ u ∈ Fields.get? base name, may name u := fun _ _ hu => hb.get? hu
  rcases get?_overlay_cases hw with ⟨name, hname, rfl, u, hu, rfl⟩ | ⟨rfl, u, hu, rfl⟩ |
    ⟨name, hname, rfl, hscalar⟩ | hbase
  · exact ⟨name, rfl, hm.list name hname _ u (hearlier name) (hd.get? hu) v hleft⟩
  · exact ⟨_, rfl, hm.price _ u (hearlier "price") (hd.get? hu) v hleft⟩
  · exact ⟨name, rfl, hm.scalar name hname w (hd.get? hscalar) v hleft⟩
  · obtain ⟨name, rfl, hmay⟩ := hb.get?_text hbase
    rw [hm.kept name w hmay] at hleft
    exact ⟨name, rfl, Option.some.inj hleft ▸ hmay⟩

/-! ### normalization -/

/-- **Normalized filters hold what they may**, if lists do when they are tidied, and anything else does when
it is pruned. -/
theorem Holds.normalize (h : Holds later filters) {P : String → String → Prop}
    (hlist : ∀ name ∈ listFields, ∀ v, later name v →
      ∃ xs, v = .ofStrings xs ∧ ∀ x ∈ tidied name xs, P name x)
    (hmay : ∀ name ∈ listFields, ∀ v, Lists (P name) v → may name v)
    (hother : ∀ name, name ∉ listFields → ∀ v, later name v → Leaves (may name) v) :
    Holds may (normalize filters) := by
  refine holds_of_get? (nodup_normalize h.nodup) fun key v hv => ?_
  obtain ⟨w, hw⟩ : ∃ w, Fields.get? filters key = some w := by
    refine Option.ne_none_iff_exists'.mp fun hnone => ?_
    rw [get?_normalize_none hnone] at hv
    cases hv
  obtain ⟨name, rfl, hlater⟩ := h.get?_text hw
  refine ⟨name, rfl, ?_⟩
  by_cases hname : name ∈ listFields
  · obtain ⟨xs, rfl, hxs⟩ := hlist name hname w hlater
    rw [get?_normalize_list h.nodup hname hw] at hv
    exact hmay name hname v
      (lists_of_listValue (nodup_tidied name xs) (fun _ hx => nonempty_tidied hx) hxs hv)
  · rw [get?_normalize_other h.nodup hname, hw] at hv
    exact hother name hname w hlater v hv

end Outfitter.Filters
