import Outfitter.Proofs.Dialogue.Planned
import Outfitter.Proofs.Filters.Holding
import Outfitter.Proofs.Filters.Scalars
import Outfitter.Proofs.Value.Same
import Outfitter.Proofs.Value.Solid

/-!
The algebra of merging.

`contents` tells what well-formed filters hold, however their numbers are written: filters of the same
contents are equal by value (`same_of_contents`). Contents are joined by an associative and idempotent
operation, and what merged filters hold is the join of what both sides hold (`contents_merge`). So merging
itself is associative and idempotent, and filters that hold nothing change nothing (`merge_laws`).
-/

namespace Outfitter

/-- What is added in two steps can be gathered before. -/
theorem firsts_firsts (a b c : List String) : firsts (firsts a b) c = firsts a (firsts b c) := by
  induction c generalizing b with
  | nil => rfl
  | cons x c ih =>
    have hlast : firsts a (b ++ [x]) = if x ∈ firsts a b then firsts a b else firsts a b ++ [x] :=
      List.foldl_append ..
    have hstep : (if x ∈ firsts a b then firsts a b else firsts a b ++ [x]) =
        firsts a (if x ∈ b then b else b ++ [x]) := by
      by_cases hx : x ∈ b
      · rw [if_pos hx, if_pos (mem_firsts.mpr (.inr hx))]
      · rw [if_neg hx, hlast]
    show firsts (if _ then _ else _) c = firsts a (firsts (if _ then _ else _) c)
    rw [hstep, ih]

namespace Filters

/-! ### well-formed filters -/

/-- What a field of well-formed filters may hold: texts, each once and none empty; a price with bounds that
are doubles exactly; or any single value with nothing vacuous inside. -/
def Proper (name : String) (v : Value) : Prop :=
  if name ∈ listFields then Lists (fun _ => True) v
  else if name = "price" then Prices (·.isDouble = true) v
  else name ∈ scalarFields ∧ v.isSolid = true ∧ v.isKeyed = true

/-- The fields are known, each stands once, and holds what it may. -/
def WellFormed (filters : Fields) : Prop :=
  Holds Proper filters

variable {filters a b c : Fields} {name : String} {v : Value}

theorem proper_list (h : name ∈ listFields) : Proper name v ↔ Lists (fun _ => True) v := by
  unfold Proper
  rw [if_pos h]

theorem proper_price : Proper "price" v ↔ Prices (·.isDouble = true) v := by
  unfold Proper
  rw [if_neg (by decide), if_pos rfl]

theorem proper_scalar (h : name ∈ scalarFields) : Proper name v ↔ v.isSolid = true ∧ v.isKeyed = true := by
  have hother : ∀ name ∈ scalarFields, name ∉ listFields ∧ name ≠ "price" := by decide
  unfold Proper
  rw [if_neg (hother name h).1, if_neg (hother name h).2]
  exact and_iff_right h

theorem isNumber_of_isDouble (h : v.isDouble = true) : IsNumber v := by
  rcases Value.isDouble_cases h with ⟨n, rfl⟩ | ⟨x, rfl⟩
  · exact .inl ⟨n, rfl⟩
  · exact .inr ⟨_, rfl⟩

/-- Nothing that well-formed filters hold is pruned. -/
theorem Proper.pruned? (h : Proper name v) : Value.pruned? v = some v := by
  unfold Proper at h
  split at h
  · exact h.pruned?
  split at h
  · exact h.pruned? fun _ => isNumber_of_isDouble
  · exact Value.pruned?_of_isSolid h.2.1

/-- A number that is a double exactly, as a bound. -/
theorem exists_boundQuantity? (h : v.isDouble = true) :
    ∃ q, boundQuantity? v = some q ∧ q.toValue.isDouble = true ∧ q.toValue.units? = v.units? := by
  have hread : boundQuantity? v = Quantity.ofNumber? v := by
    rcases Value.isDouble_cases h with ⟨n, rfl⟩ | ⟨x, rfl⟩ <;> rfl
  rw [hread]
  exact Quantity.exists_ofNumber? h

theorem merges_proper : Merges Proper Proper where
  kept _ _ h := h.pruned?
  list name h b v hb hv := by
    have hleaves := leaves_union (fun w hw => (proper_list h).mp (hb w hw)) ((proper_list h).mp hv)
    exact fun u hu => (proper_list h).mpr (hleaves u hu)
  price b v hb hv := by
    have hbound : ∀ v : Value, v.isDouble = true ∨ v.isDouble = true → ∀ q ∈ boundQuantity? v,
        q.toValue.isDouble = true := by
      intro v hv q hq
      obtain ⟨x, hx⟩ := exists_of_boundQuantity hq
      exact Quantity.isDouble_toValue hx
    have hleaves := leaves_mergePrice (fun w hw => proper_price.mp (hb w hw)) (proper_price.mp hv)
      (fun _ => isNumber_of_isDouble) hbound
    exact fun u hu => proper_price.mpr (hleaves u hu)
  scalar name h v hv := by
    intro u hu
    rw [hv.pruned?] at hu
    exact Option.some.inj hu ▸ hv

theorem WellFormed.nil : WellFormed [] :=
  holds_nil

theorem WellFormed.merge (ha : WellFormed a) (hb : WellFormed b) : WellFormed (merge a b) :=
  Holds.merge merges_proper ha hb

/-! ### contents -/

/-- What well-formed filters hold. The bounds of a price are counted in units of the least positive
double. -/
@[ext]
structure Contents where
  tokens : String → List String
  least : Option Int
  most : Option Int
  single : String → Option Value

namespace Contents

/-- What is held after something was added: lists grow, and everything else follows what was added. -/
def join (c d : Contents) : Contents :=
  ⟨fun name => firsts (c.tokens name) (d.tokens name), d.least.or c.least, d.most.or c.most,
    fun name => (d.single name).or (c.single name)⟩

theorem join_assoc (c d e : Contents) : (c.join d).join e = c.join (d.join e) := by
  ext1
  · exact funext fun name => firsts_firsts ..
  · exact Option.or_assoc.symm
  · exact Option.or_assoc.symm
  · exact funext fun name => Option.or_assoc.symm

theorem join_self (c : Contents) : c.join c = c := by
  ext1
  · exact funext fun name => firsts_of_subset fun _ => id
  · exact Option.or_self
  · exact Option.or_self
  · exact funext fun name => Option.or_self

end Contents

/-- The bound of a price, in units of the least positive double. -/
def boundUnits (filters : Fields) (key : String) : Option Int :=
  ((Fields.value filters "price").get key).units?

/-- What filters hold. -/
def contents (filters : Fields) : Contents where
  tokens name := if name ∈ listFields then Message.textsOf (Fields.value filters name) else []
  least := boundUnits filters "min"
  most := boundUnits filters "max"
  single name := if name ∈ scalarFields then Fields.get? filters name else none

theorem join_contents_nil (filters : Fields) : (contents filters).join (contents []) = contents filters := by
  ext1
  · funext name
    show firsts _ (if name ∈ listFields then [] else []) = _
    rw [ite_self]
    rfl
  · rfl
  · rfl
  · funext name
    show (if name ∈ scalarFields then none else none : Option Value).or _ = _
    rw [ite_self]
    rfl

/-- The lists of well-formed filters. -/
theorem WellFormed.tokens (h : WellFormed filters) (hname : name ∈ listFields) :
    Fields.get? filters name = listValue ((contents filters).tokens name) ∧
      ((contents filters).tokens name).Nodup ∧ ∀ x ∈ (contents filters).tokens name, x.isEmpty = false := by
  have htokens : (contents filters).tokens name = Message.textsOf (Fields.value filters name) := if_pos hname
  rw [htokens, Fields.value]
  cases hv : Fields.get? filters name with
  | none => exact ⟨rfl, List.nodup_nil, fun _ hx => absurd hx List.not_mem_nil⟩
  | some v =>
    obtain ⟨xs, rfl, hxs⟩ := (proper_list hname).mp (h.get? hv)
    have htexts : Message.textsOf ((some (Value.ofStrings xs)).getD .null) = xs := Message.textsOf_ofStrings xs
    rw [htexts]
    exact ⟨hxs.listValue.symm, hxs.nodup, hxs.texts⟩

theorem contents_nil_join (h : WellFormed filters) : (contents []).join (contents filters) = contents filters := by
  ext1
  · funext name
    show firsts (if name ∈ listFields then [] else []) _ = _
    rw [ite_self]
    by_cases hname : name ∈ listFields
    · exact firsts_nil (h.tokens hname).2.1
    · show firsts [] (if _ then _ else _) = if _ then _ else _
      rw [if_neg hname]
      rfl
  · exact Option.or_none
  · exact Option.or_none
  · funext name
    show Option.or _ (if name ∈ scalarFields then none else none) = _
    rw [ite_self]
    exact Option.or_none

/-! ### what merged filters hold -/

/-- The later bound, as it is written in a merged price. -/
theorem units?_laterBound {base delta : Value} {key : String}
    (hbase : base.get key = .null ∨ (base.get key).isDouble = true)
    (hdelta : delta.get key = .null ∨ (delta.get key).isDouble = true) :
    ∃ u : Option Value, u = (boundQuantity? (laterBound base delta key)).map Quantity.toValue ∧
      (∀ w ∈ u, IsNumber w) ∧
      (u.getD .null).units? = ((delta.get key).units?).or (base.get key).units? := by
  refine ⟨_, rfl, ?_⟩
  have hread : ∀ w : Value, w = .null ∨ w.isDouble = true →
      (∀ u ∈ (boundQuantity? w).map Quantity.toValue, IsNumber u) ∧
        (((boundQuantity? w).map Quantity.toValue).getD .null).units? = w.units? := by
    rintro w (rfl | hw)
    · exact ⟨nofun, rfl⟩
    · obtain ⟨q, hq, hdouble, hunits⟩ := exists_boundQuantity? hw
      rw [hq]
      refine ⟨fun u hu => ?_, hunits⟩
      exact Option.some.inj hu ▸ isNumber_of_isDouble hdouble
  rcases hdelta with hnull | hdouble
  · have hlater : laterBound base delta key = base.get key := by
      unfold laterBound
      rw [hnull]
    rw [hlater, hnull]
    exact hread _ hbase
  · have hlater : laterBound base delta key = delta.get key := by
      unfold laterBound
      split
      · rename_i hnull
        rw [hnull] at hdouble
        cases hdouble
      · rfl
    obtain ⟨u, hu⟩ := Value.units?_isSome hdouble
    obtain ⟨hnumber, hunits⟩ := hread _ (.inr hdouble)
    rw [hlater]
    refine ⟨hnumber, hunits.trans ?_⟩
    rw [hu]
    rfl

theorem WellFormed.bound (h : WellFormed filters) (key : String) :
    (Fields.value filters "price").get key = .null ∨
      ((Fields.value filters "price").get key).isDouble = true := by
  unfold Fields.value
  cases hv : Fields.get? filters "price" with
  | none => exact .inl rfl
  | some v => exact (proper_price.mp (h.get? hv)).get key

/-- The bounds of merged filters. -/
theorem boundUnits_merge (ha : WellFormed a) (hb : WellFormed b) :
    boundUnits (merge a b) "min" = (boundUnits b "min").or (boundUnits a "min") ∧
      boundUnits (merge a b) "max" = (boundUnits b "max").or (boundUnits a "max") := by
  obtain ⟨least, hleast, hnumber, hmin⟩ := units?_laterBound (ha.bound "min") (hb.bound "min")
  obtain ⟨most, hmost, hnumber', hmax⟩ := units?_laterBound (ha.bound "max") (hb.bound "max")
  have hprice : Fields.get? (merge a b) "price" =
      if Fields.has b "price" then priceValue least most else Fields.get? a "price" := by
    rw [get?_merge ha.nodup, get?_overlay_price, laterPrice]
    split
    · rw [mergePrice_boundFields, ← hleast, ← hmost]
      exact pruned?_bounds hnumber hnumber'
    · rw [Option.none_or]
      cases hv : Fields.get? a "price" with
      | none => rfl
      | some v => exact (ha.get? hv).pruned?
  unfold boundUnits
  rw [← hmin, ← hmax, Fields.value, hprice]
  by_cases hhas : Fields.has b "price" = true
  · rw [if_pos hhas, get_min, get_max]
    exact ⟨rfl, rfl⟩
  · have hnone : Fields.get? b "price" = none := Option.not_isSome_iff_eq_none.mp hhas
    rw [if_neg hhas, hmin, hmax, Fields.value, Fields.value, hnone]
    exact ⟨rfl, rfl⟩

/-- The single values of merged filters. -/
theorem get?_merge_scalar (ha : WellFormed a) (hb : WellFormed b) (hname : name ∈ scalarFields) :
    Fields.get? (merge a b) name = (Fields.get? b name).or (Fields.get? a name) := by
  have hlater : laterScalar b name = Fields.get? b name := by
    unfold laterScalar Fields.value
    cases hv : Fields.get? b name with
    | none => rfl
    | some v =>
      have hsolid := ((proper_scalar hname).mp (hb.get? hv)).1
      cases v with
      | null => cases hsolid
      | _ => rfl
  rw [get?_merge ha.nodup, get?_overlay_scalar hname, hlater]
  cases hv : Fields.get? b name with
  | some v => exact (hb.get? hv).pruned?
  | none =>
    cases hw : Fields.get? a name with
    | none => rfl
    | some w => exact (ha.get? hw).pruned?

/-- **What merged filters hold** is what both sides hold, joined. -/
theorem contents_merge (ha : WellFormed a) (hb : WellFormed b) :
    contents (merge a b) = (contents a).join (contents b) := by
  obtain ⟨hmin, hmax⟩ := boundUnits_merge ha hb
  ext1
  · funext name
    by_cases hname : name ∈ listFields
    · obtain ⟨hxs, hn, ht⟩ := ha.tokens hname
      obtain ⟨hys, -, ht'⟩ := hb.tokens hname
      have hjoined := get?_merge_list ha.nodup hname hxs hn ht hys ht'
      obtain ⟨hzs, -, -⟩ := (ha.merge hb).tokens hname
      exact listValue_injective (hzs.symm.trans hjoined)
    · show (if _ then _ else _) = firsts (if _ then _ else _) (if _ then _ else _)
      rw [if_neg hname, if_neg hname, if_neg hname]
      rfl
  · exact hmin
  · exact hmax
  · funext name
    show (if _ then _ else _) = Option.or (if _ then _ else _) (if _ then _ else _)
    split
    · rename_i hname
      exact get?_merge_scalar ha hb hname
    · rfl

/-! ### filters of the same contents -/

theorem same_texts (xs : List String) : (Value.ofStrings xs).same (.ofStrings xs) = true := by
  refine Value.same_self _ ?_
  show Value.areKeyed (xs.map Value.str) = true
  induction xs with
  | nil => rfl
  | cons x xs ih => exact ih

/-- Bounds that count the same are equal by value. -/
theorem same_bounds {fields others : Fields} (hf : Bounds (·.isDouble = true) fields)
    (ho : Bounds (·.isDouble = true) others)
    (h : ∀ key ∈ ["min", "max"], ((Value.object fields).get key).units? = ((Value.object others).get key).units?) :
    (Value.object fields).same (.object others) = true := by
  refine Value.same_object hf.nodup ho.nodup fun key => ?_
  by_cases hkey : key = "min" ∨ key = "max"
  · have hunits : ((Fields.get? fields key).getD .null).units? =
        ((Fields.get? others key).getD .null).units? := by
      rcases hkey with rfl | rfl
      · exact h "min" (by decide)
      · exact h "max" (by decide)
    have hdouble : ∀ {fields : Fields} {v : Value}, Bounds (·.isDouble = true) fields →
        Fields.get? fields key = some v → ∃ u, v.units? = some u := fun hb hv =>
      Value.units?_isSome (hb.each _ (Fields.mem_of_get? hv)).2
    cases hv : Fields.get? fields key with
    | none =>
      cases hw : Fields.get? others key with
      | none => exact .none
      | some w =>
        obtain ⟨u, hu⟩ := hdouble ho hw
        rw [hv, hw, Option.getD_some, hu] at hunits
        cases hunits
    | some v =>
      obtain ⟨u, hu⟩ := hdouble hf hv
      cases hw : Fields.get? others key with
      | none =>
        rw [hv, hw, Option.getD_some, hu] at hunits
        cases hunits
      | some w =>
        rw [hv, hw, Option.getD_some, Option.getD_some, hu] at hunits
        exact .some (Value.same_of_units hu hunits.symm)
  · have hnone : ∀ {fields : Fields}, Bounds (·.isDouble = true) fields → Fields.get? fields key = none := by
      intro fields hb
      refine Option.eq_none_iff_forall_ne_some.mpr fun v hv => ?_
      exact hkey (hb.each _ (Fields.mem_of_get? hv)).1
    rw [hnone hf, hnone ho]
    exact .none

/-- Prices that count the same are equal by value. -/
theorem rel_price (ha : WellFormed a) (hb : WellFormed b)
    (h : ∀ key ∈ ["min", "max"], boundUnits a key = boundUnits b key) :
    Option.Rel (fun v w => v.same w = true) (Fields.get? a "price") (Fields.get? b "price") := by
  -- a price has a bound, so none counts the same as no price
  have hbound : ∀ {fields : Fields}, Bounds (·.isDouble = true) fields →
      ∃ key ∈ ["min", "max"], ((Value.object fields).get (Key.text key)).units? ≠ none := by
    intro fields hf
    obtain ⟨p, hp⟩ := List.exists_mem_of_ne_nil fields hf.nonempty
    obtain ⟨hkey, hdouble⟩ := hf.each p hp
    obtain ⟨u, hu⟩ := Value.units?_isSome hdouble
    have hget : (Value.object fields).get p.1 = p.2 :=
      congrArg (Option.getD · Value.null) (Fields.get?_of_mem hf.nodup hp)
    rcases hkey with hkey | hkey
    · refine ⟨"min", by decide, ?_⟩
      rw [← hkey, hget, hu]
      exact nofun
    · refine ⟨"max", by decide, ?_⟩
      rw [← hkey, hget, hu]
      exact nofun
  unfold boundUnits Fields.value at h
  cases hv : Fields.get? a "price" with
  | none =>
    cases hw : Fields.get? b "price" with
    | none => exact .none
    | some w =>
      obtain ⟨others, rfl, ho⟩ := proper_price.mp (hb.get? hw)
      obtain ⟨key, hkey, hne⟩ := hbound ho
      have := h key hkey
      rw [hv, hw] at this
      exact absurd this.symm hne
  | some v =>
    obtain ⟨fields, rfl, hf⟩ := proper_price.mp (ha.get? hv)
    rw [hv] at h
    cases hw : Fields.get? b "price" with
    | none =>
      obtain ⟨key, hkey, hne⟩ := hbound hf
      have := h key hkey
      rw [hw] at this
      exact absurd this hne
    | some w =>
      obtain ⟨others, rfl, ho⟩ := proper_price.mp (hb.get? hw)
      rw [hw] at h
      exact .some (same_bounds hf ho h)

/-- **Filters of the same contents** are equal by value. -/
theorem same_of_contents (ha : WellFormed a) (hb : WellFormed b) (h : contents a = contents b) :
    (Value.object a).same (.object b) = true := by
  refine Value.same_object ha.nodup hb.nodup fun key => ?_
  by_cases hkey : ∃ name, key = .text name ∧ (name ∈ listFields ∨ name = "price" ∨ name ∈ scalarFields)
  · obtain ⟨name, rfl, hlist | rfl | hscalar⟩ := hkey
    · rw [(ha.tokens hlist).1, (hb.tokens hlist).1, h]
      rcases listValue_cases ((contents b).tokens name) with he | ⟨he, -⟩
      · rw [he]
        exact .some (same_texts _)
      · rw [he]
        exact .none
    · refine rel_price ha hb fun key hkey => ?_
      rcases List.mem_cons.mp hkey with rfl | hkey
      · exact congrArg Contents.least h
      · obtain rfl := List.mem_singleton.mp hkey
        exact congrArg Contents.most h
    · have hsingle : (if name ∈ scalarFields then Fields.get? a name else none) =
          if name ∈ scalarFields then Fields.get? b name else none := congrArg (Contents.single · name) h
      rw [if_pos hscalar, if_pos hscalar] at hsingle
      rw [hsingle]
      cases hv : Fields.get? b name with
      | none => exact .none
      | some v => exact .some (Value.same_self v ((proper_scalar hscalar).mp (hb.get? hv)).2)
  · have hnone : ∀ {filters : Fields}, WellFormed filters → Fields.get? filters key = none := by
      intro filters hf
      refine Option.eq_none_iff_forall_ne_some.mpr fun v hv => hkey ?_
      obtain ⟨name, rfl, hproper⟩ := hf.get?_text hv
      refine ⟨name, rfl, ?_⟩
      unfold Proper at hproper
      split at hproper
      · rename_i hlist
        exact .inl hlist
      split at hproper
      · rename_i hprice
        exact .inr (.inl hprice)
      · exact .inr (.inr hproper.1)
    rw [hnone ha, hnone hb]
    exact .none

/-! ### the laws of merging -/

/-- The merged lists hold the same texts in whatever order the filters are merged. -/
theorem mem_itemsOf_merge (ha : WellFormed a) (hb : WellFormed b) (hname : name ∈ listFields) (v : Value) :
    v ∈ itemsOf (Fields.value (merge a b) name) ↔
      ∃ x, v = .str x ∧ (x ∈ (contents a).tokens name ∨ x ∈ (contents b).tokens name) := by
  have hitems : itemsOf (Fields.value (merge a b) name) =
      (firsts ((contents a).tokens name) ((contents b).tokens name)).map Value.str := by
    rw [Fields.value, ((ha.merge hb).tokens hname).1, contents_merge ha hb]
    exact itemsOf_listValue _
  rw [hitems, List.mem_map]
  constructor
  · rintro ⟨x, hx, rfl⟩
    exact ⟨x, rfl, mem_firsts.mp hx⟩
  · rintro ⟨x, rfl, hx⟩
    exact ⟨x, mem_firsts.mpr hx, rfl⟩

/-- **Merging well-formed filters** returns well-formed filters. It is associative and idempotent, filters
that hold nothing change nothing, and the lists hold the same texts whichever side comes first. -/
theorem merge_laws (ha : WellFormed a) (hb : WellFormed b) (hc : WellFormed c) :
    (Value.object (merge (merge a b) c)).same (.object (merge a (merge b c))) = true ∧
      (Value.object (merge a [])).same (.object a) = true ∧
      (Value.object (merge [] a)).same (.object a) = true ∧
      (Value.object (merge a a)).same (.object a) = true ∧
      WellFormed (merge a b) ∧
      (∀ name ∈ listFields, ∀ v, v ∈ itemsOf (Fields.value (merge a b) name) ↔
        v ∈ itemsOf (Fields.value (merge b a) name)) ∧
      ∀ debugging, (merged (.object a) (.object b)).outcomeWhen debugging = .ok (merge a b) := by
  have hab := ha.merge hb
  have hbc := hb.merge hc
  refine ⟨?_, ?_, ?_, ?_, hab, ?_, outcomeWhen_merged ha.named hb.named⟩
  · refine same_of_contents (hab.merge hc) (ha.merge hbc) ?_
    rw [contents_merge hab hc, contents_merge ha hb, contents_merge ha hbc, contents_merge hb hc,
      Contents.join_assoc]
  · refine same_of_contents (ha.merge .nil) ha ?_
    rw [contents_merge ha .nil, join_contents_nil]
  · refine same_of_contents (WellFormed.nil.merge ha) ha ?_
    rw [contents_merge .nil ha, contents_nil_join ha]
  · refine same_of_contents (ha.merge ha) ha ?_
    rw [contents_merge ha ha, Contents.join_self]
  · intro name hname v
    rw [mem_itemsOf_merge ha hb hname, mem_itemsOf_merge hb ha hname]
    simp only [or_comm]

def navyFromTwenty : Fields :=
  [("colors", .ofStrings ["navy", "light-blue"]), ("price", .object [("min", .int 20)]), ("sort", .str "newest")]

/-- At most ninety-nine and a half. -/
def greyBelowHundred : Fields :=
  [("colors", .ofStrings ["grey", "navy"]),
    ("price", .object [("max", .float (.finite ⟨false, 199 * Nat.pow 2 45, -46, by decide⟩))])]

def smallFromThirty : Fields :=
  [("sizes", .ofStrings ["s"]), ("price", .object [("min", .int 30)]), ("in_stock", .bool true)]

theorem merge_laws_of_three :
    (Value.object (merge (merge navyFromTwenty greyBelowHundred) smallFromThirty)).same
        (.object (merge navyFromTwenty (merge greyBelowHundred smallFromThirty))) = true ∧
      Fields.get? (merge navyFromTwenty greyBelowHundred) "colors" =
        some (.ofStrings ["navy", "light-blue", "grey"]) := by
  have hlist : ∀ {name : String} {xs : List String}, name ∈ listFields → Texts (fun _ => True) xs →
      ∃ n : String, Key.text name = n ∧ Proper n (.ofStrings xs) := fun hname hxs =>
    ⟨_, rfl, (proper_list hname).mpr ⟨_, rfl, hxs⟩⟩
  have hprice : ∀ {key : Key} {v : Value}, (key = "min" ∨ key = "max") → v.isDouble = true →
      ∃ n : String, Key.text "price" = n ∧ Proper n (.object [(key, v)]) := fun hkey hv =>
    ⟨_, rfl, proper_price.mpr ⟨_, rfl, by simp, by simp [Fields.keys], by simpa using ⟨hkey, hv⟩⟩⟩
  have hscalar : ∀ {name : String} {v : Value}, name ∈ scalarFields → v.isSolid = true → v.isKeyed = true →
      ∃ n : String, Key.text name = n ∧ Proper n v := fun hname hsolid hkeyed =>
    ⟨_, rfl, (proper_scalar hname).mpr ⟨hsolid, hkeyed⟩⟩
  have hnavy : WellFormed navyFromTwenty := by
    refine ⟨by decide, List.forall_mem_cons.mpr ⟨?_, List.forall_mem_cons.mpr ⟨?_,
      List.forall_mem_singleton.mpr ?_⟩⟩⟩
    · exact hlist (by decide) ⟨by simp, by decide, by decide, by simp⟩
    · exact hprice (.inl rfl) (by decide +kernel)
    · exact hscalar (by decide) (by decide) (by decide)
  have hgrey : WellFormed greyBelowHundred := by
    refine ⟨by decide, List.forall_mem_cons.mpr ⟨?_, List.forall_mem_singleton.mpr ?_⟩⟩
    · exact hlist (by decide) ⟨by simp, by decide, by decide, by simp⟩
    · exact hprice (.inr rfl) rfl
  have hsmall : WellFormed smallFromThirty := by
    refine ⟨by decide, List.forall_mem_cons.mpr ⟨?_, List.forall_mem_cons.mpr ⟨?_,
      List.forall_mem_singleton.mpr ?_⟩⟩⟩
    · exact hlist (by decide) ⟨by simp, by decide, by decide, by simp⟩
    · exact hprice (.inl rfl) (by decide +kernel)
    · exact hscalar (by decide) (by decide) (by decide)
  exact ⟨(merge_laws hnavy hgrey hsmall).1, by rfl⟩

end Filters

end Outfitter
