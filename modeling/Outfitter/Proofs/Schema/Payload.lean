import Outfitter.Proofs.Filters.Palette
import Outfitter.Schema.Payload

/-!
Filters as payloads.

Filters that ask for something natural pass the check of a payload (`check_of_shows`), and the payload
asks for the same (`shows_payloadOf`). So filters may cross the boundary of the program and come back.
-/

namespace Outfitter.Schema

open Filters

variable {filters : Fields} {l : Look} {α : Type}

/-! ### single checks -/

theorem part_ok (step : Step) {check : Value → Checked α} {v : Value} {a : α} (h : check v = .ok a) :
    Checked.part step check v = .ok a := by
  unfold Checked.part
  rw [h]
  rfl

theorem orNone_ok {check : Value → Checked α} {v : Value} {a : α} (hv : v ≠ .null) (h : check v = .ok a) :
    orNone check v = .ok (some a) := by
  have he : orNone check v = some <$> check v := by
    unfold orNone
    split
    · exact absurd rfl hv
    · rfl
  rw [he, h]
  rfl

theorem sequence_zipIdx {β : Type} {check : Value → Checked α} {f : β → Value} {g : β → α} {xs : List β}
    (h : ∀ x ∈ xs, check (f x) = .ok (g x)) (n : Nat) :
    Checked.sequence (((xs.map f).zipIdx n).map fun (v, i) => Checked.part (.item i) check v) =
      .ok (xs.map g) := by
  induction xs generalizing n with
  | nil => rfl
  | cons x xs ih =>
    obtain ⟨hx, hxs⟩ := List.forall_mem_cons.mp h
    rw [List.map_cons, List.zipIdx_cons, List.map_cons, Checked.sequence, ih hxs]
    dsimp only
    rw [part_ok _ hx]
    rfl

/-- A list of values that pass a check. -/
theorem listOf_map {β : Type} {check : Value → Checked α} {f : β → Value} {g : β → α} {xs : List β}
    (h : ∀ x ∈ xs, check (f x) = .ok (g x)) : listOf check (.list (xs.map f)) = .ok (xs.map g) :=
  sequence_zipIdx h 0

theorem texts_ofStrings (xs : List String) : texts (.ofStrings xs) = .ok xs := by
  have hlist : listOf text (.list (xs.map Value.str)) = .ok (xs.map id) := listOf_map fun _ _ => rfl
  rw [List.map_id] at hlist
  exact hlist

/-- An object of values that pass a check. -/
theorem objectOf_map {β : Type} {check : Value → Checked α} {f : β → Value} {g : β → α}
    {pairs : List (String × β)} (h : ∀ p ∈ pairs, check (f p.2) = .ok (g p.2)) :
    objectOf check (.object (pairs.map fun (name, b) => (.text name, f b))) =
      .ok (pairs.map fun (name, b) => (name, g b)) := by
  unfold objectOf
  dsimp only
  induction pairs with
  | nil => rfl
  | cons p pairs ih =>
    obtain ⟨name, b⟩ := p
    obtain ⟨hb, hpairs⟩ := List.forall_mem_cons.mp h
    rw [List.map_cons, List.map_cons, Checked.sequence, ih hpairs]
    dsimp only
    rw [part_ok _ hb]
    rfl

theorem required_present {fields : Fields} {name : String} {v : Value}
    (h : Fields.get? fields name = some v) {check : Value → Checked α} {a : α} (hc : check v = .ok a) :
    required fields name check = .ok a := by
  unfold required
  rw [h]
  exact part_ok _ hc

/-- A field that is absent under all its spellings takes its default. -/
theorem optional_absent {fields : Fields} {names : List String} (default : α) (check : Value → Checked α)
    (h : ∀ name ∈ names, Fields.get? fields name = none) :
    optional fields names default check = .ok default := by
  have hspelling : spelling? fields names = none := by
    refine List.findSome?_eq_none_iff.mpr fun name hname => ?_
    rw [h name hname]
    rfl
  unfold optional
  rw [hspelling]

theorem optional_present {fields : Fields} {name : String} {names : List String} {v : Value}
    (h : Fields.get? fields name = some v) (default : α) {check : Value → Checked α} {a : α}
    (hc : check v = .ok a) : optional fields (name :: names) default check = .ok a := by
  have hspelling : spelling? fields (name :: names) = some (name, v) := by
    unfold spelling?
    rw [List.findSome?_cons, h]
    rfl
  unfold optional
  rw [hspelling]
  exact part_ok _ hc

/-! ### the payload of a look -/

/-- The texts of a list, if there are any. -/
def given (xs : List String) : Option (List String) :=
  if xs.isEmpty then none else some xs

/-- Price bounds, if there are any. -/
def rangeOf (least most : Option Double.Finite) : Option PriceRange :=
  if least.isNone && most.isNone then none else some ⟨least.map .finite, most.map .finite⟩

/-- What is asked for as a payload. -/
def payloadOf (l : Look) : Payload where
  includeCategories := given (l.tokens "include_categories")
  categoryIds := given (l.tokens "category_ids")
  colors := given (l.tokens "colors")
  sizes := given (l.tokens "sizes")
  price := rangeOf l.least l.most
  occasion := given (l.tokens "occasion")
  season := given (l.tokens "season")
  fit := given (l.tokens "fit")
  silhouette := given (l.tokens "silhouette")
  material := given (l.tokens "material")
  pattern := given (l.tokens "pattern")
  brand := given (l.tokens "brand")
  q := none
  inStock := if l.inStock then some true else none
  sort := none
  page := none
  limit := none

theorem number_of_means {v : Value} {x : Double.Finite} (h : Means v x) : number v = .ok (.finite x) := by
  cases h with
  | float => rfl
  | int h =>
    unfold number
    simp only [h]

theorem nonNegative_of_means {v : Value} {x : Double.Finite} (h : Means v x) (hx : Natural x) :
    nonNegativeNumber v = .ok (.finite x) := by
  have hunits : isNonNegative (.finite x) = true := by
    refine decide_eq_true ?_
    unfold Double.Finite.units
    rw [hx.positive, if_neg Bool.false_ne_true]
    exact Int.natCast_nonneg _
  unfold nonNegativeNumber
  rw [number_of_means h]
  exact if_pos hunits

/-- The check of a field that holds a list. -/
theorem check_tokens {counts : Value → Double.Finite → Prop} (h : Shows counts filters l) {name : String}
    (hname : name ∈ listFields) {names : List String}
    (hothers : ∀ other ∈ names, Key.text other ∉ lookFields.map Key.text) :
    optional filters (name :: names) none (orNone texts) = .ok (given (l.tokens name)) := by
  rcases listValue_cases (l.tokens name) with he | ⟨he, hnil⟩
  · have hgiven : given (l.tokens name) = some (l.tokens name) := by
      unfold listValue at he
      unfold given
      split at he
      · cases he
      · rename_i h
        exact if_neg h
    rw [hgiven]
    refine optional_present (v := .ofStrings (l.tokens name)) ((h.tokens name hname).trans he) _ ?_
    exact orNone_ok nofun (texts_ofStrings _)
  · rw [hnil]
    refine optional_absent _ _ fun other hother => ?_
    rcases List.mem_cons.mp hother with rfl | hother
    · exact (h.tokens _ hname).trans he
    · exact h.others _ (hothers other hother)

theorem check_absent {counts : Value → Double.Finite → Prop} (h : Shows counts filters l) {name : String}
    (hname : Key.text name ∉ lookFields.map Key.text) (check : Value → Checked (Option α)) :
    optional filters [name] none check = .ok none :=
  optional_absent _ _ fun _ hother => List.mem_singleton.mp hother ▸ h.others _ hname

theorem check_stock {counts : Value → Double.Finite → Prop} (h : Shows counts filters l) :
    optional filters ["in_stock", "inStock"] none (orNone truth) =
      .ok (if l.inStock then some true else none) := by
  cases hl : l.inStock with
  | true =>
    have hget : Fields.get? filters "in_stock" = some (.bool true) := by rw [h.inStock, hl]; rfl
    exact optional_present hget _ rfl
  | false =>
    have hget : Fields.get? filters "in_stock" = none := by rw [h.inStock, hl]; rfl
    refine optional_absent _ _ fun _ hother => ?_
    rcases List.mem_cons.mp hother with rfl | hother
    · exact hget
    · obtain rfl := List.mem_singleton.mp hother
      exact h.others _ (by decide)

/-- The check of a price bound. -/
theorem check_bound {fields : Fields} {name : String} {v : Option Value} {x : Option Double.Finite}
    (hget : Fields.get? fields name = v) (h : Option.Rel Means v x) (hx : ∀ y ∈ x, Natural y) :
    optional fields [name] none (orNone nonNegativeNumber) = .ok (x.map .finite) := by
  cases h with
  | none => exact optional_absent _ _ fun other hother => List.mem_singleton.mp hother ▸ hget
  | some h => exact optional_present hget _ (orNone_ok h.ne_null (nonNegative_of_means h (hx _ rfl)))

theorem isNone_of_rel {β : Type} {r : α → β → Prop} {a : Option α} {b : Option β} (h : Option.Rel r a b) :
    a.isNone = b.isNone := by
  cases h <;> rfl

theorem check_price (h : Shows Means filters l) (hl : l.Neat) (otherwise : String → Mismatch) :
    optional filters ["price"] none (orNone (PriceRange.check otherwise)) =
      .ok (rangeOf l.least l.most) := by
  obtain ⟨least, most, hleast, hmost, hp⟩ := h.price
  have hmin : Fields.get? (boundFields least most) "min" = least := by
    cases least <;> cases most <;> rfl
  have hmax : Fields.get? (boundFields least most) "max" = most := by
    cases least <;> cases most <;> rfl
  have hrange : PriceRange.check otherwise (.object (boundFields least most)) =
      .ok ⟨l.least.map .finite, l.most.map .finite⟩ := by
    show PriceRange.mk <$> optional (boundFields least most) ["min"] none (orNone nonNegativeNumber)
      <*> optional (boundFields least most) ["max"] none (orNone nonNegativeNumber) = _
    rw [check_bound hmin hleast hl.least, check_bound hmax hmost hl.most]
    rfl
  have hsame : (least.isNone && most.isNone) = (l.least.isNone && l.most.isNone) := by
    rw [isNone_of_rel hleast, isNone_of_rel hmost]
  unfold rangeOf
  rw [← hsame]
  unfold priceValue at hp
  split at hp
  · rename_i hnone
    rw [if_pos hnone]
    exact optional_absent _ _ fun _ hother => List.mem_singleton.mp hother ▸ hp
  · rename_i hnone
    rw [if_neg hnone]
    exact optional_present hp _ (orNone_ok nofun hrange)

/-- **Filters that ask for something natural make a payload.** -/
theorem check_of_shows (h : Shows Means filters l) (hl : l.Neat) (otherwise : String → Mismatch) :
    Payload.check otherwise (.object filters) = .ok (payloadOf l) := by
  unfold Payload.check record
  dsimp only
  rw [check_tokens h (by decide) (by decide), check_tokens h (by decide) (by decide),
    check_tokens h (by decide) (by decide), check_tokens h (by decide) (by decide),
    check_price h hl otherwise, check_tokens h (by decide) (by decide),
    check_tokens h (by decide) (by decide), check_tokens h (by decide) (by decide),
    check_tokens h (by decide) (by decide), check_tokens h (by decide) (by decide),
    check_tokens h (by decide) (by decide), check_tokens h (by decide) (by decide),
    check_absent h (by decide), check_stock h, check_absent h (by decide), check_absent h (by decide),
    check_absent h (by decide)]
  rfl

/-! ### and back -/

theorem given_map (xs : List String) : (given xs).map Value.ofStrings = listValue xs := by
  cases xs <;> rfl

theorem rangeOf_map (least most : Option Double.Finite) :
    (rangeOf least most).map (fun r => .object r.toFields) =
      priceValue (least.map fun x => .float (.finite x)) (most.map fun x => .float (.finite x)) := by
  cases least <;> cases most <;> rfl

theorem rel_float (x : Option Double.Finite) : Option.Rel Is (x.map fun y => .float (.finite y)) x := by
  cases x with
  | none => exact .none
  | some x => exact .some .float

/-- The fields of a payload that a look makes, with their values. -/
def tableOf (l : Look) : List (String × Option Value) :=
  [("include_categories", listValue (l.tokens "include_categories")),
    ("category_ids", listValue (l.tokens "category_ids")), ("colors", listValue (l.tokens "colors")),
    ("sizes", listValue (l.tokens "sizes")),
    ("price", priceValue (l.least.map fun x => .float (.finite x)) (l.most.map fun x => .float (.finite x))),
    ("occasion", listValue (l.tokens "occasion")), ("season", listValue (l.tokens "season")),
    ("fit", listValue (l.tokens "fit")), ("silhouette", listValue (l.tokens "silhouette")),
    ("material", listValue (l.tokens "material")), ("pattern", listValue (l.tokens "pattern")),
    ("brand", listValue (l.tokens "brand")),
    ("in_stock", if l.inStock then some (.bool true) else none)]

theorem toFields_payloadOf (l : Look) : (payloadOf l).toFields = Fields.ofTable (tableOf l) := by
  have hstock : (if l.inStock then some true else none : Option Bool).map Value.bool =
      if l.inStock then some (.bool true) else none := by
    cases l.inStock <;> rfl
  unfold Payload.toFields Fields.ofTable tableOf payloadOf presentField
  simp only [given_map, rangeOf_map, hstock, List.flatMap_cons, List.flatMap_nil, List.append_assoc]
  rfl

/-- **A payload asks for what it was made from.** -/
theorem shows_payloadOf (l : Look) : Shows Is (payloadOf l).toFields l := by
  have hnames : ((tableOf l).map (·.1)).Nodup := by
    show (_ : List String).Nodup
    simp only [tableOf, List.map_cons, List.map_nil]
    decide
  have hget := fun name : String => Fields.get?_ofTable hnames name
  rw [toFields_payloadOf]
  constructor
  · exact Fields.nodup_ofTable hnames
  · intro key hkey
    refine Classical.byContradiction fun hne => hkey ?_
    obtain ⟨name, hname, rfl⟩ := Fields.mem_keys_ofTable ((Fields.mem_keys_iff _ key).mpr hne)
    have hlook : ∀ name ∈ (tableOf l).map (·.1), name ∈ lookFields := by
      simp only [tableOf, List.map_cons, List.map_nil]
      decide
    exact List.mem_map_of_mem (hlook name hname)
  · intro name hname
    rw [hget]
    simp only [listFields, List.mem_cons, List.not_mem_nil, or_false] at hname
    rcases hname with rfl | rfl | rfl | rfl | rfl | rfl | rfl | rfl | rfl | rfl | rfl <;> rfl
  · exact hget "in_stock"
  · exact ⟨_, _, rel_float l.least, rel_float l.most, hget "price"⟩

end Outfitter.Schema
