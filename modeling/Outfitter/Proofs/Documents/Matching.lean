import Outfitter.Proofs.Documents.Product
import Outfitter.Proofs.Plan.AsksFor

/-!
The conditions of a plan on the documents of products.

Each stage that matches is read as conditions. The document of a size or of a variant meets them exactly if the size
or the variant is as the filters ask (`Size.meets_iff`, `Variant.meets_iff`).
-/

namespace Outfitter.Documents

open Filters Plan

variable {α : Type} {fields doc filters : Fields} {name : String}

/-! ### single tests -/

theorem texts?_map (xs : List String) : texts? (xs.map .str) = some xs := by
  unfold texts?
  induction xs with
  | nil => rfl
  | cons x xs ih =>
    rw [List.map_cons, List.mapM_cons, ih]
    rfl

/-- What stands in a field that holds no list. -/
theorem reach_single {v : Value} (h : Fields.get? fields name = some v) (hv : isSingle v = true) :
    reach [name] (.object fields) = [v] := by
  unfold reach
  rw [h]
  cases v with
  | list => cases hv
  | _ => rfl

theorem eachHolds_single (t : Test) (values : List Value) : eachHolds [t] values = values.any t.holds :=
  Bool.and_true _

/-- A field in which a single value stands is one of some texts. -/
theorem holds_isIn {texts : List String} {v : Option Value} (hget : Fields.get? fields name = v)
    (hsingle : ∀ w ∈ v, isSingle w = true) :
    eachHolds [.isIn texts] (reach [name] (.object fields)) = true ↔ ∃ s ∈ texts, v = some (.str s) := by
  rw [eachHolds_single]
  cases v with
  | none =>
    unfold reach
    rw [hget]
    simp
  | some w =>
    rw [reach_single hget (hsingle w rfl)]
    cases w <;> simp [Test.holds, ofSome, isText, isSingle] at hsingle ⊢

theorem compares_positive (n : Int) :
    compares (fun a b => decide (b < a)) (.int n) (.int 0) = true ↔ 0 < n := by
  have hone : (0 : Int) < Double.unitsPerOne := Int.natCast_pos.mpr Double.unitsPerOne_pos
  show decide (Rank.ofUnits (0 * Double.unitsPerOne) < Rank.ofUnits (n * Double.unitsPerOne)) = true ↔ _
  rw [decide_eq_true_iff, Rank.ofUnits_lt_iff, Int.zero_mul]
  exact ⟨fun h => Int.pos_of_mul_pos_left h hone, fun h => Int.mul_pos h hone⟩

theorem holds_positive {n : Int} (hget : Fields.get? fields name = some (.int n)) :
    eachHolds [.above (.int 0)] (reach [name] (.object fields)) = true ↔ 0 < n := by
  rw [eachHolds_single, reach_single hget rfl, ← compares_positive n]
  exact Bool.eq_iff_iff.mp (Bool.or_false _)

/-! ### lists -/

theorem any_iff_exists {written : α → Value → Prop} {test : Value → Bool} {P : α → Prop} {xs : List α}
    {items : List Value} (h : List.Forall₂ written xs items) (hP : ∀ x v, written x v → (test v = true ↔ P x)) :
    items.any test = true ↔ ∃ x ∈ xs, P x := by
  induction h with
  | nil => simp
  | cons hx _ ih => simp [hP _ _ hx, ih]

/-- One item of a list meets some conditions. -/
theorem ListIn.someElement {written : α → Value → Prop} {xs : List α} (h : ListIn fields name written xs)
    {conditions : List Condition} {P : α → Prop}
    (hP : ∀ x v, written x v → (meets conditions v = true ↔ P x)) :
    eachHolds [.someElement conditions] (reach [name] (.object fields)) = true ↔ ∃ x ∈ xs, P x := by
  rw [eachHolds_single]
  unfold reach
  rcases h with ⟨items, hget, hitems⟩ | ⟨rfl, hget | hget⟩
  · rw [hget, ← any_iff_exists hitems hP]
    exact Bool.eq_iff_iff.mp (Bool.or_false _)
  · rw [hget]
    simp
  · rw [hget]
    simp [reach, Test.holds]

/-- What stands under a path that leads on from the items of a list. -/
theorem ListIn.reach {written : α → Value → Prop} {xs : List α} (h : ListIn fields name written xs)
    (path : Path) (hpath : path ≠ []) {test : Value → Bool} {P : α → Prop}
    (hP : ∀ x v, written x v → ((reach path v).any test = true ↔ P x)) :
    (reach (name :: path) (.object fields)).any test = true ↔ ∃ x ∈ xs, P x := by
  have hempty : path.isEmpty = false := List.isEmpty_eq_false_iff.mpr hpath
  unfold Documents.reach
  rcases h with ⟨items, hget, hitems⟩ | ⟨rfl, hget | hget⟩
  · rw [hget, ← any_iff_exists hitems hP]
    simp [hempty, List.any_flatMap]
  · rw [hget]
    simp
  · rw [hget]
    cases path with
    | nil => exact absurd rfl hpath
    | cons => simp [Documents.reach]

/-! ### conditions that are asked for -/

theorem listValue_eq_some {xs ys : List String} :
    listValue xs = some (.ofStrings ys) ↔ xs = ys ∧ ys ≠ [] := by
  constructor
  · intro h
    rcases listValue_cases xs with he | ⟨he, -⟩
    · have hsame := Option.some.inj (he.symm.trans h)
      obtain rfl := (List.map_inj_right fun _ _ => Value.str.inj).mp (Value.list.inj hsame)
      refine ⟨rfl, ?_⟩
      rintro rfl
      cases he
    · cases he.symm.trans h
  · rintro ⟨rfl, hne⟩
    exact (listValue_cases xs).resolve_right fun h => hne h.2

theorem admits_iff {xs : List String} (h : listValue xs = Fields.get? filters name) (text : String) :
    Admits filters name text ↔ xs = [] ∨ text ∈ xs := by
  unfold Admits
  rw [← h]
  by_cases hne : xs = []
  · exact iff_of_true (fun ys hys => absurd (listValue_eq_some.mp hys).1 fun he =>
      (listValue_eq_some.mp hys).2 (he ▸ hne)) (.inl hne)
  · rw [or_iff_right hne]
    exact ⟨fun hall => hall xs (listValue_eq_some.mpr ⟨rfl, hne⟩), fun hmem ys hys =>
      (listValue_eq_some.mp hys).1 ▸ hmem⟩

/-! ### conditions, read -/

theorem read_cons (name : String) {v : Value} {rest : Fields} {tests : List Test} {others : List Condition}
    (htests : readTests? v = some tests) (hothers : readConditions? rest = some others) :
    readConditions? ((.text name, v) :: rest) = some ((Path.ofText name.toList, tests) :: others) := by
  unfold readConditions?
  rw [htests, hothers]
  rfl

theorem read_append {first second : Fields} {a b : List Condition} (ha : readConditions? first = some a)
    (hb : readConditions? second = some b) : readConditions? (first ++ second) = some (a ++ b) := by
  induction first generalizing a with
  | nil =>
    obtain rfl := Option.some.inj ha
    exact hb
  | cons p rest ih =>
    obtain ⟨k, v⟩ := p
    cases k with
    | text name =>
      unfold readConditions? at ha
      obtain ⟨tests, htests, ha⟩ := Option.bind_eq_some_iff.mp ha
      obtain ⟨others, hothers, ha⟩ := Option.bind_eq_some_iff.mp ha
      obtain rfl := Option.some.inj ha
      exact read_cons _ htests (ih hothers)
    | _ => cases ha

theorem read_isOneOf (texts : List String) :
    readTests? (Stage.isOneOf (texts.map .str)) = some [.isIn texts] := by
  show (do let test ← (texts? (texts.map .str)).map Test.isIn; return [test] : Option (List Test)) = _
  rw [texts?_map]
  rfl

theorem read_someElement {conditions : Fields} {tests : List Condition}
    (h : readConditions? conditions = some tests) :
    readTests? (Stage.someElement conditions) = some [.someElement tests] := by
  show (do let test ← (readConditions? conditions).map Test.someElement; return [test] :
    Option (List Test)) = _
  rw [h]
  rfl

/-- The condition on a field for which texts are listed, read; there is none if there are no texts. -/
def listedTests (name : String) (texts : List String) : List Condition :=
  if texts.isEmpty then [] else [([name], [.isIn texts])]

theorem read_listed {name : String} (hname : Path.ofText name.toList = [name]) (texts : List String) :
    readConditions? (if texts.isEmpty then [] else [(.text name, Stage.isOneOf (texts.map .str))]) =
      some (listedTests name texts) := by
  unfold listedTests
  split
  · rfl
  · rw [read_cons _ (read_isOneOf texts) rfl, hname]

/-- The conditions on a size, read. -/
def sizeTests (sizes : List String) (inStock : Bool) : List Condition :=
  listedTests "sizeLabel" sizes ++ if inStock then [(["stockQty"], [.above (.int 0)])] else []

theorem read_sizes (sizes : List String) (inStock : Bool) :
    readConditions? (Stage.sizeConditions sizes inStock) = some (sizeTests sizes inStock) := by
  have hstock : readConditions? (if inStock then [("stockQty", Stage.isPositive)] else []) =
      some (if inStock then [(["stockQty"], [.above (.int 0)])] else []) := by
    cases inStock <;> rfl
  exact read_append (read_listed (by decide) sizes) hstock

/-- The conditions on a variant, read. -/
def variantTests (colors sizes : List String) (inStock : Bool) : List Condition :=
  listedTests "color" colors ++
    if (sizeTests sizes inStock).isEmpty then [] else [(["sizes"], [.someElement (sizeTests sizes inStock)])]

theorem isEmpty_sizes (sizes : List String) (inStock : Bool) :
    (Stage.sizeConditions sizes inStock).isEmpty = (sizeTests sizes inStock).isEmpty := by
  cases sizes <;> cases inStock <;> rfl

theorem read_variants (colors sizes : List String) (inStock : Bool) :
    readConditions? (Stage.variantConditions colors sizes inStock) =
      some (variantTests colors sizes inStock) := by
  refine read_append (read_listed (by decide) colors) ?_
  rw [isEmpty_sizes]
  split
  · rfl
  · exact read_cons "sizes" (read_someElement (read_sizes sizes inStock)) rfl

/-! ### variants and sizes -/

theorem meets_append (first second : List Condition) (v : Value) :
    meets (first ++ second) v = (meets first v && meets second v) := by
  induction first with
  | nil => rfl
  | cons c rest ih =>
    obtain ⟨path, tests⟩ := c
    rw [List.cons_append, meets, meets, ih, Bool.and_assoc]

theorem meets_single (path : Path) (tests : List Test) (v : Value) :
    meets [(path, tests)] v = eachHolds tests (reach path v) :=
  Bool.and_true _

theorem meets_listed {texts : List String} {s : String} (hget : Fields.get? fields name = some (.str s)) :
    meets (listedTests name texts) (.object fields) = true ↔ texts = [] ∨ s ∈ texts := by
  unfold listedTests
  cases texts with
  | nil => exact iff_of_true rfl (.inl rfl)
  | cons x xs =>
    rw [if_neg (by exact Bool.false_ne_true), meets_single,
      holds_isIn hget fun w hw => by rw [← Option.some.inj hw]; rfl]
    simp [eq_comm]

variable {sizes colors : List String} (hsizes : listValue sizes = Fields.get? filters "sizes")

include hsizes

theorem Size.meets_iff {s : Size} {v : Value} (h : AsObject Size.WrittenIn s v) :
    meets (sizeTests sizes (wantsStock filters)) v = true ↔ s.Meets filters := by
  obtain ⟨fields, rfl, hs⟩ := h
  have hlabel : meets (listedTests "sizeLabel" sizes) (.object fields) = true ↔ Admits filters "sizes" s.label :=
    (meets_listed hs.label).trans (admits_iff hsizes s.label).symm
  have hstock : meets (if wantsStock filters then [(["stockQty"], [.above (.int 0)])] else [])
      (.object fields) = true ↔ (WantsStock filters → 0 < s.stock) := by
    unfold WantsStock
    rw [← wantsStock_iff]
    split
    · rename_i hwants
      rw [meets_single, holds_positive hs.stock, imp_iff_right hwants]
    · rename_i hwants
      exact iff_of_true rfl fun h => absurd h hwants
  unfold sizeTests
  rw [meets_append, Bool.and_eq_true_iff, hlabel, hstock]
  exact ⟨fun ⟨h₁, h₂⟩ => ⟨h₁, h₂⟩, fun h => ⟨h.label, h.stock⟩⟩

theorem isEmpty_sizeTests : (sizeTests sizes (wantsStock filters)).isEmpty = false ↔
    Fields.has filters "sizes" = true ∨ WantsStock filters := by
  unfold WantsStock Fields.has
  rw [← wantsStock_iff, ← hsizes, listValue_isSome]
  cases sizes <;> cases wantsStock filters <;> simp [sizeTests, listedTests]

theorem Variant.meets_iff (hcolors : listValue colors = Fields.get? filters "colors") {w : Variant} {v : Value}
    (h : AsObject Variant.WrittenIn w v) :
    meets (variantTests colors sizes (wantsStock filters)) v = true ↔ w.Meets filters := by
  obtain ⟨fields, rfl, hw⟩ := h
  have hcolor : meets (listedTests "color" colors) (.object fields) = true ↔ Admits filters "colors" w.color :=
    (meets_listed hw.color).trans (admits_iff hcolors w.color).symm
  have hsize : meets (if (sizeTests sizes (wantsStock filters)).isEmpty then []
      else [(["sizes"], [.someElement (sizeTests sizes (wantsStock filters))])]) (.object fields) = true ↔
      (Fields.has filters "sizes" = true ∨ WantsStock filters → ∃ s ∈ w.sizes, s.Meets filters) := by
    rw [← isEmpty_sizeTests hsizes]
    split
    · rename_i hempty
      exact iff_of_true rfl fun h => absurd (hempty.symm.trans h) Bool.true_eq_false.mp
    · rename_i hempty
      rw [meets_single, hw.sizes.someElement fun s v => Size.meets_iff hsizes,
        imp_iff_right (Bool.eq_false_iff.mpr hempty)]
  unfold variantTests
  rw [meets_append, Bool.and_eq_true_iff, hcolor, hsize]
  exact ⟨fun ⟨h₁, h₂⟩ => ⟨h₁, h₂⟩, fun h => ⟨h.color, h.size⟩⟩

end Outfitter.Documents
