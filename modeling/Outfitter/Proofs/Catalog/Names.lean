import Mathlib.Data.List.Forall2
import Outfitter.Proofs.Catalog.Listing
import Outfitter.Proofs.Json.Reading

/-!
What category names stand for.

The table of a catalog holds the slugs and the display names of all categories side by side, each of them for the
first category that has it. A name is looked up in it by its key, and what is found is the first of the categories that
go by the name, whichever of their two names it is (`lookup_ofCategories`); so resolving some names looks each of them up among the categories, and keeps what is
found first (`resolve_ofCategories`). Folding the names of filters into the identifiers given adds what they stand
for behind those, and touches nothing else (`exists_folds`).
-/

namespace Outfitter

namespace Value

/-- A value that says something has a text. -/
theorem text_ne_empty {v : Value} (h : v.isGiven = true) : v.text ≠ "" := by
  have hliteral : v.literal ≠ [] → String.ofList v.literal ≠ "" := fun hne he =>
    hne (String.ofList_injective he)
  cases v with
  | null => cases h
  | str s =>
    rintro (rfl : s = "")
    cases h
  | bool b => cases b <;> exact hliteral (List.cons_ne_nil _ _)
  | int n =>
    refine hliteral ?_
    show (toString n).toList ≠ []
    rw [Json.toList_toString]
    exact List.append_ne_nil_of_right_ne_nil _ Nat.toDigits_ne_nil
  | float x =>
    refine hliteral ?_
    show x.text.toList ≠ []
    cases x with
    | finite x =>
      obtain ⟨c, rest, hx, -⟩ := (Json.startsNumber_textIn .wide x).starts
      show (String.ofList (x.textIn .wide)).toList ≠ []
      rw [String.toList_ofList, hx]
      exact List.cons_ne_nil c rest
    | infinite negative => cases negative <;> exact List.cons_ne_nil _ _
    | nan => exact List.cons_ne_nil _ _
  | list | object => exact hliteral (List.cons_ne_nil _ _)

end Value

namespace Catalog

open Filters Journal

variable {categories : List Category}

/-! ### the first category of a name -/

theorem nameKey_eq_empty {name : String} : nameKey name = "" ↔ Text.trim name.toList = [] := by
  unfold nameKey Text.trimLower
  rw [← Text.lower_eq_nil]
  exact ⟨fun h => String.ofList_injective h, fun h => congrArg String.ofList h⟩

/-- The category goes by the name: its slug or its display name is the same without the blanks around it and in
lower case. Nothing goes by a blank name. -/
def Category.goesBy (c : Category) (name : String) : Bool :=
  !(Text.trim name.toList).isEmpty && (nameKey c.slug == nameKey name || nameKey c.name == nameKey name)

/-- The first category that goes by a name; what is no text is nobody's name. -/
def firstNamed (categories : List Category) : Value → Option Category
  | .str name => categories.find? (·.goesBy name)
  | _ => none

/-- The identifiers of the categories with some names, each where it comes first. -/
def idsNamed (categories : List Category) (names : List Value) : List String :=
  ((names.filterMap (firstNamed categories)).map Category.id).eraseDups

/-- The row of a key, unless the key is blank. -/
theorem lookup_row (key id : String) {name : String} (h : name ≠ "") :
    List.lookup name (if key.isEmpty then none else some (key, id)).toList = if key = name then some id else none := by
  by_cases hkey : key = name
  · subst hkey
    rw [if_neg (by simpa using h), if_pos rfl]
    exact (Keyed.lookup_cons ..).trans (if_pos rfl)
  · rw [if_neg hkey]
    split
    · rfl
    · exact (Keyed.lookup_cons ..).trans (if_neg (Ne.symm hkey))

/-- Of one category the slug is looked at before the display name, and both lead to it. -/
theorem lookup_rowsOf (c : Category) {key : String} (h : key ≠ "") :
    List.lookup key (Table.rowsOf c) = if nameKey c.slug = key ∨ nameKey c.name = key then some c.id else none := by
  have hrows : Table.rowsOf c = (if (nameKey c.slug).isEmpty then none else some (nameKey c.slug, c.id)).toList ++
      (if (nameKey c.name).isEmpty then none else some (nameKey c.name, c.id)).toList := by
    unfold Table.rowsOf
    simp only [List.map_cons, List.map_nil, List.filterMap_cons, List.filterMap_nil]
    split <;> split <;> simp_all
  rw [hrows, List.lookup_append, lookup_row _ _ h, lookup_row _ _ h]
  by_cases hslug : nameKey c.slug = key
  · rw [if_pos hslug, if_pos (Or.inl hslug), Option.some_or]
  · rw [if_neg hslug, Option.none_or]
    simp only [hslug, false_or]

/-- The table holds what is first in the rows of the categories. -/
theorem lookup_rows (categories : List Category) (key : String) :
    List.lookup key (Table.ofCategories categories) = List.lookup key (categories.flatMap Table.rowsOf) :=
  (Keyed.lookup_foldl_putNew ..).trans Option.none_or

/-- **What is found under a key is the first category with the key**, however the keys of the categories collide. -/
theorem lookup_ofCategories (categories : List Category) {name : String} (h : Text.trim name.toList ≠ []) :
    List.lookup (nameKey name) (Table.ofCategories categories) =
      (categories.find? (·.goesBy name)).map Category.id := by
  have hkey : nameKey name ≠ "" := fun he => h (nameKey_eq_empty.mp he)
  rw [lookup_rows]
  induction categories with
  | nil => rfl
  | cons c rest ih =>
    have hgoes : c.goesBy name = true ↔ nameKey c.slug = nameKey name ∨ nameKey c.name = nameKey name := by
      simp [Category.goesBy, h]
    rw [List.flatMap_cons, List.lookup_append, lookup_rowsOf c hkey, ih, List.find?_cons]
    cases hc : c.goesBy name with
    | true =>
      rw [if_pos (hgoes.mp hc)]
      rfl
    | false => rw [if_neg fun he => Bool.false_ne_true (hc.symm.trans (hgoes.mpr he)), Option.none_or]

/-- Under the empty key there is nothing. -/
theorem lookup_empty (categories : List Category) : List.lookup "" (Table.ofCategories categories) = none := by
  rw [lookup_rows]
  refine List.lookup_eq_none_iff.mpr fun row hrow => ?_
  obtain ⟨c, -, hrow⟩ := List.mem_flatMap.mp hrow
  obtain ⟨key, -, hkey⟩ := List.mem_filterMap.mp hrow
  split at hkey
  · cases hkey
  · rename_i hne
    obtain rfl := Option.some.inj hkey
    simpa using Ne.symm (by simpa using hne)

/-- A name stands for the identifier of the first category that goes by it. -/
theorem idOf?_ofCategories (hids : ∀ c ∈ categories, c.id ≠ "") (name : String) :
    (Table.ofCategories categories).idOf? name = (categories.find? (·.goesBy name)).map Category.id := by
  unfold Table.idOf?
  by_cases hblank : Text.trim name.toList = []
  · have hnone : categories.find? (·.goesBy name) = none := by
      refine List.find?_eq_none.mpr fun c _ => ?_
      simp [Category.goesBy, hblank]
    rw [nameKey_eq_empty.mpr hblank, lookup_empty, hnone]
    rfl
  · rw [lookup_ofCategories categories hblank]
    cases hfind : categories.find? (·.goesBy name) with
    | none => rfl
    | some c =>
      have hid := hids c (List.mem_of_find?_eq_some hfind)
      exact if_neg (by simpa using hid)

/-- **Names are resolved as if each were looked for among the categories.** -/
theorem resolve_ofCategories (hids : ∀ c ∈ categories, c.id ≠ "") (names : List Value) :
    (Table.ofCategories categories).resolve names = idsNamed categories names := by
  have hone : ∀ v : Value, (v.string?.bind (Table.ofCategories categories).idOf?) =
      (firstNamed categories v).map Category.id := by
    intro v
    cases v with
    | str name => exact idOf?_ofCategories hids name
    | _ => rfl
  have hmap : names.filterMap (fun v => v.string?.bind (Table.ofCategories categories).idOf?) =
      (names.filterMap (firstNamed categories)).map Category.id := by
    rw [List.map_filterMap]
    exact congrArg (List.filterMap · names) (funext hone)
  unfold idsNamed
  rw [← firsts_nil_eq, ← hmap]
  rfl

/-! ### categories of a file -/

/-- What identifies the category of a row, if anything does. -/
def identifier? (row : Fields) : Option Value :=
  [Fields.value row "id", Fields.value row "_id"].find? Value.isGiven

theorem ofRow_eq (row : Fields) : Category.ofRow row =
    (identifier? row).map fun id => ⟨id.text, fieldText row "slug", fieldText row "name"⟩ := by
  unfold Category.ofRow identifier? Value.orElse
  cases hid : (Fields.value row "id").isGiven <;> cases hother : (Fields.value row "_id").isGiven <;>
    simp [hid, hother]

theorem forall₂_of_mapM {ε α β : Type} {f : α → Except ε β} {xs : List α} {ys : List β} (h : xs.mapM f = .ok ys) :
    List.Forall₂ (fun x y => f x = .ok y) xs ys := by
  induction xs generalizing ys with
  | nil =>
    obtain rfl := Except.ok.inj h
    exact .nil
  | cons x xs ih =>
    rw [List.mapM_cons] at h
    obtain ⟨y, hy, h⟩ := Plan.exists_of_bind h
    obtain ⟨ys, hys, h⟩ := Plan.exists_of_bind h
    obtain rfl := Except.ok.inj h
    exact .cons hy (ih hys)

/-- Rows have to be objects. -/
theorem ofRows_eq_ok {values : List Value} {loaded : List Category} : Category.ofRows values = .ok loaded ↔
    ∃ rows : List Fields, values = rows.map .object ∧ loaded = rows.filterMap Category.ofRow := by
  constructor
  · intro h
    unfold Category.ofRows at h
    obtain ⟨rows, hrows, h⟩ := Plan.exists_of_bind h
    refine ⟨rows, ?_, (Except.ok.inj h).symm⟩
    have hsame : List.Forall₂ (fun v (row : Fields) => v = .object row) values rows := by
      refine (forall₂_of_mapM hrows).imp fun v row hrow => ?_
      cases v with
      | object fields => rw [Except.ok.inj hrow]
      | _ => cases hrow
    have hmap := List.forall₂_map_right_iff.mpr hsame
    rwa [List.forall₂_eq_eq_eq] at hmap
  · rintro ⟨rows, rfl, rfl⟩
    unfold Category.ofRows
    rw [List.mapM_map]
    show (rows.mapM (fun row => pure row) >>= fun rows => pure (rows.filterMap Category.ofRow) : Except Fault _) = _
    rw [List.mapM_pure, List.map_id', pure_bind]
    rfl

/-- The rows of a file. -/
def FileRows (text : String) (rows : List Fields) : Prop :=
  ∃ v, Json.read (String.ofList (unixLines text.toList)) = .ok v ∧ v.elements? = some (rows.map .object)

/-- The categories of the rows that identify one. -/
def identified (rows : List Fields) : List Category :=
  rows.filterMap fun row => (identifier? row).map fun id => ⟨id.text, fieldText row "slug", fieldText row "name"⟩

theorem identified_eq (rows : List Fields) : rows.filterMap Category.ofRow = identified rows :=
  congrArg (List.filterMap · rows) (funext ofRow_eq)

/-- No category of a file is without an identifier. -/
theorem id_ne_empty {rows : List Fields} {c : Category} (h : c ∈ identified rows) : c.id ≠ "" := by
  obtain ⟨row, -, hrow⟩ := List.mem_filterMap.mp h
  obtain ⟨id, hid, rfl⟩ := Option.map_eq_some_iff.mp hrow
  have hgiven : id.isGiven = true := List.find?_some hid
  exact Value.text_ne_empty hgiven

/-- **What is loaded from a file** is what its rows identify. -/
theorem ofText_eq_ok {text : String} {loaded : List Category} : Category.ofText text = .ok loaded ↔
    ∃ rows, FileRows text rows ∧ loaded = identified rows := by
  constructor
  · intro h
    unfold Category.ofText at h
    obtain ⟨v, hv, h⟩ := Plan.exists_of_bind h
    unfold Category.ofValue at h
    obtain ⟨values, hvalues, h⟩ := Plan.exists_of_bind h
    obtain ⟨rows, rfl, rfl⟩ := ofRows_eq_ok.mp h
    have hread : Json.read (String.ofList (unixLines text.toList)) = .ok v := by
      cases hjson : Json.read (String.ofList (unixLines text.toList)) with
      | ok w =>
        rw [hjson] at hv
        rw [Except.ok.inj hv]
      | error =>
        rw [hjson] at hv
        cases hv
    have helements : v.elements? = some (rows.map .object) := by
      unfold Value.demandElements at hvalues
      cases hv : v.elements? with
      | some elements =>
        rw [hv] at hvalues
        rw [Except.ok.inj hvalues]
      | none =>
        rw [hv] at hvalues
        cases hvalues
    exact ⟨rows, ⟨v, hread, helements⟩, identified_eq rows⟩
  · rintro ⟨rows, ⟨v, hread, helements⟩, rfl⟩
    have hdemand : v.demandElements = .ok (rows.map .object) := by
      unfold Value.demandElements
      rw [helements]
    unfold Category.ofText
    dsimp only
    rw [hread]
    show (v.demandElements >>= Category.ofRows) = _
    rw [hdemand]
    exact ofRows_eq_ok.mpr ⟨rows, rfl, (identified_eq rows).symm⟩

/-! ### folding names -/

/-- Identifiers of which none comes twice join those that are given: the new ones among them come behind. -/
theorem joinIds_eq (given : List Value) {ids : List String} (h : ids.Nodup) :
    joinIds given ids = given ++ (ids.filter fun id => !(Value.str id).isIn given).map .str := by
  induction ids generalizing given with
  | nil => exact (List.append_nil given).symm
  | cons id ids ih =>
    obtain ⟨hid, hids⟩ := List.nodup_cons.mp h
    have hjoin : joinIds given (id :: ids) =
        joinIds (if (Value.str id).isIn given then given else given ++ [.str id]) ids := rfl
    rw [hjoin, ih _ hids]
    cases hgiven : (Value.str id).isIn given with
    | true =>
      rw [if_pos rfl, List.filter_cons_of_neg]
      simp [hgiven]
    | false =>
      -- no other identifier is the one that has joined
      have hrest : ids.filter (fun other => !(Value.str other).isIn (given ++ [.str id])) =
          ids.filter fun other => !(Value.str other).isIn given := by
        refine List.filter_congr fun other hother => ?_
        have hne : other ≠ id := fun he => hid (he ▸ hother)
        have hapart : (Value.str other).same (.str id) = false := beq_eq_false_iff_ne.mpr hne
        simp [Value.isIn, hapart]
      rw [if_neg Bool.false_ne_true, hrest, List.filter_cons_of_pos]
      · simp
      · simp [hgiven]

/-- The filters with these identifiers behind those that are given, and without any names. -/
structure Folds (filters folded : Fields) (given : List Value) (ids : List String) : Prop where
  names : Fields.get? folded "include_categories" = none
  /-- The identifiers that are given come first, and behind them those that are not among them. -/
  ids : (Fields.value folded "category_ids").demandOptionalElements =
    .ok (given ++ (ids.filter fun id => !(Value.str id).isIn given).map .str)
  others : ∀ key, key ≠ .text "include_categories" → key ≠ .text "category_ids" →
    Fields.get? folded key = Fields.get? filters key

/-- **Nothing is lost when names are folded.** -/
theorem exists_folds {table : Table} {filters : Fields} {names given : List Value}
    (hnames : (Fields.value filters "include_categories").isGiven = true)
    (helements : (Fields.value filters "include_categories").demandElements = .ok names)
    (hgiven : (Fields.value filters "category_ids").demandOptionalElements = .ok given) :
    ∃ folded, foldCategories table filters = .ok folded ∧ Folds filters folded given (table.resolve names) := by
  have hnodup : (table.resolve names).Nodup := nodup_firsts List.nodup_nil
  have hapart : Key.text "category_ids" ≠ .text "include_categories" := by decide
  have hfold := @foldCategories_of_given table _ _ _ hnames helements hgiven
  have hjoin := joinIds_eq given hnodup
  cases hjoined : joinIds given (table.resolve names) with
  | nil =>
    -- nothing is given and nothing is found, so the field of the identifiers stays as it was
    rw [hjoined] at hfold
    refine ⟨_, hfold, (Fields.get?_without ..).trans (if_pos rfl), ?_, fun key hkey _ => ?_⟩
    · have hnone : given = [] := (List.append_eq_nil_iff.mp (hjoin.symm.trans hjoined)).1
      rw [← hjoin, hjoined, ← hnone, ← hgiven]
      unfold Fields.value
      rw [Fields.get?_without, if_neg hapart]
    · rw [Fields.get?_without, if_neg hkey]
  | cons id joined =>
    rw [hjoined] at hfold
    refine ⟨_, hfold, ?_, ?_, fun key hkey hother => ?_⟩
    · rw [Fields.get?_put, if_neg hapart.symm, Fields.get?_without, if_pos rfl]
    · rw [Fields.value_of_get? ((Fields.get?_put ..).trans (if_pos rfl)), ← hjoin, hjoined]
      rfl
    · rw [Fields.get?_put, if_neg hother, Fields.get?_without, if_neg hkey]

/-- **A name stands for the first category that goes by it, and folding names loses nothing.** So it is for all
categories with identifiers, and those of a file are such. Names of other shapes than texts stand for nothing, and
only who debugs has to be able to write them. -/
theorem resolves_first_named (categories : List Category) (hids : ∀ c ∈ categories, c.id ≠ "") :
    (∀ names, (Table.ofCategories categories).resolve names = idsNamed categories names) ∧
    (∀ (names : Value) elements (c : Context), names.demandOptionalElements = .ok elements →
      (c.debugging = true → Value.areWritable elements = true) →
      ((resolved (Table.ofCategories categories) names).runFrom c).1 = .ok (idsNamed categories elements)) ∧
    (∀ (filters : Fields) names given (c : Context),
      (Fields.value filters "include_categories").isGiven = true →
      (Fields.value filters "include_categories").demandElements = .ok names →
      (Fields.value filters "category_ids").demandOptionalElements = .ok given →
      (c.debugging = true → Value.areWritable names = true) →
      ∃ result, ((folded (Table.ofCategories categories) (.object filters)).runFrom c).1 = .ok result ∧
        Folds filters result given (idsNamed categories names)) ∧
    (∀ text loaded, Category.ofText text = .ok loaded ↔ ∃ rows, FileRows text rows ∧ loaded = identified rows) ∧
    ∀ rows, ∀ c ∈ identified rows, c.id ≠ "" := by
  refine ⟨resolve_ofCategories hids, fun names elements c helements hwritable => ?_,
    fun filters names given c hnames helements hgiven hwritable => ?_, fun _ _ => ofText_eq_ok,
    fun _ _ => id_ne_empty⟩
  · rw [(steady_resolved ..).outcome c, outcomeWhen_resolved _ helements hwritable, resolve_ofCategories hids]
  · obtain ⟨result, hfold, hfolds⟩ :=
      @exists_folds (Table.ofCategories categories) filters names given hnames helements hgiven
    rw [resolve_ofCategories hids] at hfolds
    refine ⟨result, ?_, hfolds⟩
    have hstage : folded (Table.ofCategories categories) (.object filters) =
        Traced.inStage "CATALOG" "resolve_categories" (folding (Table.ofCategories categories) filters) := rfl
    have hoptional : (Fields.value filters "include_categories").demandOptionalElements = .ok names := by
      unfold Value.demandOptionalElements
      rw [if_pos hnames, helements]
    rw [hstage, ((steady_folding ..).inStage ..).outcome c, Traced.outcomeWhen_inStage (steady_folding ..)]
    exact outcomeWhen_folding_of_elements hoptional hwritable hfold

/-- The display name of the first category is the slug of the second, and the other way round. -/
theorem resolves_first_named_of_crossed :
    (∀ c ∈ [Category.mk "a" "bags" "Shoes", ⟨"b", "shoes", "Bags"⟩], c.id ≠ "") ∧
      (Table.ofCategories [⟨"a", "bags", "Shoes"⟩, ⟨"b", "shoes", "Bags"⟩]).resolve
        [.str " BAGS", .null, .str "shoes", .str "  "] = ["a"] := by
  have hids : ∀ c ∈ [Category.mk "a" "bags" "Shoes", ⟨"b", "shoes", "Bags"⟩], c.id ≠ "" := by decide
  obtain ⟨hresolve, -⟩ := resolves_first_named _ hids
  exact ⟨hids, (hresolve _).trans (by decide +kernel)⟩

end Catalog

end Outfitter
