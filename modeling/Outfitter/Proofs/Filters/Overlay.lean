import Outfitter.Filters.Merge
import Outfitter.Proofs.Filters.Lists

/-!
What is found in merged filters, field by field.
-/

namespace Outfitter.Filters

/-- Fields that are set one after the other, each to what a table tells. -/
def putAll (set : String → Option Value) (names : List String) (fields : Fields) : Fields :=
  names.foldl (fun fs key => match set key with
    | some v => Fields.put fs key v
    | none => fs) fields

theorem get?_putAll (set : String → Option Value) {names : List String} (fields : Fields) (key : Key) :
    Fields.get? (putAll set names fields) key =
      match key with
      | .text name =>
        if name ∈ names then (set name).or (Fields.get? fields key) else Fields.get? fields key
      | _ => Fields.get? fields key := by
  induction names generalizing fields with
  | nil => cases key <;> rfl
  | cons k rest ih =>
    have hstep : putAll set (k :: rest) fields = putAll set rest (match set k with
        | some v => Fields.put fields k v
        | none => fields) := rfl
    rw [hstep, ih]
    cases key with
    | text name =>
      by_cases hname : name = k
      · subst hname
        cases hset : set name with
        | none => simp [hset]
        | some v => simp [hset, Fields.get?_put]
      · have hkey : Key.text name ≠ .text k := fun he => hname (Key.text.inj he)
        cases hset : set k <;> simp [hname, Fields.get?_put]
    | _ => cases hset : set k <;> simp [Fields.get?_put]

theorem nodup_putAll (set : String → Option Value) (names : List String) {fields : Fields}
    (h : fields.keys.Nodup) : (putAll set names fields).keys.Nodup := by
  induction names generalizing fields with
  | nil => exact h
  | cons k rest ih =>
    have hnext : (Fields.keys (match set k with
        | some v => Fields.put fields k v
        | none => fields)).Nodup := by
      split
      · exact Fields.nodup_put h ..
      · exact h
    exact ih hnext

/-! ### overlays -/

/-- The lists that a later turn sets. -/
def laterList (base delta : Fields) (key : String) : Option Value :=
  if Fields.has delta key then some (union (Fields.value base key) (Fields.value delta key)) else none

/-- The price that a later turn sets. -/
def laterPrice (base delta : Fields) (_ : String) : Option Value :=
  if Fields.has delta "price" then
    some (.object (mergePrice (Fields.value base "price") (Fields.value delta "price")))
  else none

/-- The single values that a later turn sets. -/
def laterScalar (delta : Fields) (key : String) : Option Value :=
  match Fields.value delta key with
  | .null => none
  | v => some v

theorem overlay_eq (base delta : Fields) : overlay base delta =
    putAll (laterScalar delta) scalarFields
      (putAll (laterPrice base delta) ["price"] (putAll (laterList base delta) listFields base)) := by
  have hlist : ∀ (fs : Fields) (key : String), (if Fields.has delta key then
        Fields.put fs key (union (Fields.value base key) (Fields.value delta key)) else fs) =
      match laterList base delta key with
        | some v => Fields.put fs key v
        | none => fs := by
    intro fs key
    unfold laterList
    split <;> rfl
  have hscalar : ∀ (fs : Fields) (key : String), (match Fields.value delta key with
        | .null => fs
        | v => Fields.put fs key v) =
      match laterScalar delta key with
        | some v => Fields.put fs key v
        | none => fs := by
    intro fs key
    unfold laterScalar
    cases Fields.value delta key <;> rfl
  have hprice : ∀ fs : Fields, (if Fields.has delta "price" then
        Fields.put fs "price"
          (.object (mergePrice (Fields.value base "price") (Fields.value delta "price")))
        else fs) = putAll (laterPrice base delta) ["price"] fs := by
    intro fs
    unfold putAll laterPrice
    rw [List.foldl_cons, List.foldl_nil]
    split <;> rfl
  have hfold : ∀ {f g : Fields → String → Fields}, (∀ fs key, f fs key = g fs key) →
      ∀ (fields : Fields) (names : List String), names.foldl f fields = names.foldl g fields := by
    intro f g h fields names
    rw [funext fun fs => funext (h fs)]
  unfold overlay
  refine (hfold hscalar ..).trans (congrArg (putAll (laterScalar delta) scalarFields) ?_)
  refine (hprice _).trans (congrArg (putAll (laterPrice base delta) ["price"]) ?_)
  exact hfold hlist ..

variable {base delta : Fields}

theorem nodup_overlay (h : base.keys.Nodup) : (overlay base delta).keys.Nodup := by
  rw [overlay_eq]
  exact nodup_putAll _ _ (nodup_putAll _ _ (nodup_putAll _ _ h))

theorem get?_overlay_list {name : String} (h : name ∈ listFields) :
    Fields.get? (overlay base delta) name = (laterList base delta name).or (Fields.get? base name) := by
  have hlists : ∀ name ∈ listFields, name ∉ scalarFields ∧ name ∉ ["price"] := by decide
  obtain ⟨hscalar, hprice⟩ := hlists name h
  rw [overlay_eq, get?_putAll]
  simp only [if_neg hscalar]
  rw [get?_putAll]
  simp only [if_neg hprice]
  rw [get?_putAll]
  simp only [if_pos h]

theorem get?_overlay_price : Fields.get? (overlay base delta) "price" =
    (laterPrice base delta "price").or (Fields.get? base "price") := by
  have hscalar : "price" ∉ scalarFields := by decide
  have hprice : "price" ∈ ["price"] := by decide
  have hlist : "price" ∉ listFields := by decide
  rw [overlay_eq, get?_putAll]
  simp only [if_neg hscalar]
  rw [get?_putAll]
  simp only [if_pos hprice]
  rw [get?_putAll]
  simp only [if_neg hlist]

theorem get?_overlay_scalar {name : String} (h : name ∈ scalarFields) :
    Fields.get? (overlay base delta) name = (laterScalar delta name).or (Fields.get? base name) := by
  have hscalars : ∀ name ∈ scalarFields, name ∉ listFields ∧ name ∉ ["price"] := by decide
  obtain ⟨hlist, hprice⟩ := hscalars name h
  rw [overlay_eq, get?_putAll]
  simp only [if_pos h]
  rw [get?_putAll]
  simp only [if_neg hprice]
  rw [get?_putAll]
  simp only [if_neg hlist]

/-- Fields that neither side has are not there. -/
theorem get?_overlay_none {key : Key} (hb : Fields.get? base key = none) (hd : Fields.get? delta key = none) :
    Fields.get? (overlay base delta) key = none := by
  cases key with
  | text name =>
    have hhas : Fields.has delta name = false := by
      unfold Fields.has
      rw [hd]
      rfl
    have hl : laterList base delta name = none := by
      unfold laterList
      rw [hhas]
      rfl
    have hs : laterScalar delta name = none := by
      unfold laterScalar Fields.value
      rw [hd]
      rfl
    rw [overlay_eq, get?_putAll]
    simp only [hs, get?_putAll, hl, hb]
    by_cases hp : name = "price"
    · subst hp
      simp [laterPrice, hhas]
    · simp [hp]
  | _ =>
    rw [overlay_eq, get?_putAll]
    simp only [get?_putAll]
    exact hb

/-! ### merging -/

/-- A field of merged filters is the one before pruning, pruned. -/
theorem get?_merge (h : base.keys.Nodup) (key : Key) : Fields.get? (merge base delta) key =
    (Fields.get? (overlay base delta) key).bind Value.pruned? :=
  Value.get?_pruneFields (nodup_overlay h) key

theorem nodup_merge (h : base.keys.Nodup) : (Fields.keys (merge base delta)).Nodup :=
  Value.nodup_pruneFields (nodup_overlay h)

end Outfitter.Filters
