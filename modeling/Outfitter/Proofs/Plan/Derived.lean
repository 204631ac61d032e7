import Outfitter.Proofs.Plan.Order

/-!
Fields that a pipeline derives are there before they are used.

The least price and the score of a text are defined before anything is sorted by them or matched on them
(`keysDerived_append`), and the fields that help to find the least price are defined before they are read and
removed after that (`derivesFirst_append`). The one operation that is not bound to this is the projection that
the caller spells out: a pipeline as a whole derives first exactly if that projection is not computed from a
helper (`derivesFirst_compiled`).
-/

namespace Outfitter.Plan

open Filters Journal

/-! ### what an operation does to a field -/

/-- What stands under an operator. -/
def bodyOf (operator : String) (op : Value) : Fields :=
  ((op.get operator).fields?).getD []

mutual

/-- The expression refers to the field, or to a part of it. What is meant literally refers to nothing. -/
def refersTo (field : String) : Value → Bool
  | .str s => s.toList == '$' :: field.toList || ('$' :: field.toList ++ ['.']).isPrefixOf s.toList
  | .list items => someRefersTo field items
  | .object fields => someFieldRefersTo field fields
  | _ => false

def someRefersTo (field : String) : List Value → Bool
  | [] => false
  | v :: vs => refersTo field v || someRefersTo field vs

def someFieldRefersTo (field : String) : List (Key × Value) → Bool
  | [] => false
  | (k, v) :: rest => k != "$literal" && refersTo field v || someFieldRefersTo field rest

end

/-- The operation defines the field. -/
def Adds (field : String) (op : Value) : Prop :=
  Fields.has (bodyOf "$addFields" op) field = true

/-- The operation sorts by the field. -/
def SortsBy (field : String) (op : Value) : Prop :=
  Fields.has (bodyOf "$sort" op) field = true

/-- The operation has a condition on the field. -/
def MatchesOn (field : String) (op : Value) : Prop :=
  Fields.has (bodyOf "$match" op) field = true

/-- The operation computes with the field. -/
def Reads (field : String) (op : Value) : Prop :=
  someFieldRefersTo field (bodyOf "$addFields" op) = true ∨ someFieldRefersTo field (bodyOf "$project" op) = true

/-- The operation sorts by the field, or has a condition on it. -/
def IsKeyedBy (field : String) (op : Value) : Prop :=
  SortsBy field op ∨ MatchesOn field op

/-- The operation defines the field, or computes with it. -/
def Involves (field : String) (op : Value) : Prop :=
  Adds field op ∨ Reads field op

/-- The operation removes the field. -/
def Drops (field : String) (op : Value) : Prop :=
  (Fields.value (bodyOf "$project" op) field).same (.int 0) = true

instance (field : String) (op : Value) : Decidable (Adds field op) :=
  inferInstanceAs (Decidable (_ = true))

instance (field : String) (op : Value) : Decidable (Reads field op) :=
  inferInstanceAs (Decidable (_ = true ∨ _ = true))

instance (field : String) (op : Value) : Decidable (Involves field op) :=
  inferInstanceAs (Decidable (_ ∨ _))

instance (field : String) (op : Value) : Decidable (Drops field op) :=
  inferInstanceAs (Decidable (_ = true))

/-- The fields that help to find the least price. -/
def helperFields : List String :=
  ["_allSizes", "_candidatePrices"]

/-! ### one after the other -/

section

variable {α β : Type} {P Q : α → Prop} {xs ys front back : List α} {x : α}

/-- Whatever is of the second kind comes after something of the first kind. -/
def LedBy (P Q : α → Prop) (xs : List α) : Prop :=
  ∀ front x back, xs = front ++ x :: back → Q x → ∃ y ∈ front, P y

theorem cases_of_append (h : xs ++ ys = front ++ x :: back) :
    (∃ rest, xs = front ++ x :: rest ∧ back = rest ++ ys) ∨ ∃ rest, front = xs ++ rest ∧ ys = rest ++ x :: back := by
  rcases List.append_eq_append_iff.mp h with ⟨rest, hfront, hys⟩ | ⟨rest, hxs, hback⟩
  · exact .inr ⟨rest, hfront, hys⟩
  · cases rest with
    | nil => exact .inr ⟨[], by rw [hxs]; simp, by simpa using hback.symm⟩
    | cons y rest =>
      obtain ⟨rfl, rfl⟩ := List.cons.inj hback
      exact .inl ⟨rest, hxs, rfl⟩

theorem ledBy_of_none (h : ∀ x ∈ xs, ¬ Q x) : LedBy P Q xs := by
  rintro front x back rfl hx
  exact absurd hx (h x (List.mem_append_right _ (List.mem_cons_self ..)))

theorem LedBy.append (hxs : LedBy P Q xs) (hys : (∃ x ∈ xs, P x) ∨ LedBy P Q ys) : LedBy P Q (xs ++ ys) := by
  intro front x back h hx
  rcases cases_of_append h with ⟨rest, hsplit, -⟩ | ⟨rest, rfl, hsplit⟩
  · exact hxs front x rest hsplit hx
  · rcases hys with ⟨y, hy, hp⟩ | hys
    · exact ⟨y, List.mem_append_left _ hy, hp⟩
    · obtain ⟨y, hy, hp⟩ := hys rest x back hsplit hx
      exact ⟨y, List.mem_append_right _ hy, hp⟩

/-- Whatever is of the first kind is followed by something that ends it: nothing but `inner` comes between, and
nothing of the first kind comes after. -/
def EndedBy (P ends : α → Prop) (inner : List α) (xs : List α) : Prop :=
  ∀ front x back, xs = front ++ x :: back → P x → ∃ between y rest, back = between ++ y :: rest ∧ ends y ∧
    (∀ z ∈ between, z ∈ inner) ∧ ∀ z ∈ rest, ¬ P z

theorem endedBy_of_none {ends : α → Prop} {inner : List α} (h : ∀ x ∈ xs, ¬ P x) : EndedBy P ends inner xs := by
  rintro front x back rfl hx
  exact absurd hx (h x (List.mem_append_right _ (List.mem_cons_self ..)))

theorem endedBy_concat {ends : α → Prop} (hends : ends x) (hx : ¬ P x) :
    EndedBy P ends (xs ++ [x]) (xs ++ [x]) := by
  intro front y back h hy
  rcases cases_of_append h with ⟨rest, rfl, rfl⟩ | ⟨rest, -, hlast⟩
  · refine ⟨rest, x, [], rfl, hends, fun z hz => ?_, fun z hz => absurd hz List.not_mem_nil⟩
    simp [hz]
  · have hmem : y ∈ [x] := hlast ▸ List.mem_append_right rest (List.mem_cons_self ..)
    exact absurd (List.mem_singleton.mp hmem ▸ hy) hx

theorem EndedBy.append {ends : α → Prop} {inner : List α} (hxs : ∀ x ∈ xs, ¬ P x) (hys : EndedBy P ends inner ys)
    {zs : List α} (hzs : ∀ z ∈ zs, ¬ P z) : EndedBy P ends inner (xs ++ ys ++ zs) := by
  intro front x back h hx
  rcases cases_of_append h with ⟨rest, hsplit, rfl⟩ | ⟨rest, -, rfl⟩
  · rcases cases_of_append hsplit with ⟨_, rfl, -⟩ | ⟨mid, rfl, rfl⟩
    · exact absurd hx (hxs x (by simp))
    · obtain ⟨between, y, after, rfl, hy, hbetween, hafter⟩ := hys mid x rest rfl hx
      refine ⟨between, y, after ++ zs, by simp, hy, hbetween, fun z hz => ?_⟩
      exact (List.mem_append.mp hz).elim (hafter z) (hzs z)
  · exact absurd hx (hzs x (by simp))

end

/-! ### stages -/

section

variable {field : String} {stage : Stage} {op : Value}

/-- The stage sorts by the field, or has a condition on it. -/
def Stage.IsKeyedBy (field : String) : Stage → Prop
  | .categoricalMatch conditions => field ∈ conditions.map Prod.fst
  | .textSearch .. => field = "$text"
  | .variantMatch .. => field = "variants" ∨ field = "variants.sizes.stockQty"
  | .priceMatch _ _ priceField => field = priceField
  | .sort keys => field ∈ keys.map Prod.fst
  | .derivedMinPrice _ | .skip _ | .limit _ | .projection _ => False

/-- The stage defines the field, or computes with it. -/
def Stage.Involves (field : String) : Stage → Prop
  | .textSearch _ scoreField => field = scoreField
  | .derivedMinPrice _ => True
  | .projection fields => someFieldRefersTo field (Fields.ofNamed fields) = true
  | _ => False

theorem bodyOf_single (operator key : String) (fields : Fields) :
    bodyOf operator (Stage.single key (.object fields)) = if operator = key then fields else [] := by
  show (((Fields.get? [(.text key, .object fields)] operator).getD .null).fields?).getD [] = _
  rw [Fields.get?_cons]
  by_cases h : operator = key
  · rw [if_pos (congrArg Key.text h), if_pos h]
    rfl
  · rw [if_neg fun he => h (Key.text.inj he), if_neg h]
    rfl

theorem has_iff_mem_keys {fields : Fields} {key : Key} : Fields.has fields key = true ↔ key ∈ fields.keys :=
  Option.isSome_iff_ne_none.trans (Fields.mem_keys_iff fields key).symm

/-- An operation that sorts or matches does so by the keys that stand under it. -/
theorem mem_keys_of_keyed {key : String} {fields : Fields}
    (h : IsKeyedBy field (Stage.single key (.object fields))) :
    (key = "$sort" ∨ key = "$match") ∧ .text field ∈ fields.keys := by
  unfold IsKeyedBy SortsBy MatchesOn at h
  rw [bodyOf_single, bodyOf_single] at h
  rcases h with h | h
  · split at h
    · rename_i hkey
      exact ⟨.inl hkey.symm, has_iff_mem_keys.mp h⟩
    · cases h
  · split at h
    · rename_i hkey
      exact ⟨.inr hkey.symm, has_iff_mem_keys.mp h⟩
    · cases h

/-- An operation that defines a field or computes with one adds fields or projects. -/
theorem computes_of_involves {key : String} {fields : Fields}
    (h : Involves field (Stage.single key (.object fields))) :
    key = "$addFields" ∧ (.text field ∈ fields.keys ∨ someFieldRefersTo field fields = true) ∨
      key = "$project" ∧ someFieldRefersTo field fields = true := by
  unfold Involves Adds Reads at h
  rw [bodyOf_single, bodyOf_single] at h
  rcases h with h | h | h
  · split at h
    · rename_i hkey
      exact .inl ⟨hkey.symm, .inl (has_iff_mem_keys.mp h)⟩
    · cases h
  · split at h
    · rename_i hkey
      exact .inl ⟨hkey.symm, .inr h⟩
    · cases h
  · split at h
    · rename_i hkey
      exact .inr ⟨hkey.symm, h⟩
    · cases h

theorem mem_of_keys_ofPairs {pairs : List (Key × Value)} {key : Key} (h : key ∈ (Fields.ofPairs pairs).keys) :
    key ∈ pairs.map Prod.fst := by
  have hfold : ∀ before : Fields, key ∈ (pairs.foldl (fun fields p => fields.put p.1 p.2) before).keys →
      key ∈ before.keys ∨ key ∈ pairs.map Prod.fst := by
    clear h
    induction pairs with
    | nil => exact fun before h => .inl h
    | cons p pairs ih =>
      intro before h
      rcases ih (before.put p.1 p.2) h with hbefore | hpairs
      · rw [Fields.mem_keys_iff, Fields.get?_put] at hbefore
        by_cases hkey : key = p.1
        · exact .inr (hkey ▸ List.mem_cons_self ..)
        · rw [if_neg hkey] at hbefore
          exact .inl ((Fields.mem_keys_iff before key).mpr hbefore)
      · exact .inr (List.mem_cons_of_mem _ hpairs)
  exact (hfold [] h).resolve_left List.not_mem_nil

theorem keyed_of_operations (hop : op ∈ stage.operations) (h : IsKeyedBy field op) :
    stage.IsKeyedBy field := by
  cases stage with
  | categoricalMatch conditions =>
    obtain rfl := List.mem_singleton.mp hop
    obtain ⟨-, hmem⟩ := mem_keys_of_keyed h
    obtain ⟨p, hp, he⟩ := List.mem_map.mp hmem
    obtain ⟨c, hc, rfl⟩ := List.mem_map.mp hp
    exact Key.text.inj he ▸ List.mem_map_of_mem hc
  | textSearch query scoreField =>
    simp only [Stage.operations, List.mem_cons, List.not_mem_nil, or_false] at hop
    rcases hop with rfl | rfl
    · obtain ⟨-, hmem⟩ := mem_keys_of_keyed h
      exact Key.text.inj (List.mem_singleton.mp hmem)
    · exact absurd (mem_keys_of_keyed h).1 (by decide)
  | variantMatch colors sizes inStock =>
    unfold Stage.operations at hop
    dsimp only at hop
    split at hop
    · obtain rfl := List.mem_singleton.mp hop
      exact .inr (Key.text.inj (List.mem_singleton.mp (mem_keys_of_keyed h).2))
    · obtain rfl := List.mem_singleton.mp hop
      exact .inl (Key.text.inj (List.mem_singleton.mp (mem_keys_of_keyed h).2))
  | derivedMinPrice priceField =>
    simp only [Stage.operations, Stage.minPriceOperations, List.mem_cons, List.not_mem_nil, or_false] at hop
    rcases hop with rfl | rfl | rfl | rfl <;> exact absurd (mem_keys_of_keyed h).1 (by decide)
  | priceMatch least most priceField =>
    obtain rfl := List.mem_singleton.mp hop
    exact Key.text.inj (List.mem_singleton.mp (mem_keys_of_keyed h).2)
  | sort keys =>
    obtain rfl := List.mem_singleton.mp hop
    obtain ⟨p, hp, he⟩ := List.mem_map.mp (mem_of_keys_ofPairs (mem_keys_of_keyed h).2)
    obtain ⟨k, hk, rfl⟩ := List.mem_map.mp hp
    exact Key.text.inj he ▸ List.mem_map_of_mem hk
  | skip count | limit count =>
    obtain rfl := List.mem_singleton.mp hop
    rcases h with h | h <;> cases h
  | projection fields =>
    obtain rfl := List.mem_singleton.mp hop
    exact absurd (mem_keys_of_keyed h).1 (by decide)

theorem involves_of_operations (hop : op ∈ stage.operations) (h : Involves field op) :
    stage.Involves field := by
  cases stage with
  | categoricalMatch | priceMatch | sort =>
    obtain rfl := List.mem_singleton.mp hop
    rcases computes_of_involves h with ⟨hkey, -⟩ | ⟨hkey, -⟩ <;> exact absurd hkey (by decide)
  | textSearch query scoreField =>
    simp only [Stage.operations, List.mem_cons, List.not_mem_nil, or_false] at hop
    rcases hop with rfl | rfl
    · rcases computes_of_involves h with ⟨hkey, -⟩ | ⟨hkey, -⟩ <;> exact absurd hkey (by decide)
    · rcases computes_of_involves h with ⟨-, hmem | hrefers⟩ | ⟨hkey, -⟩
      · exact Key.text.inj (List.mem_singleton.mp hmem)
      · simp [someFieldRefersTo, Stage.single, refersTo] at hrefers
      · exact absurd hkey (by decide)
  | variantMatch colors sizes inStock =>
    unfold Stage.operations at hop
    dsimp only at hop
    split at hop
    all_goals
      obtain rfl := List.mem_singleton.mp hop
      rcases computes_of_involves h with ⟨hkey, -⟩ | ⟨hkey, -⟩ <;> exact absurd hkey (by decide)
  | derivedMinPrice => trivial
  | skip | limit =>
    obtain rfl := List.mem_singleton.mp hop
    rcases h with h | h | h <;> cases h
  | projection fields =>
    obtain rfl := List.mem_singleton.mp hop
    rcases computes_of_involves h with ⟨hkey, -⟩ | ⟨-, hrefers⟩
    · exact absurd hkey (by decide)
    · exact hrefers

end

/-! ### plans -/

/-- Nothing is sorted by the least price or by the score of a text, or matched on them, before they are
defined. -/
structure KeysDerived (pipeline : List Value) : Prop where
  minPrice : LedBy (Adds minPriceField) (IsKeyedBy minPriceField) pipeline
  textScore : LedBy (Adds textScoreField) (IsKeyedBy textScoreField) pipeline

/-- Besides, no helper is read before it is defined, and each is removed after that: nothing comes in between
but what belongs to the least price, and no operation after it has to do with the helper. -/
structure DerivesFirst (pipeline : List Value) : Prop extends KeysDerived pipeline where
  helpers : ∀ helper ∈ helperFields, LedBy (Adds helper) (Reads helper) pipeline
  removed : ∀ helper ∈ helperFields, EndedBy (Involves helper) (Drops helper)
    (Stage.minPriceOperations minPriceField) pipeline

section

variable {filters : Fields} {fields : Value} {op : Value} {helper : String}

/-- The least price is derived. -/
def isDerived (filters : Fields) : Bool :=
  isPriced filters || decide ((compile filters .null).sort ∈ ["price_asc", "price_desc"])

/-- The order of a plan and whether it searches for a text decide by what it sorts. -/
def keysOf (filters : Fields) : List (String × Direction) :=
  sortKeys (compile filters .null).sort (!(queryText filters).isEmpty)

theorem mem_sortKeys {sort field : String} {hasQuery : Bool} (h : field ∈ (sortKeys sort hasQuery).map Prod.fst) :
    field = createdAtField ∨ field = textScoreField ∧ hasQuery = true ∨
      field = minPriceField ∧ sort ∈ ["price_asc", "price_desc"] := by
  unfold sortKeys at h
  dsimp only at h
  split at h
  · split at h
    · rename_i hquery
      simp only [List.map_cons, List.map_nil, List.mem_cons, List.not_mem_nil, or_false] at h
      exact h.elim (fun h => .inr (.inl ⟨h, hquery⟩)) .inl
    · exact .inl (List.mem_singleton.mp h)
  · simp only [List.map_cons, List.map_nil, List.mem_cons, List.not_mem_nil, or_false] at h
    exact h.elim (fun h => .inr (.inr ⟨h, by decide⟩)) .inl
  · simp only [List.map_cons, List.map_nil, List.mem_cons, List.not_mem_nil, or_false] at h
    exact h.elim (fun h => .inr (.inr ⟨h, by decide⟩)) .inl
  · exact .inl (List.mem_singleton.mp h)

/-- The fields of a product that the conditions are about. -/
theorem mem_categoricalConditions {field : String} (h : field ∈ (categoricalConditions filters).map Prod.fst) :
    field ∈ categoricalFields.map Prod.snd := by
  obtain ⟨c, hc, rfl⟩ := List.mem_map.mp h
  obtain ⟨p, hp, he⟩ := List.mem_filterMap.mp hc
  dsimp only at he
  split at he
  · cases he
  · rw [← Option.some.inj he]
    exact List.mem_map_of_mem hp

/-- The stage comes before the least price is derived. -/
def Stage.ComesBefore (filters : Fields) (stage : Stage) : Prop :=
  stage = .categoricalMatch (categoricalConditions filters) ∨
    stage = .textSearch (queryText filters) textScoreField ∨
    ∃ colors sizes inStock, stage = .variantMatch colors sizes inStock

/-- The stage comes after the least price has been derived, if it is, and is no projection. -/
def Stage.ComesAfter (filters : Fields) (stage : Stage) : Prop :=
  (isPriced filters = true ∧ ∃ least most, stage = .priceMatch least most minPriceField) ∨
    stage = .sort (keysOf filters) ∨ (∃ n, stage = .skip n) ∨ ∃ n, stage = .limit n

/-- The stages of a plan, around the one that derives the least price. -/
theorem exists_stages (filters : Fields) : ∃ before after : List Stage,
    (∀ fields, (compile filters fields).stages =
      before ++ stageIf (isDerived filters) (.derivedMinPrice minPriceField) ++ after ++
        stageIf (!(projectionFields fields).isEmpty) (.projection (projectionFields fields))) ∧
    (∀ stage ∈ before, stage.ComesBefore filters) ∧
    ((!(queryText filters).isEmpty) = true → .textSearch (queryText filters) textScoreField ∈ before) ∧
    ∀ stage ∈ after, stage.ComesAfter filters := by
  have hsort := sort_compile filters .null
  unfold isDerived Stage.ComesAfter keysOf isPriced
  rw [hsort]
  unfold compile
  generalize priceBounds (Fields.value filters "price") = bounds
  obtain ⟨least, most⟩ := bounds
  dsimp only
  refine ⟨_, _, fun fields => congrArg (· ++ _) (List.append_assoc _ _ _), ?_, ?_, ?_⟩
  · intro stage hstage
    simp only [List.mem_append, mem_stageIf] at hstage
    rcases hstage with (⟨-, rfl⟩ | ⟨-, rfl⟩) | ⟨-, rfl⟩
    · exact .inl rfl
    · exact .inr (.inl rfl)
    · exact .inr (.inr ⟨_, _, _, rfl⟩)
  · intro hquery
    exact List.mem_append_left _ (List.mem_append_right _ (mem_stageIf.mpr ⟨hquery, rfl⟩))
  · intro stage hstage
    simp only [List.mem_append, mem_stageIf, List.mem_cons, List.not_mem_nil, or_false] at hstage
    rcases hstage with ⟨hpriced, rfl⟩ | rfl | rfl | rfl
    · exact .inl ⟨hpriced, _, _, rfl⟩
    · exact .inr (.inl rfl)
    · exact .inr (.inr (.inl ⟨_, rfl⟩))
    · exact .inr (.inr (.inr ⟨_, rfl⟩))

section

variable {stage : Stage}

/-- What comes before the least price is keyed by no field that is derived. -/
theorem Stage.ComesBefore.not_isKeyedBy (h : stage.ComesBefore filters) :
    ∀ field ∈ [minPriceField, textScoreField], ¬ stage.IsKeyedBy field := by
  intro field hfield hkeyed
  rcases h with rfl | rfl | ⟨_, _, _, rfl⟩
  · have hnone : ∀ field ∈ [minPriceField, textScoreField], field ∉ categoricalFields.map Prod.snd := by decide
    exact hnone field hfield (mem_categoricalConditions hkeyed)
  · obtain rfl : field = "$text" := hkeyed
    revert hfield
    decide
  · rcases hkeyed with rfl | rfl <;> exact absurd hfield (by decide)

theorem Stage.ComesBefore.not_involves (h : stage.ComesBefore filters) (hhelper : helper ∈ helperFields) :
    ¬ stage.Involves helper := by
  rcases h with rfl | rfl | ⟨_, _, _, rfl⟩
  · exact id
  · rintro (rfl : helper = textScoreField)
    exact absurd hhelper (by decide)
  · exact id

/-- What comes after the least price is keyed by what has been derived. -/
theorem Stage.ComesAfter.of_isKeyedBy (h : stage.ComesAfter filters) :
    (stage.IsKeyedBy minPriceField → isDerived filters = true) ∧
      (stage.IsKeyedBy textScoreField → (!(queryText filters).isEmpty) = true) := by
  rcases h with ⟨hpriced, _, _, rfl⟩ | rfl | ⟨_, rfl⟩ | ⟨_, rfl⟩
  · have hne : textScoreField ≠ minPriceField := by decide
    refine ⟨fun _ => ?_, fun hkeyed => absurd hkeyed hne⟩
    unfold isDerived
    rw [hpriced, Bool.true_or]
  · constructor
    · intro hkeyed
      rcases mem_sortKeys hkeyed with h | ⟨h, -⟩ | ⟨-, hsort⟩
      · exact absurd h (by decide)
      · exact absurd h (by decide)
      · unfold isDerived
        rw [decide_eq_true hsort, Bool.or_true]
    · intro hkeyed
      rcases mem_sortKeys hkeyed with h | ⟨-, hquery⟩ | ⟨h, -⟩
      · exact absurd h (by decide)
      · exact hquery
      · exact absurd h (by decide)
  · exact ⟨False.elim, False.elim⟩
  · exact ⟨False.elim, False.elim⟩

theorem Stage.ComesAfter.not_involves (h : stage.ComesAfter filters) : ¬ stage.Involves helper := by
  rcases h with ⟨-, _, _, rfl⟩ | rfl | ⟨_, rfl⟩ | ⟨_, rfl⟩ <;> exact id

end

/-! ### the derivation -/

/-- The operations that derive the least price, if it is wanted. -/
def derivation (filters : Fields) : List Value :=
  if isDerived filters then Stage.minPriceOperations minPriceField else []

/-- What holds of the operations that derive the least price, and of none, holds of a derivation. -/
theorem derivation_induction {P : List Value → Prop} (hnil : P []) (h : P (Stage.minPriceOperations minPriceField)) :
    P (derivation filters) := by
  unfold derivation
  split
  · exact h
  · exact hnil

theorem derivation_led (hhelper : helper ∈ helperFields) :
    LedBy (Adds helper) (Reads helper) (derivation filters) := by
  have hled : ∀ (count : Nat) (helper : String),
      (∀ op ∈ (Stage.minPriceOperations minPriceField).take count, ¬ Reads helper op) →
      (∃ op ∈ (Stage.minPriceOperations minPriceField).take count, Adds helper op) →
      LedBy (Adds helper) (Reads helper) (Stage.minPriceOperations minPriceField) := by
    intro count helper hnone hadds
    rw [← List.take_append_drop count (Stage.minPriceOperations minPriceField)]
    exact (ledBy_of_none hnone).append (.inl hadds)
  refine derivation_induction (ledBy_of_none fun _ hop => absurd hop List.not_mem_nil) ?_
  simp only [helperFields, List.mem_cons, List.not_mem_nil, or_false] at hhelper
  rcases hhelper with rfl | rfl
  · exact hled 1 _ (by decide) (by decide)
  · exact hled 2 _ (by decide) (by decide)

theorem derivation_ended (hhelper : helper ∈ helperFields) :
    EndedBy (Involves helper) (Drops helper)
      (Stage.minPriceOperations minPriceField) (derivation filters) := by
  refine derivation_induction (endedBy_of_none fun _ hop => absurd hop List.not_mem_nil) ?_
  have hlast : ∀ helper ∈ helperFields,
      Drops helper ((Stage.minPriceOperations minPriceField).getLast (List.cons_ne_nil _ _)) ∧
      ¬ Involves helper ((Stage.minPriceOperations minPriceField).getLast (List.cons_ne_nil _ _)) := by
    decide
  have hconcat : (Stage.minPriceOperations minPriceField).dropLast ++
      [(Stage.minPriceOperations minPriceField).getLast (List.cons_ne_nil _ _)] =
        Stage.minPriceOperations minPriceField := rfl
  rw [← hconcat]
  exact endedBy_concat (hlast helper hhelper).1 (hlast helper hhelper).2

/-! ### the pipeline -/

/-- The pipeline of a plan without a projection, around the derivation of the least price. -/
theorem exists_pipeline (filters : Fields) : ∃ before after : List Value,
    (compile filters .null).pipeline = before ++ derivation filters ++ after ∧
    (∀ op ∈ before, ∀ field ∈ [minPriceField, textScoreField], ¬ IsKeyedBy field op) ∧
    (∀ op ∈ before ++ after, ∀ helper ∈ helperFields, ¬ Involves helper op) ∧
    (∀ op ∈ after, IsKeyedBy minPriceField op → isDerived filters = true) ∧
    ∀ op ∈ after, IsKeyedBy textScoreField op →
      ∃ op ∈ before, Adds textScoreField op := by
  obtain ⟨before, after, hstages, hbefore, hsearched, hafter⟩ := exists_stages filters
  refine ⟨before.flatMap Stage.operations, after.flatMap Stage.operations, ?_, ?_, ?_, ?_, ?_⟩
  · have hnone : stageIf (!(projectionFields .null).isEmpty) (.projection (projectionFields .null)) = [] := rfl
    have hderivation : (stageIf (isDerived filters) (.derivedMinPrice minPriceField)).flatMap Stage.operations =
        derivation filters := by
      unfold derivation
      cases isDerived filters with
      | false => rfl
      | true => exact List.append_nil _
    unfold QueryPlan.pipeline
    rw [hstages, hnone, List.append_nil, List.flatMap_append, List.flatMap_append, hderivation]
  · intro op hop field hfield h
    obtain ⟨stage, hstage, hop⟩ := List.mem_flatMap.mp hop
    exact (hbefore stage hstage).not_isKeyedBy field hfield (keyed_of_operations hop h)
  · intro op hop helper hhelper h
    rw [← List.flatMap_append] at hop
    obtain ⟨stage, hstage, hop⟩ := List.mem_flatMap.mp hop
    rcases List.mem_append.mp hstage with hstage | hstage
    · exact (hbefore stage hstage).not_involves hhelper (involves_of_operations hop h)
    · exact (hafter stage hstage).not_involves (involves_of_operations hop h)
  · intro op hop h
    obtain ⟨stage, hstage, hop⟩ := List.mem_flatMap.mp hop
    exact (hafter stage hstage).of_isKeyedBy.1 (keyed_of_operations hop h)
  · intro op hop h
    obtain ⟨stage, hstage, hop⟩ := List.mem_flatMap.mp hop
    have hquery := (hafter stage hstage).of_isKeyedBy.2 (keyed_of_operations hop h)
    exact ⟨_, List.mem_flatMap.mpr ⟨_, hsearched hquery, List.mem_cons_of_mem _ (List.mem_singleton_self _)⟩, rfl⟩

variable {tail : List Value}

/-- What the results are sorted by or matched on has been defined, with anything behind the pipeline that does
neither. -/
theorem keysDerived_append (filters : Fields)
    (htail : ∀ op ∈ tail, ∀ field, ¬ IsKeyedBy field op) :
    KeysDerived ((compile filters .null).pipeline ++ tail) := by
  obtain ⟨before, after, hpipeline, hbefore, -, hpriced, hscored⟩ := exists_pipeline filters
  have hderivation : ∀ op ∈ derivation filters, ∀ field, ¬ IsKeyedBy field op :=
    derivation_induction (P := fun ops => ∀ op ∈ ops, ∀ field, ¬ IsKeyedBy field op)
      (fun _ hop => absurd hop List.not_mem_nil) fun op hop field h => by
      have hstage : (Stage.derivedMinPrice minPriceField).IsKeyedBy field := keyed_of_operations hop h
      exact hstage
  have hled : ∀ field ∈ [minPriceField, textScoreField],
      (∀ op ∈ after, IsKeyedBy field op →
        ∃ op ∈ before ++ derivation filters, Adds field op) →
      LedBy (Adds field) (IsKeyedBy field)
        (before ++ derivation filters ++ after ++ tail) := by
    intro field hfield hdefined
    refine ((ledBy_of_none fun op hop => ?_).append ?_).append
      (.inr (ledBy_of_none fun op hop => htail op hop field))
    · exact (List.mem_append.mp hop).elim (hbefore op · field hfield) (hderivation op · field)
    · by_cases hlater : ∃ op ∈ after, IsKeyedBy field op
      · obtain ⟨op, hop, hkeyed⟩ := hlater
        exact .inl (hdefined op hop hkeyed)
      · exact .inr (ledBy_of_none fun op hop hkeyed => hlater ⟨op, hop, hkeyed⟩)
  rw [hpipeline]
  refine ⟨hled _ (by decide) fun op hop h => ?_, hled _ (by decide) fun op hop h => ?_⟩
  · have hadds : ∃ op ∈ Stage.minPriceOperations minPriceField, Adds minPriceField op := by decide
    obtain ⟨first, hfirst, hadds⟩ := hadds
    refine ⟨first, List.mem_append_right _ ?_, hadds⟩
    unfold derivation
    rwa [if_pos (hpriced op hop h)]
  · obtain ⟨first, hfirst, hadds⟩ := hscored op hop h
    exact ⟨first, List.mem_append_left _ hfirst, hadds⟩

/-- **A pipeline derives first**, with anything behind it that sorts and matches nothing, and has nothing to do
with the helpers. -/
theorem derivesFirst_append (filters : Fields)
    (htail : ∀ op ∈ tail, ∀ field, ¬ IsKeyedBy field op)
    (hunrelated : ∀ op ∈ tail, ∀ helper ∈ helperFields, ¬ Involves helper op) :
    DerivesFirst ((compile filters .null).pipeline ++ tail) := by
  refine ⟨keysDerived_append filters htail, ?_, ?_⟩
  all_goals
    intro helper hhelper
    obtain ⟨before, after, hpipeline, -, hothers, -⟩ := exists_pipeline filters
    have hfront : ∀ op ∈ before, ¬ Involves helper op := fun op hop =>
      hothers op (List.mem_append_left _ hop) helper hhelper
    have hback : ∀ op ∈ after ++ tail, ¬ Involves helper op := fun op hop =>
      (List.mem_append.mp hop).elim (fun hop => hothers op (List.mem_append_right _ hop) helper hhelper)
        (hunrelated op · helper hhelper)
    rw [hpipeline, List.append_assoc]
  · exact ((ledBy_of_none fun op hop h => hfront op hop (.inr h)).append (.inr (derivation_led hhelper))).append
      (.inr (ledBy_of_none fun op hop h => hback op hop (.inr h)))
  · exact EndedBy.append hfront (derivation_ended hhelper) hback

/-! ### the projection of the caller -/

/-- The operation that keeps or drops what the caller wants kept or dropped, if that is anything. -/
def callersProjection (fields : Value) : List Value :=
  (stageIf (!(projectionFields fields).isEmpty) (.projection (projectionFields fields))).flatMap Stage.operations

/-- What the caller wants projected is computed from the field. -/
def ProjectsFrom (field : String) (fields : Value) : Prop :=
  someFieldRefersTo field (Fields.ofNamed (projectionFields fields)) = true

theorem pipeline_append (filters : Fields) (fields : Value) :
    (compile filters fields).pipeline = (compile filters .null).pipeline ++ callersProjection fields := by
  obtain ⟨before, after, hstages, -⟩ := exists_stages filters
  have hnone : stageIf (!(projectionFields .null).isEmpty) (.projection (projectionFields .null)) = [] := rfl
  unfold QueryPlan.pipeline callersProjection
  rw [hstages, hstages, hnone, List.append_nil, List.flatMap_append]

theorem eq_callersProjection (hop : op ∈ callersProjection fields) : callersProjection fields = [op] ∧
    op ∈ Stage.operations (.projection (projectionFields fields)) := by
  obtain ⟨stage, hstage, hop⟩ := List.mem_flatMap.mp hop
  obtain ⟨hwanted, rfl⟩ := mem_stageIf.mp hstage
  refine ⟨?_, hop⟩
  unfold callersProjection
  rw [hwanted]
  exact congrArg (· :: []) (List.mem_singleton.mp hop).symm

/-- The projection of the caller computes with a field exactly if it refers to the field. -/
theorem projectsFrom_iff : ProjectsFrom helper fields ↔ ∃ op ∈ callersProjection fields, Involves helper op := by
  constructor
  · intro h
    refine ⟨Stage.single "$project" (.object (Fields.ofNamed (projectionFields fields))), ?_, .inr (.inr ?_)⟩
    · have hwanted : (!(projectionFields fields).isEmpty) = true := by
        unfold ProjectsFrom at h
        cases hprojected : projectionFields fields with
        | nil =>
          rw [hprojected] at h
          cases h
        | cons => rfl
      exact List.mem_flatMap.mpr ⟨_, mem_stageIf.mpr ⟨hwanted, rfl⟩, List.mem_singleton_self _⟩
    · rw [bodyOf_single, if_pos rfl]
      exact h
  · rintro ⟨op, hop, h⟩
    exact involves_of_operations (eq_callersProjection hop).2 h

/-- **Everything but the projection of the caller derives first.** That projection comes last, and the whole
pipeline derives first exactly if it is not computed from a helper. -/
theorem derivesFirst_compiled (filters fields : Value) (hfilters : filters.isWritable = true)
    (hfields : fields.isWritable = true) (c : Context) :
    ∃ plan bare, ((compiled filters fields).runFrom c).1 = .ok plan ∧
      ((compiled filters .null).runFrom c).1 = .ok bare ∧
      plan.pipeline = bare.pipeline ++ callersProjection fields ∧
      DerivesFirst bare.pipeline ∧ KeysDerived plan.pipeline ∧
      (DerivesFirst plan.pipeline ↔ ∀ helper ∈ helperFields, ¬ ProjectsFrom helper fields) := by
  have hpipeline := pipeline_append (filters.fields?.getD []) fields
  have hkeys : ∀ op ∈ callersProjection fields, ∀ field, ¬ IsKeyedBy field op := fun op hop field h =>
    keyed_of_operations (eq_callersProjection hop).2 h
  have hbare : DerivesFirst ((compile (filters.fields?.getD []) .null).pipeline ++ []) :=
    derivesFirst_append (filters.fields?.getD []) nofun nofun
  rw [List.append_nil] at hbare
  refine ⟨compileValue filters fields, compileValue filters .null, ?_, ?_, hpipeline, hbare, ?_, ?_, ?_⟩
  · rw [(steady_compiled filters fields).outcome c]
    exact outcomeWhen_compiled hfilters hfields c.debugging
  · rw [(steady_compiled filters .null).outcome c]
    exact outcomeWhen_compiled hfilters rfl c.debugging
  · exact hpipeline ▸ keysDerived_append _ hkeys
  · intro h helper hhelper hprojects
    obtain ⟨op, hop, hinvolves⟩ := projectsFrom_iff.mp hprojects
    rw [(eq_callersProjection hop).1] at hpipeline
    -- nothing comes behind the projection that could remove the helper
    obtain ⟨between, last, rest, hback, -⟩ := h.removed helper hhelper _ op [] hpipeline hinvolves
    cases between <;> cases hback
  · intro h
    refine hpipeline ▸ derivesFirst_append _ hkeys fun op hop helper hhelper hinvolves => ?_
    exact h helper hhelper (projectsFrom_iff.mpr ⟨op, hop, hinvolves⟩)

/-- A search by price, and a projection that keeps two fields. -/
theorem derivesFirst_compiled_of_search :
    let filters : Value := .object [("q", .str "silk"), ("sort", .str "price_asc"),
      ("price", .object [("max", .str "80")])]
    filters.isWritable = true ∧ Value.isWritable (.str "name,slug") = true ∧
    ∃ plan bare, ((compiled filters (.str "name,slug")).runFrom (.initial true)).1 = .ok plan ∧
      ((compiled filters .null).runFrom (.initial true)).1 = .ok bare ∧
      plan.pipeline = bare.pipeline ++ callersProjection (.str "name,slug") ∧
      DerivesFirst bare.pipeline ∧ KeysDerived plan.pipeline ∧
      (DerivesFirst plan.pipeline ↔ ∀ helper ∈ helperFields, ¬ ProjectsFrom helper (.str "name,slug")) :=
  ⟨rfl, rfl, derivesFirst_compiled _ _ rfl rfl _⟩

/-- Not every pipeline derives first: a projection may be computed from a helper that nothing defines. -/
theorem not_derivesFirst_of_projection : ¬ ∀ filters fields : Value, filters.isWritable = true →
    fields.isWritable = true → ∀ c : Context,
    ∃ plan, ((compiled filters fields).runFrom c).1 = .ok plan ∧ DerivesFirst plan.pipeline := by
  intro hall
  obtain ⟨plan, hplan, h⟩ := hall (.object []) (.object [("a", .str "$_allSizes")]) rfl rfl (.initial false)
  rw [(steady_compiled _ _).outcome, outcomeWhen_compiled rfl rfl] at hplan
  obtain rfl := Except.ok.inj hplan
  have hled := h.helpers "_allSizes" (by decide)
    [Stage.single "$sort" (.object [("createdAt", .int (-1))]), Stage.single "$skip" (.int 0),
      Stage.single "$limit" (.int 24)]
    (Stage.single "$project" (.object [("a", .str "$_allSizes")])) [] rfl (by decide)
  revert hled
  decide

end

end Outfitter.Plan
