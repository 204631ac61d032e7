import Outfitter.Proofs.Value.Fields

/-!
Values with nothing vacuous inside.

Such a value is left as it is by pruning (`prune_of_isSolid`), and every value that is left by pruning is one,
unless it is vacuous itself (`isSolid_prune`). So nothing is pruned twice (`pruneFields_pruneFields`).
-/

namespace Outfitter.Value

mutual

/-- The value is not null or empty, and holds nothing that is. -/
def isSolid : Value → Bool
  | null => false
  | str s => !s.isEmpty
  | list items => !items.isEmpty && areSolid items
  | object fields => !fields.isEmpty && haveSolid fields
  | _ => true

def areSolid : List Value → Bool
  | [] => true
  | v :: vs => isSolid v && areSolid vs

def haveSolid : List (Key × Value) → Bool
  | [] => true
  | (_, v) :: rest => isSolid v && haveSolid rest

end

theorem areSolid_iff (items : List Value) : areSolid items = true ↔ ∀ v ∈ items, v.isSolid = true := by
  induction items with
  | nil => simp [areSolid]
  | cons v vs ih => simp [areSolid, ih]

theorem haveSolid_iff (fields : Fields) : haveSolid fields = true ↔ ∀ p ∈ fields, p.2.isSolid = true := by
  induction fields with
  | nil => simp [haveSolid]
  | cons p rest ih =>
    obtain ⟨k, v⟩ := p
    simp [haveSolid, ih]

theorem isVacuous_of_isSolid {v : Value} (h : v.isSolid = true) : v.isVacuous = false := by
  cases v with
  | null => cases h
  | str s => exact Bool.not_eq_true' _ ▸ h
  | list items => exact Bool.not_eq_true' _ ▸ (Bool.and_eq_true_iff.mp h).1
  | object fields => exact Bool.not_eq_true' _ ▸ (Bool.and_eq_true_iff.mp h).1
  | _ => rfl

mutual

/-- A value with nothing vacuous inside is not pruned. -/
theorem prune_of_isSolid : ∀ v : Value, v.isSolid = true → prune v = v
  | .list items => fun h => congrArg list (pruneItems_of_areSolid items (Bool.and_eq_true_iff.mp h).2)
  | .object fields => fun h => congrArg object (pruneFields_of_haveSolid fields (Bool.and_eq_true_iff.mp h).2)
  | .null | .bool _ | .int _ | .float _ | .str _ => fun _ => rfl

theorem pruneItems_of_areSolid : ∀ items : List Value, areSolid items = true → pruneItems items = items
  | [] => fun _ => rfl
  | v :: vs => by
    intro h
    obtain ⟨hv, hvs⟩ := Bool.and_eq_true_iff.mp h
    rw [pruneItems, prune_of_isSolid v hv, isVacuous_of_isSolid hv, pruneItems_of_areSolid vs hvs]
    rfl

theorem pruneFields_of_haveSolid : ∀ fields : List (Key × Value), haveSolid fields = true →
    pruneFields fields = fields
  | [] => fun _ => rfl
  | (k, v) :: rest => by
    intro h
    obtain ⟨hv, hrest⟩ := Bool.and_eq_true_iff.mp h
    rw [pruneFields, prune_of_isSolid v hv, isVacuous_of_isSolid hv, pruneFields_of_haveSolid rest hrest]
    rfl

end

theorem pruned?_of_isSolid {v : Value} (h : v.isSolid = true) : pruned? v = some v := by
  unfold pruned?
  rw [prune_of_isSolid v h, isVacuous_of_isSolid h]
  rfl

mutual

/-- What is left by pruning has nothing vacuous inside. -/
theorem isSolid_prune : ∀ v : Value, (prune v).isVacuous = false → (prune v).isSolid = true
  | .null => fun h => h.symm
  | .bool _ | .int _ | .float _ => fun _ => rfl
  | .str s => fun h => by
    show (!s.isEmpty) = true
    rw [show s.isEmpty = false from h]
    rfl
  | .list items => fun h => by
    show (!(pruneItems items).isEmpty && areSolid (pruneItems items)) = true
    rw [show (pruneItems items).isEmpty = false from h, areSolid_pruneItems items]
    rfl
  | .object fields => fun h => by
    show (!(pruneFields fields).isEmpty && haveSolid (pruneFields fields)) = true
    rw [show (pruneFields fields).isEmpty = false from h, haveSolid_pruneFields fields]
    rfl

theorem areSolid_pruneItems : ∀ items : List Value, areSolid (pruneItems items) = true
  | [] => rfl
  | v :: vs => by
    rw [pruneItems]
    split
    · exact areSolid_pruneItems vs
    · rename_i h
      exact Bool.and_eq_true_iff.mpr ⟨isSolid_prune v (eq_false_of_ne_true h), areSolid_pruneItems vs⟩

theorem haveSolid_pruneFields : ∀ fields : List (Key × Value), haveSolid (pruneFields fields) = true
  | [] => rfl
  | (k, v) :: rest => by
    rw [pruneFields]
    split
    · exact haveSolid_pruneFields rest
    · rename_i h
      exact Bool.and_eq_true_iff.mpr
        ⟨isSolid_prune v (eq_false_of_ne_true h), haveSolid_pruneFields rest⟩

end

theorem pruneFields_pruneFields (fields : Fields) : pruneFields (pruneFields fields) = pruneFields fields :=
  pruneFields_of_haveSolid _ (haveSolid_pruneFields fields)

end Outfitter.Value
