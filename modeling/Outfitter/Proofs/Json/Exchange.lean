import Outfitter.Json.Exchange
import Outfitter.Proofs.Filters.Look

/-!
Values that arrive as they were sent.

A value in which all numbers are finite is exchanged unchanged, and so are filters with finite bounds.
-/

namespace Outfitter

namespace Value

mutual

theorem exchanged_of_isFinite : ∀ v : Value, v.isFinite = true → v.exchanged = v
  | .float x => by
    intro h
    cases x with
    | finite => rfl
    | infinite | nan => cases h
  | .list items => fun h => congrArg list (exchangedItems_of_areFinite items h)
  | .object fields => fun h => congrArg object (exchangedFields_of_haveFinite fields h)
  | .null | .bool _ | .int _ | .str _ => fun _ => rfl

theorem exchangedItems_of_areFinite : ∀ items : List Value, areFinite items = true →
    exchangedItems items = items
  | [] => fun _ => rfl
  | v :: vs => by
    intro h
    obtain ⟨hv, hvs⟩ := Bool.and_eq_true_iff.mp h
    unfold exchangedItems
    rw [exchanged_of_isFinite v hv, exchangedItems_of_areFinite vs hvs]

theorem exchangedFields_of_haveFinite : ∀ fields : List (Key × Value), haveFinite fields = true →
    exchangedFields fields = fields
  | [] => fun _ => rfl
  | (k, v) :: rest => by
    intro h
    obtain ⟨hv, hrest⟩ := Bool.and_eq_true_iff.mp h
    unfold exchangedFields
    rw [exchanged_of_isFinite v hv, exchangedFields_of_haveFinite rest hrest]

end

theorem haveFinite_iff (fields : Fields) :
    haveFinite fields = true ↔ ∀ p ∈ fields, p.2.isFinite = true := by
  induction fields with
  | nil => exact iff_of_true rfl fun _ h => absurd h List.not_mem_nil
  | cons p rest ih =>
    obtain ⟨k, v⟩ := p
    unfold haveFinite
    rw [Bool.and_eq_true_iff, ih, List.forall_mem_cons]

theorem areFinite_iff (items : List Value) : areFinite items = true ↔ ∀ v ∈ items, v.isFinite = true := by
  induction items with
  | nil => exact iff_of_true rfl (List.forall_mem_nil _)
  | cons v vs ih =>
    unfold areFinite
    rw [Bool.and_eq_true_iff, ih, List.forall_mem_cons]

theorem isFinite_texts (xs : List String) : isFinite (.ofStrings xs) = true := by
  show areFinite (xs.map str) = true
  induction xs with
  | nil => rfl
  | cons x xs ih => exact ih

end Value

namespace Filters

/-- Filters with finite numbers are exchanged unchanged. -/
theorem isFinite_of_shows {filters : Fields} {l : Look} (h : Shows Is filters l) :
    (Value.object filters).isFinite = true := by
  refine (Value.haveFinite_iff filters).mpr ?_
  refine h.forall_values (P := fun v => v.isFinite = true) Value.isFinite_texts rfl fun fields hp => ?_
  refine (Value.haveFinite_iff fields).mpr fun p hmem => ?_
  obtain ⟨x, -, his⟩ := hp p hmem
  cases p with
  | mk k v =>
    cases his <;> rfl

end Filters

end Outfitter
