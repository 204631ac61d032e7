import Outfitter.Proofs.Value.Fields

/-!
Equality by value.

An object never has two fields of one key. Values in which that is so are equal to themselves (`same_self`),
and two objects are equal exactly if the same fields are found in them, with values that are equal
(`same_object`).
-/

namespace Outfitter.Value

mutual

/-- No object in the value has two fields of one key. -/
def isKeyed : Value → Bool
  | list items => areKeyed items
  | object fields => decide (fields.map (·.1)).Nodup && haveKeyed fields
  | _ => true

def areKeyed : List Value → Bool
  | [] => true
  | v :: vs => isKeyed v && areKeyed vs

def haveKeyed : List (Key × Value) → Bool
  | [] => true
  | (_, v) :: rest => isKeyed v && haveKeyed rest

end

/-- Every field of the first is found in the second, with an equal value. -/
theorem sameFields_iff (fields others : Fields) : sameFields fields others = true ↔
    ∀ p ∈ fields, ∃ w, Fields.get? others p.1 = some w ∧ p.2.same w = true := by
  induction fields with
  | nil => simp [sameFields]
  | cons p rest ih =>
    obtain ⟨k, v⟩ := p
    rw [sameFields, Bool.and_eq_true_iff, ih, List.forall_mem_cons]
    refine and_congr_left' ?_
    show _ ↔ ∃ w, others.lookup k = some w ∧ v.same w = true
    cases others.lookup k <;> simp

/-- **Objects are equal if the same fields are found in them**, with equal values. -/
theorem same_object {fields others : Fields} (hf : fields.keys.Nodup) (ho : others.keys.Nodup)
    (h : ∀ key, Option.Rel (fun v w => v.same w = true) (Fields.get? fields key) (Fields.get? others key)) :
    (object fields).same (object others) = true := by
  have hkeys : ∀ key, key ∈ fields.keys ↔ key ∈ others.keys := by
    intro key
    rw [Fields.mem_keys_iff, Fields.mem_keys_iff]
    have hkey := h key
    generalize Fields.get? fields key = v at hkey
    generalize Fields.get? others key = w at hkey
    cases hkey <;> simp
  have hlength : fields.length = others.length := by
    have hperm := (List.perm_ext_iff_of_nodup hf ho).mpr hkeys
    have := hperm.length_eq
    unfold Fields.keys at this
    rwa [List.length_map, List.length_map] at this
  unfold same
  rw [hlength, beq_self_eq_true, Bool.true_and, sameFields_iff]
  intro p hp
  have hkey := h p.1
  rw [Fields.get?_of_mem hf hp] at hkey
  generalize Fields.get? others p.1 = w at hkey
  cases hkey with
  | some hw => exact ⟨_, rfl, hw⟩

/-! ### a value and itself -/

theorem same_float_self (x : Double) : x.same x = true := by
  cases x <;> simp [Double.same]

mutual

/-- A value is equal to itself. -/
theorem same_self : ∀ v : Value, v.isKeyed = true → v.same v = true
  | .null => fun _ => rfl
  | .bool b => by simp [same]
  | .int n => by simp [same]
  | .float x => by simp [same, same_float_self]
  | .str s => by simp [same]
  | .list items => sameItems_self items
  | .object fields => by
    intro h
    obtain ⟨hn, hkeyed⟩ := Bool.and_eq_true_iff.mp h
    have hnodup : (Fields.keys fields).Nodup := of_decide_eq_true hn
    have hself := same_self_fields fields hkeyed
    refine same_object hnodup hnodup fun key => ?_
    cases hv : Fields.get? fields key with
    | none => exact .none
    | some v => exact .some (hself _ (Fields.mem_of_get? hv))

theorem sameItems_self : ∀ items : List Value, areKeyed items = true → sameItems items items = true
  | [] => fun _ => rfl
  | v :: vs => by
    intro h
    obtain ⟨hv, hvs⟩ := Bool.and_eq_true_iff.mp h
    exact Bool.and_eq_true_iff.mpr ⟨same_self v hv, sameItems_self vs hvs⟩

theorem same_self_fields : ∀ fields : List (Key × Value), haveKeyed fields = true →
    ∀ p ∈ fields, p.2.same p.2 = true
  | [] => fun _ _ h => absurd h List.not_mem_nil
  | (k, v) :: rest => by
    intro h p hp
    obtain ⟨hv, hrest⟩ := Bool.and_eq_true_iff.mp h
    rcases List.mem_cons.mp hp with rfl | hp
    · exact same_self v hv
    · exact same_self_fields rest hrest p hp

end

end Outfitter.Value
