import Mathlib.Logic.Relation
import Outfitter.Proofs.Value.Solid

/-!
What pruning takes out of a value, and what it leaves.

The leaves of a value are its scalars, each with the keys that lead to it. Pruning takes out the leaves that say
nothing, nulls and empty texts, and with them the lists and objects in which nothing else was left. All other
leaves stay under their keys and in their order (`prune_exact`).
-/

namespace Outfitter.Value

/-! ### what stands inside -/

/-- The first value is an item of the second, or the value of one of its fields. -/
def IsPart (w : Value) : Value → Prop
  | list items => w ∈ items
  | object fields => ∃ k, (k, w) ∈ fields
  | _ => False

/-- The first value stands inside the second, at any depth. -/
def Inside : Value → Value → Prop :=
  Relation.TransGen IsPart

variable {v w : Value}

theorem isSolid_of_isPart (hv : v.isSolid = true) (h : IsPart w v) : w.isSolid = true := by
  cases v with
  | list items => exact (areSolid_iff items).mp (Bool.and_eq_true_iff.mp hv).2 w h
  | object fields =>
    obtain ⟨k, hmem⟩ := h
    exact (haveSolid_iff fields).mp (Bool.and_eq_true_iff.mp hv).2 (k, w) hmem
  | _ => exact h.elim

/-- What stands directly inside a value that has been pruned is solid, whether the value itself is or not. -/
theorem isSolid_of_isPart_prune (h : IsPart w (prune v)) : w.isSolid = true := by
  cases v with
  | list items => exact (areSolid_iff _).mp (areSolid_pruneItems items) w h
  | object fields =>
    obtain ⟨k, hmem⟩ := h
    exact (haveSolid_iff _).mp (haveSolid_pruneFields fields) (k, w) hmem
  | _ => exact h.elim

/-- Nothing vacuous stands inside a value that has been pruned. -/
theorem not_vacuous_of_inside_prune (h : Inside w (prune v)) : w.isVacuous = false := by
  obtain ⟨part, hinside, hpart⟩ := Relation.TransGen.tail'_iff.mp h
  refine isVacuous_of_isSolid ?_
  clear h
  induction hinside using Relation.ReflTransGen.head_induction_on with
  | refl => exact isSolid_of_isPart_prune hpart
  | head hstep _ ih => exact isSolid_of_isPart ih hstep

mutual

/-- A value is left as it is if nothing vacuous stands inside. -/
theorem prune_of_inside : ∀ v : Value, (∀ w, Inside w v → w.isVacuous = false) → prune v = v
  | .list items => fun h => congrArg list <| pruneItems_of_inside items fun v hv =>
    ⟨h v (.single hv), fun w hw => h w (.tail hw hv)⟩
  | .object fields => fun h => congrArg object <| pruneFields_of_inside fields fun p hp =>
    ⟨h p.2 (.single ⟨p.1, hp⟩), fun w hw => h w (.tail hw ⟨p.1, hp⟩)⟩
  | .null | .bool _ | .int _ | .float _ | .str _ => fun _ => rfl

theorem pruneItems_of_inside : ∀ items : List Value,
    (∀ v ∈ items, v.isVacuous = false ∧ ∀ w, Inside w v → w.isVacuous = false) → pruneItems items = items
  | [] => fun _ => rfl
  | v :: vs => by
    intro h
    obtain ⟨⟨hv, hinside⟩, hvs⟩ := List.forall_mem_cons.mp h
    rw [pruneItems, prune_of_inside v hinside, hv, pruneItems_of_inside vs hvs]
    rfl

theorem pruneFields_of_inside : ∀ fields : List (Key × Value),
    (∀ p ∈ fields, p.2.isVacuous = false ∧ ∀ w, Inside w p.2 → w.isVacuous = false) → pruneFields fields = fields
  | [] => fun _ => rfl
  | (k, v) :: rest => by
    intro h
    obtain ⟨⟨hv, hinside⟩, hrest⟩ := List.forall_mem_cons.mp h
    rw [pruneFields, prune_of_inside v hinside, hv, pruneFields_of_inside rest hrest]
    rfl

end

theorem prune_eq_self_iff : prune v = v ↔ ∀ w, Inside w v → w.isVacuous = false :=
  ⟨fun h _ hw => not_vacuous_of_inside_prune (h.symm ▸ hw), prune_of_inside v⟩

theorem prune_prune (v : Value) : prune (prune v) = prune v :=
  prune_of_inside _ fun _ => not_vacuous_of_inside_prune

/-! ### leaves -/

/-- The value is a scalar, and no list or object. -/
def isLeaf (v : Value) : Bool :=
  v.key?.isSome

mutual

/-- The scalars in a value from first to last, each with the keys above it. -/
def leaves : Value → List (List Key × Value)
  | list items => leavesOf items
  | object fields => leavesUnder fields
  | v => [([], v)]

def leavesOf : List Value → List (List Key × Value)
  | [] => []
  | v :: vs => leaves v ++ leavesOf vs

def leavesUnder : List (Key × Value) → List (List Key × Value)
  | [] => []
  | (k, v) :: rest => (leaves v).map (fun leaf => (k :: leaf.1, leaf.2)) ++ leavesUnder rest

end

/-- The leaves that say something. -/
def saying (leaves : List (List Key × Value)) : List (List Key × Value) :=
  leaves.filter fun leaf => !leaf.2.isVacuous

theorem saying_append (first second : List (List Key × Value)) :
    saying (first ++ second) = saying first ++ saying second :=
  List.filter_append ..

/-- Whether a leaf says something does not depend on where it stands. -/
theorem saying_under (k : Key) (leaves : List (List Key × Value)) :
    saying (leaves.map fun leaf => (k :: leaf.1, leaf.2)) =
      (saying leaves).map fun leaf => (k :: leaf.1, leaf.2) := by
  unfold saying
  rw [List.filter_map]
  rfl

mutual

/-- Of a value that becomes vacuous no leaf says anything; of any other those do that pruning leaves. -/
theorem saying_leaves : ∀ v : Value,
    saying (leaves v) = if (prune v).isVacuous then [] else leaves (prune v)
  | .list items => by
    show saying (leavesOf items) = if (pruneItems items).isEmpty then [] else leavesOf (pruneItems items)
    rw [saying_leavesOf items]
    cases pruneItems items <;> rfl
  | .object fields => by
    show saying (leavesUnder fields) = if (pruneFields fields).isEmpty then [] else leavesUnder (pruneFields fields)
    rw [saying_leavesUnder fields]
    cases pruneFields fields <;> rfl
  | .str s => by
    cases hs : s.isEmpty <;> simp [saying, leaves, prune, isVacuous, hs]
  | .null | .bool _ | .int _ | .float _ => rfl

theorem saying_leavesOf : ∀ items : List Value, saying (leavesOf items) = leavesOf (pruneItems items)
  | [] => rfl
  | v :: vs => by
    rw [leavesOf, saying_append, saying_leaves v, saying_leavesOf vs, pruneItems]
    split <;> rfl

theorem saying_leavesUnder : ∀ fields : List (Key × Value),
    saying (leavesUnder fields) = leavesUnder (pruneFields fields)
  | [] => rfl
  | (k, v) :: rest => by
    rw [leavesUnder, saying_append, saying_under, saying_leaves v, saying_leavesUnder rest, pruneFields]
    split <;> rfl

end

theorem leaves_prune (h : v.isLeaf = false) : leaves (prune v) = saying (leaves v) := by
  cases v with
  | list items => exact (saying_leavesOf items).symm
  | object fields => exact (saying_leavesUnder fields).symm
  | _ => cases h

/-- **Pruning takes out exactly what is vacuous.** Nothing vacuous is left inside, and nothing is pruned twice.
A scalar stays as it is; of all other values the leaves that say something stay, under their keys and in their
order. A value is left as it is exactly if nothing vacuous stands inside. -/
theorem prune_exact (v : Value) :
    (∀ w, Inside w (prune v) → w.isVacuous = false) ∧
    prune (prune v) = prune v ∧
    (if v.isLeaf then prune v = v else leaves (prune v) = saying (leaves v)) ∧
    (prune v = v ↔ ∀ w, Inside w v → w.isVacuous = false) := by
  refine ⟨fun w => not_vacuous_of_inside_prune, prune_prune v, ?_, prune_eq_self_iff⟩
  split
  · rename_i hleaf
    cases v with
    | list | object => cases hleaf
    | _ => rfl
  · rename_i hleaf
    exact leaves_prune (eq_false_of_ne_true hleaf)

/-- Zero and false stay where they stand; what holds only nulls and empty texts goes. -/
example : prune (.object [("a", .list [.null, .int 0, .object [("b", .list [.str ""])]]), ("c", .bool false)]) =
    .object [("a", .list [.int 0]), ("c", .bool false)] := by
  rfl

end Outfitter.Value
