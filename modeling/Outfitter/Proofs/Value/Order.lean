import Outfitter.Value.Order

/-!
Texts can always be sorted.

Only texts are compared then, and of two texts it is known which comes first.
-/

namespace Outfitter.Value

theorem exists_insertSorted (s : String) : ∀ (n : Nat) (kept : List String), kept.length ≤ n →
    ∃ sorted : List String, insertSorted (.str s) (kept.map .str) = .ok (sorted.map .str) := by
  intro n
  induction n with
  | zero =>
    intro kept h
    rw [List.eq_nil_of_length_eq_zero (Nat.le_zero.mp h), insertSorted]
    exact ⟨[s], rfl⟩
  | succ n ih =>
    intro kept h
    rw [insertSorted]
    split
    · exact ⟨[s], rfl⟩
    · rename_i hne
      have hpos : 0 < kept.length := by
        rw [← List.length_map Value.str]
        exact List.length_pos_iff.mpr hne
      have hhalf : kept.length / 2 < kept.length := Nat.div_lt_self hpos (by decide)
      obtain ⟨before, hbefore⟩ := ih (kept.take (kept.length / 2)) (by
        rw [List.length_take]
        omega)
      obtain ⟨after, hafter⟩ := ih (kept.drop (kept.length / 2 + 1)) (by
        rw [List.length_drop]
        omega)
      simp only [List.length_map, List.get_eq_getElem, List.getElem_map, ← List.map_take, ← List.map_drop,
        hbefore, hafter]
      by_cases hlt : s < kept[kept.length / 2]
      · refine ⟨before ++ kept[kept.length / 2] :: kept.drop (kept.length / 2 + 1), ?_⟩
        have hb : isBefore (.str s) (.str kept[kept.length / 2]) = .ok true :=
          congrArg Except.ok (decide_eq_true hlt)
        rw [hb, List.map_append, List.map_cons]
        rfl
      · refine ⟨kept.take (kept.length / 2) ++ kept[kept.length / 2] :: after, ?_⟩
        have hb : isBefore (.str s) (.str kept[kept.length / 2]) = .ok false :=
          congrArg Except.ok (decide_eq_false hlt)
        rw [hb, List.map_append, List.map_cons]
        rfl

theorem exists_takeRun (falling : Bool) (values : List String) : ∀ (last : String) (run : List String),
    ∃ taken left : List String, takeRun falling (.str last) (run.map .str) (values.map .str) =
      .ok (taken.map .str, left.map .str) := by
  induction values with
  | nil => exact fun last run => ⟨last :: run, [], rfl⟩
  | cons v vs ih =>
    intro last run
    rw [List.map_cons, takeRun]
    have hb : isBefore (.str v) (.str last) = .ok (decide (v < last)) := rfl
    rw [hb]
    show ∃ taken left : List String, (if (decide (v < last)) == falling then _ else _) = _
    split
    · exact ih v (last :: run)
    · exact ⟨last :: run, v :: vs, rfl⟩

/-- **Texts can be sorted.** -/
theorem exists_sorted (values : List String) :
    ∃ out : List String, sorted (values.map .str) = .ok (out.map .str) := by
  have hfold : ∀ rest kept : List String, ∃ out : List String,
      (rest.map Value.str).foldlM (fun kept v => insertSorted v kept) (kept.map .str) = .ok (out.map .str) := by
    intro rest
    induction rest with
    | nil => exact fun kept => ⟨kept, rfl⟩
    | cons v rest ih =>
      intro kept
      obtain ⟨next, hnext⟩ := exists_insertSorted v _ kept (Nat.le_refl _)
      obtain ⟨out, hout⟩ := ih next
      refine ⟨out, ?_⟩
      rw [List.map_cons, List.foldlM_cons, hnext]
      exact hout
  match values with
  | [] => exact ⟨[], rfl⟩
  | [v] => exact ⟨[v], rfl⟩
  | v :: w :: rest =>
    obtain ⟨run, left, hrun⟩ := exists_takeRun (decide (w < v)) rest w [v]
    have hb : isBefore (.str w) (.str v) = .ok (decide (w < v)) := rfl
    show ∃ out : List String, sorted (.str v :: .str w :: rest.map .str) = _
    rw [sorted, hb]
    show ∃ out : List String, (takeRun (decide (w < v)) (.str w) [.str v] (rest.map .str) >>= _) = _
    rw [show [Value.str v] = [v].map Value.str from rfl, hrun]
    cases decide (w < v) with
    | true => exact hfold left run
    | false =>
      obtain ⟨out, hout⟩ := hfold left run.reverse
      rw [List.map_reverse] at hout
      exact ⟨out, hout⟩

end Outfitter.Value
