import Outfitter.Keyed

/-!
The keys of a table.
-/

namespace Outfitter.Keyed

variable {κ α : Type} [DecidableEq κ]

theorem mem_keys_iff (table : List (κ × α)) (k : κ) : k ∈ table.map (·.1) ↔ table.lookup k ≠ none := by
  induction table with
  | nil => simp
  | cons p rest ih =>
    obtain ⟨j, v⟩ := p
    rw [List.map_cons, List.mem_cons, ih, lookup_cons]
    by_cases h : k = j
    · simp [h]
    · simp [h]

/-- Where no key stands twice, each value is found under its key. -/
theorem lookup_of_mem {table : List (κ × α)} (hn : (table.map (·.1)).Nodup) {k : κ} {v : α}
    (h : (k, v) ∈ table) : table.lookup k = some v := by
  induction table with
  | nil => cases h
  | cons p rest ih =>
    obtain ⟨j, w⟩ := p
    obtain ⟨hj, hrest⟩ := List.nodup_cons.mp hn
    rw [lookup_cons]
    rcases List.mem_cons.mp h with he | hmem
    · obtain ⟨rfl, rfl⟩ := Prod.mk.inj he
      exact if_pos rfl
    · have hkey : k ∈ rest.map (·.1) := List.mem_map_of_mem hmem
      have hne : k ≠ j := fun he => hj (he ▸ hkey)
      rw [if_neg hne]
      exact ih hrest hmem

theorem mem_of_lookup {table : List (κ × α)} {k : κ} {v : α} (h : table.lookup k = some v) : (k, v) ∈ table := by
  obtain ⟨before, after, rfl, -⟩ := List.lookup_eq_some_iff.mp h
  exact List.mem_append_right _ (List.mem_cons_self ..)

theorem eq_nil_of_lookup {table : List (κ × α)} (h : ∀ k, table.lookup k = none) : table = [] := by
  refine List.eq_nil_iff_forall_not_mem.mpr fun e he => ?_
  exact (mem_keys_iff table e.1).mp (List.mem_map_of_mem he) (h e.1)

theorem keys_put (table : List (κ × α)) (k : κ) (v : α) :
    (put table k v).map (·.1) = if k ∈ table.map (·.1) then table.map (·.1) else table.map (·.1) ++ [k] := by
  induction table with
  | nil => rfl
  | cons p rest ih =>
    obtain ⟨j, w⟩ := p
    by_cases h : j = k
    · subst h
      simp [put]
    · have hne : k ≠ j := Ne.symm h
      simp only [put, if_neg h, List.map_cons, ih, List.mem_cons, hne, false_or]
      split <;> rfl

theorem keys_without (table : List (κ × α)) (k : κ) :
    (without table k).map (·.1) = (table.map (·.1)).filter (· != k) := by
  rw [List.filter_map]
  rfl

/-- No key stands twice after a value has been put. -/
theorem nodup_put {table : List (κ × α)} (h : (table.map (·.1)).Nodup) (k : κ) (v : α) :
    ((put table k v).map (·.1)).Nodup := by
  rw [keys_put]
  split
  · exact h
  · rename_i hk
    refine List.nodup_append.mpr ⟨h, by simp, ?_⟩
    rintro a ha b hb rfl
    exact hk (List.mem_singleton.mp hb ▸ ha)

/-- Of several values for one key that come one after the other to a table where there is none, the first one
stays. -/
theorem lookup_foldl_putNew (rows table : List (κ × α)) (k : κ) :
    List.lookup k (rows.foldl (fun table row => putNew table row.1 row.2) table) =
      (table.lookup k).or (rows.lookup k) := by
  induction rows generalizing table with
  | nil => exact (Option.or_none ..).symm
  | cons row rows ih =>
    obtain ⟨j, v⟩ := row
    rw [List.foldl_cons, ih, lookup_putNew, Option.or_assoc, lookup_cons]
    congr 1
    split
    · exact Option.some_or
    · exact Option.none_or

/-! ### a value is put and taken back -/

/-- A value under a new key is taken back with the key. -/
theorem without_put {table : List (κ × α)} {k : κ} (h : table.lookup k = none) (v : α) :
    without (put table k v) k = table := by
  induction table with
  | nil => simp [put, without]
  | cons p rest ih =>
    obtain ⟨j, w⟩ := p
    rw [lookup_cons] at h
    split at h
    · cases h
    · rename_i hne
      have hj : j ≠ k := Ne.symm hne
      rw [put, if_neg hj]
      exact (List.filter_cons_of_pos (by simpa using hj)).trans (congrArg _ (ih h))

/-- The value that was there is put back. -/
theorem put_put {table : List (κ × α)} {k : κ} {v : α} (h : table.lookup k = some v) (w : α) :
    put (put table k w) k v = table := by
  induction table with
  | nil => cases h
  | cons p rest ih =>
    obtain ⟨j, u⟩ := p
    rw [lookup_cons] at h
    split at h
    · rename_i hk
      subst hk
      obtain rfl := Option.some.inj h
      simp [put]
    · rename_i hne
      have hj : j ≠ k := Ne.symm hne
      rw [put, if_neg hj, put, if_neg hj, ih h]

/-- The value that is there is put again. -/
theorem put_self {table : List (κ × α)} {k : κ} {v : α} (h : table.lookup k = some v) :
    put table k v = table := by
  induction table with
  | nil => cases h
  | cons p rest ih =>
    obtain ⟨j, u⟩ := p
    rw [lookup_cons] at h
    split at h
    · rename_i hk
      subst hk
      obtain rfl := Option.some.inj h
      simp [put]
    · rename_i hne
      have hj : j ≠ k := Ne.symm hne
      rw [put, if_neg hj, ih h]

/-- A new key comes last. -/
theorem put_of_lookup_none {table : List (κ × α)} {k : κ} (h : table.lookup k = none) (v : α) :
    put table k v = table ++ [(k, v)] := by
  induction table with
  | nil => rfl
  | cons p rest ih =>
    obtain ⟨j, w⟩ := p
    rw [lookup_cons] at h
    have hne : ¬ j = k := by
      rintro rfl
      rw [if_pos rfl] at h
      cases h
    rw [if_neg fun hk => hne hk.symm] at h
    rw [put, if_neg hne, ih h, List.cons_append]

/-! ### a table under other keys -/

section

variable {κ' α' : Type} [DecidableEq κ'] {f : κ → κ'} (hf : ∀ j k, f j = f k → j = k) (g : α → α')
  (table : List (κ × α)) (k : κ)

include hf

theorem lookup_mapped : (table.map fun p => (f p.1, g p.2)).lookup (f k) = (table.lookup k).map g := by
  induction table with
  | nil => rfl
  | cons p rest ih =>
    obtain ⟨j, v⟩ := p
    rw [List.map_cons, lookup_cons, lookup_cons, ih]
    by_cases h : k = j
    · rw [if_pos h, if_pos (congrArg f h)]
      rfl
    · rw [if_neg h, if_neg fun he => h (hf k j he)]

theorem put_mapped (v : α) :
    put (table.map fun p => (f p.1, g p.2)) (f k) (g v) = (put table k v).map fun p => (f p.1, g p.2) := by
  induction table with
  | nil => rfl
  | cons p rest ih =>
    obtain ⟨j, w⟩ := p
    rw [List.map_cons, put, put]
    by_cases h : j = k
    · rw [if_pos h, if_pos (congrArg f h), List.map_cons]
    · rw [if_neg h, if_neg fun he => h (hf j k he), List.map_cons, ih]

theorem without_mapped :
    without (table.map fun p => (f p.1, g p.2)) (f k) = (without table k).map fun p => (f p.1, g p.2) := by
  unfold without
  rw [List.filter_map]
  refine congrArg _ (List.filter_congr fun p _ => ?_)
  have hne : f p.1 = f k ↔ p.1 = k := ⟨hf p.1 k, congrArg f⟩
  show (f p.1 != f k) = (p.1 != k)
  rw [Bool.eq_iff_iff, bne_iff_ne, bne_iff_ne, Ne, Ne, hne]

end

end Outfitter.Keyed
