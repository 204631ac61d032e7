import Outfitter.Taxonomy.Dimension

/-!
The phrases of a dimension, and what a scan may find.

The phrases are tried from the longest to the shortest (`pairwise_longestFirst`), and a scan finds tokens of its
dimension only (`mem_tokens_of_find`).
-/

namespace Outfitter.Taxonomy

/-! ### the order of the phrases -/

namespace Entry

theorem mem_insert {e f : Entry} {entries : List Entry} (h : f ∈ insert e entries) :
    f = e ∨ f ∈ entries := by
  induction entries with
  | nil => exact .inl (List.mem_singleton.mp h)
  | cons g rest ih =>
    unfold insert at h
    split at h
    · exact List.mem_cons.mp h
    · rcases List.mem_cons.mp h with rfl | h
      · exact .inr (List.mem_cons_self ..)
      · rcases ih h with rfl | h
        · exact .inl rfl
        · exact .inr (List.mem_cons_of_mem _ h)

theorem mem_longestFirst {e : Entry} {entries : List Entry} (h : e ∈ longestFirst entries) :
    e ∈ entries := by
  induction entries with
  | nil => exact h
  | cons f rest ih =>
    rcases mem_insert h with rfl | h
    · exact List.mem_cons_self ..
    · exact List.mem_cons_of_mem _ (ih h)

/-- The second phrase is not longer than the first. -/
def NoLonger (e f : Entry) : Prop :=
  f.phrase.length ≤ e.phrase.length

theorem pairwise_insert {entries : List Entry} (h : entries.Pairwise NoLonger) (e : Entry) :
    (insert e entries).Pairwise NoLonger := by
  induction entries with
  | nil => exact List.pairwise_singleton _ _
  | cons f rest ih =>
    obtain ⟨hf, hrest⟩ := List.pairwise_cons.mp h
    unfold insert
    split
    · rename_i hlength
      refine List.pairwise_cons.mpr ⟨fun g hg => ?_, h⟩
      rcases List.mem_cons.mp hg with rfl | hg
      · exact hlength
      · exact Nat.le_trans (hf g hg) hlength
    · rename_i hlength
      refine List.pairwise_cons.mpr ⟨fun g hg => ?_, ih hrest⟩
      rcases mem_insert hg with rfl | hg
      · exact Nat.le_of_not_le hlength
      · exact hf g hg

theorem pairwise_longestFirst (entries : List Entry) : (longestFirst entries).Pairwise NoLonger := by
  induction entries with
  | nil => exact .nil
  | cons e rest ih => exact pairwise_insert ih e

end Entry

/-! ### scans -/

theorem Dimension.token_of_entries {d : Dimension} {e : Entry} (h : e ∈ d.entries) : e.token ∈ d.tokens := by
  obtain ⟨⟨token, phrases⟩, hv, he⟩ := List.mem_flatMap.mp (Entry.mem_longestFirst h)
  obtain ⟨phrase, -, rfl⟩ := List.mem_map.mp he
  exact List.mem_map_of_mem hv

theorem Scan.look_hits {s : Scan} {e : Entry} {c : String} (h : c ∈ (s.look e).hits) :
    c ∈ s.hits ∨ c = e.token := by
  unfold look at h
  split at h
  · dsimp only at h
    split at h
    · exact .inl h
    · rcases List.mem_append.mp h with h | h
      · exact .inl h
      · exact .inr (List.mem_singleton.mp h)
  · exact .inl h

theorem Scan.foldl_hits {entries : List Entry} {s : Scan} {c : String} (h : c ∈ (entries.foldl look s).hits) :
    c ∈ s.hits ∨ ∃ e ∈ entries, c = e.token := by
  induction entries generalizing s with
  | nil => exact .inl h
  | cons e rest ih =>
    rcases ih h with h | ⟨f, hf, rfl⟩
    · rcases look_hits h with h | rfl
      · exact .inl h
      · exact .inr ⟨e, List.mem_cons_self .., rfl⟩
    · exact .inr ⟨f, List.mem_cons_of_mem _ hf, rfl⟩

/-- A scan finds tokens of its dimension. -/
theorem Dimension.mem_tokens_of_find {d : Dimension} {text : List Char} {c : String} (h : c ∈ d.find text) :
    c ∈ d.tokens := by
  rcases Scan.foldl_hits h with h | ⟨e, he, rfl⟩
  · cases h
  · exact token_of_entries he

end Outfitter.Taxonomy
