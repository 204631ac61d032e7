import Outfitter.Proofs.Text.Reads

/-!
The parts of what a pattern reads.

Each part that a reading marks is read by one of the patterns of parts, and lies in the text that is
searched (`parts_of_search`, `parts_of_searchAll`). Where the pattern of a part is a run of a class, the
part is a word of the class (`spelled_of_run`).
-/

namespace Outfitter.Text

theorem Place.index_le (p : Place) : p.index ≤ p.text.length := by
  unfold index text
  rw [List.length_append, List.length_reverse]
  omega

namespace Pattern

/-- The patterns of the parts that a pattern marks. -/
def parts : Pattern → List Pattern
  | look _ | one _ | run .. => []
  | seq first second => parts first ++ parts second
  | either preferred other => parts preferred ++ parts other
  | part inner => parts inner ++ [inner]

theorem text_of_reads {p : Pattern} {a b : Place} (h : p.Reads a b) : b.text = a.text := by
  induction p generalizing a b with
  | look => rw [h.1]
  | one accepts =>
    obtain ⟨c, rest, he, -, rfl⟩ := h
    unfold Place.text Place.past
    rw [he]
    simp
  | run accepts least most =>
    obtain ⟨word, rest, he, -, -, -, rfl⟩ := h
    unfold Place.text Place.past
    rw [he]
    simp
  | seq first second ih₁ ih₂ =>
    obtain ⟨m, h₁, h₂⟩ := h
    exact (ih₂ h₂).trans (ih₁ h₁)
  | either preferred other ih₁ ih₂ =>
    rcases h with h | h
    · exact ih₁ h
    · exact ih₂ h
  | part inner ih => exact ih h

theorem text_of_readings {p : Pattern} {r r' : Reading} (h : r' ∈ p.readings r) :
    r'.place.text = r.place.text :=
  text_of_reads ((mem_readings p r r'.place).mp ⟨r', h, rfl⟩)

/-- A stretch of a text that one of the patterns of the parts reads. -/
structure Marks (p : Pattern) (text : List Char) (s : Stretch) : Prop where
  inText : s.last.text = text
  reads : ∃ q ∈ p.parts, q.Reads s.first s.last

theorem Marks.mono {p q : Pattern} {text : List Char} {s : Stretch} (h : p.Marks text s)
    (hsub : ∀ inner ∈ p.parts, inner ∈ q.parts) : q.Marks text s := by
  obtain ⟨inner, hmem, hr⟩ := h.reads
  exact ⟨h.inText, inner, hsub inner hmem, hr⟩

/-- A reading adds only parts that its pattern marks. -/
theorem parts_of_readings {p : Pattern} {r r' : Reading} (h : r' ∈ p.readings r) :
    ∀ s ∈ r'.parts, s ∈ r.parts ∨ p.Marks r.place.text s := by
  induction p generalizing r r' with
  | look holds =>
    unfold readings at h
    split at h
    · rw [List.mem_singleton.mp h]
      exact fun s hs => .inl hs
    · cases h
  | one accepts =>
    unfold readings at h
    split at h
    · cases h
    · split at h
      · rw [List.mem_singleton.mp h]
        exact fun s hs => .inl hs
      · cases h
  | run accepts least most =>
    obtain ⟨place, -, rfl⟩ := List.mem_map.mp h
    exact fun s hs => .inl hs
  | seq first second ih₁ ih₂ =>
    obtain ⟨m, h₁, h₂⟩ := List.mem_flatMap.mp h
    intro s hs
    rcases ih₂ h₂ s hs with hs | hs
    · exact (ih₁ h₁ s hs).imp_right fun hm => hm.mono fun _ => List.mem_append_left _
    · rw [text_of_readings h₁] at hs
      exact .inr (hs.mono fun _ => List.mem_append_right _)
  | either preferred other ih₁ ih₂ =>
    intro s hs
    rcases List.mem_append.mp h with h | h
    · exact (ih₁ h s hs).imp_right fun hm => hm.mono fun _ => List.mem_append_left _
    · exact (ih₂ h s hs).imp_right fun hm => hm.mono fun _ => List.mem_append_right _
  | part inner ih =>
    obtain ⟨m, hm, rfl⟩ := List.mem_map.mp h
    intro s hs
    rcases List.mem_append.mp hs with hs | hs
    · exact (ih hm s hs).imp_right fun hm => hm.mono fun _ => List.mem_append_left _
    · rw [List.mem_singleton.mp hs]
      refine .inr ⟨text_of_readings hm, inner, List.mem_append_right _ (List.mem_singleton.mpr rfl), ?_⟩
      exact (mem_readings inner r m.place).mp ⟨m, hm, rfl⟩

theorem parts_of_readAt {p : Pattern} {a : Place} {found : Found} (h : p.readAt a = some found) :
    ∀ s ∈ found.parts, p.Marks a.text s := by
  obtain ⟨r, hr, rfl⟩ := Option.map_eq_some_iff.mp h
  intro s hs
  exact (parts_of_readings (List.mem_of_head? hr) s hs).resolve_left List.not_mem_nil

/-! ### searches -/

theorem exists_readAt_of_searchFrom {p : Pattern} {before after : List Char} {found : Found}
    (h : p.searchFrom before after = some found) :
    ∃ a : Place, a.text = before.reverse ++ after ∧ p.readAt a = some found := by
  induction after generalizing before with
  | nil => exact ⟨⟨before, []⟩, rfl, h⟩
  | cons c after ih =>
    rcases Option.or_eq_some_iff.mp h with h | ⟨-, h⟩
    · exact ⟨⟨before, c :: after⟩, rfl, h⟩
    · obtain ⟨a, ha, hread⟩ := ih h
      exact ⟨a, by simpa using ha, hread⟩

theorem exists_readAt_of_searchAllFrom {p : Pattern} {skip : Nat} {before after : List Char} {found : Found}
    (h : found ∈ p.searchAllFrom skip before after) :
    ∃ a : Place, a.text = before.reverse ++ after ∧ p.readAt a = some found := by
  have hnext : ∀ {skip c after}, (∀ {skip before}, found ∈ p.searchAllFrom skip before after →
        ∃ a : Place, a.text = before.reverse ++ after ∧ p.readAt a = some found) →
      ∀ {before}, found ∈ p.searchAllFrom skip (c :: before) after →
        ∃ a : Place, a.text = before.reverse ++ c :: after ∧ p.readAt a = some found := by
    intro skip c after ih before h
    obtain ⟨a, ha, hread⟩ := ih h
    exact ⟨a, by simpa using ha, hread⟩
  induction after generalizing skip before with
  | nil =>
    cases skip with
    | zero => exact ⟨⟨before, []⟩, rfl, Option.mem_toList.mp h⟩
    | succ => cases h
  | cons c after ih =>
    cases skip with
    | succ skip => exact hnext ih h
    | zero =>
      unfold searchAllFrom at h
      split at h
      · rename_i other hother
        rcases List.mem_cons.mp h with rfl | h
        · exact ⟨⟨before, c :: after⟩, rfl, hother⟩
        · exact hnext ih h
      · exact hnext ih h

/-- **The parts that are found lie in the text**, and patterns of parts read them. -/
theorem parts_of_search {p : Pattern} {text : List Char} {found : Found} (h : p.search text = some found) :
    ∀ s ∈ found.parts, p.Marks text s := by
  obtain ⟨a, ha, hread⟩ := exists_readAt_of_searchFrom h
  intro s hs
  have := parts_of_readAt hread s hs
  rwa [ha] at this

theorem parts_of_searchAll {p : Pattern} {text : List Char} {found : Found} (h : found ∈ p.searchAll text) :
    ∀ s ∈ found.parts, p.Marks text s := by
  obtain ⟨a, ha, hread⟩ := exists_readAt_of_searchAllFrom h
  intro s hs
  have := parts_of_readAt hread s hs
  rwa [ha] at this

/-- What is read as a part of a text is no longer than the text. -/
theorem size_of_search {p : Pattern} {text : List Char} {found : Found}
    (h : p.search text = some found) : ∀ s ∈ found.parts, s.size ≤ text.length := by
  intro s hs
  have hlast := s.last.index_le
  rw [(parts_of_search h s hs).inText] at hlast
  exact Nat.le_trans (Nat.sub_le ..) hlast

/-! ### runs -/

/-- A part that is a run of a class is a word of the class in the text, as long as the run may be. -/
theorem spelled_of_run {accepts : Char → Bool} {least : Nat} {most : Option Nat} {s : Stretch}
    (h : (run accepts least most).Reads s.first s.last) :
    (run accepts least most).Spells s.text ∧ s.text <:+: s.last.text ∧ s.size = s.text.length := by
  obtain ⟨word, rest, he, ha, hl, hm, hlast⟩ := h
  have hsize : s.size = word.length := by
    show s.last.before.length - s.first.before.length = _
    rw [hlast]
    show (word.reverse ++ s.first.before).length - _ = _
    rw [List.length_append, List.length_reverse, Nat.add_sub_cancel]
  have htext : s.text = word := by
    show s.first.after.take s.size = word
    rw [he, hsize, List.take_left]
  rw [htext]
  refine ⟨⟨ha, hl, hm⟩, ⟨s.first.before.reverse, rest, ?_⟩, hsize⟩
  rw [hlast]
  show _ = (word.reverse ++ s.first.before).reverse ++ rest
  rw [List.reverse_append, List.reverse_reverse]

end Pattern

end Outfitter.Text
