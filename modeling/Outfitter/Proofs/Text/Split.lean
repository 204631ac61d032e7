import Outfitter.Text.Blank

/-!
Texts split at a separator.

Each separator splits a text by itself: the pieces of two texts with a separator between them are the pieces of
the one and then of the other (`splitAt_append_cons`). So texts that are joined by separators are split into the
pieces of every one of them (`splitAt_intercalate`).
-/

namespace Outfitter.Text

variable {separator : Char}

/-! ### one character at a time -/

theorem splitAt_ne_nil (separator : Char) (text : List Char) : splitAt separator text ≠ [] := by
  cases text with
  | nil => exact List.cons_ne_nil _ _
  | cons c rest =>
    unfold splitAt
    split
    · split <;> exact List.cons_ne_nil _ _
    · exact List.cons_ne_nil _ _

theorem splitAt_cons_self (separator : Char) (rest : List Char) :
    splitAt separator (separator :: rest) = [] :: splitAt separator rest := by
  obtain ⟨piece, pieces, hrest⟩ := List.exists_cons_of_ne_nil (splitAt_ne_nil separator rest)
  rw [splitAt, hrest]
  exact if_pos rfl

theorem splitAt_cons_of_ne {c : Char} (h : c ≠ separator) (rest : List Char) :
    splitAt separator (c :: rest) = (splitAt separator rest).modifyHead (c :: ·) := by
  obtain ⟨piece, pieces, hrest⟩ := List.exists_cons_of_ne_nil (splitAt_ne_nil separator rest)
  rw [splitAt, hrest]
  exact if_neg h

/-! ### pieces -/

theorem mem_splitAt {text piece : List Char} (h : piece ∈ splitAt separator text) : separator ∉ piece := by
  induction text generalizing piece with
  | nil =>
    obtain rfl := List.mem_singleton.mp h
    exact List.not_mem_nil
  | cons c rest ih =>
    by_cases hc : c = separator
    · subst hc
      rw [splitAt_cons_self] at h
      rcases List.mem_cons.mp h with rfl | h
      · exact List.not_mem_nil
      · exact ih h
    · obtain ⟨first, pieces, hrest⟩ := List.exists_cons_of_ne_nil (splitAt_ne_nil separator rest)
      rw [splitAt_cons_of_ne hc, hrest, List.modifyHead_cons] at h
      rw [hrest] at ih
      rcases List.mem_cons.mp h with rfl | h
      · exact List.not_mem_cons_of_ne_of_not_mem (Ne.symm hc) (ih (List.mem_cons_self ..))
      · exact ih (List.mem_cons_of_mem _ h)

theorem splitAt_of_not_mem {text : List Char} (h : separator ∉ text) : splitAt separator text = [text] := by
  induction text with
  | nil => rfl
  | cons c rest ih =>
    simp only [List.mem_cons, not_or] at h
    rw [splitAt_cons_of_ne (Ne.symm h.1), ih h.2, List.modifyHead_cons]

/-- The pieces before a separator, and those behind it. -/
theorem splitAt_append_cons (separator : Char) (text rest : List Char) :
    splitAt separator (text ++ separator :: rest) = splitAt separator text ++ splitAt separator rest := by
  induction text with
  | nil => exact splitAt_cons_self separator rest
  | cons c text ih =>
    rw [List.cons_append]
    by_cases hc : c = separator
    · rw [hc, splitAt_cons_self, splitAt_cons_self, ih, List.cons_append]
    · obtain ⟨first, pieces, htext⟩ := List.exists_cons_of_ne_nil (splitAt_ne_nil separator text)
      rw [splitAt_cons_of_ne hc, splitAt_cons_of_ne hc, ih, htext]
      rfl

/-! ### texts joined by separators -/

theorem mem_intercalate {texts : List (List Char)} {c : Char} (h : c ∈ [separator].intercalate texts) :
    c = separator ∨ ∃ text ∈ texts, c ∈ text := by
  induction texts with
  | nil => exact absurd h List.not_mem_nil
  | cons text texts ih =>
    cases texts with
    | nil =>
      rw [List.intercalate_singleton] at h
      exact .inr ⟨text, List.mem_cons_self .., h⟩
    | cons other texts =>
      rw [List.intercalate_cons_cons] at h
      rcases List.mem_append.mp h with h | h
      · rcases List.mem_append.mp h with h | h
        · exact .inr ⟨text, List.mem_cons_self .., h⟩
        · exact .inl (List.mem_singleton.mp h)
      · rcases ih h with h | ⟨u, hu, h⟩
        · exact .inl h
        · exact .inr ⟨u, List.mem_cons_of_mem _ hu, h⟩

/-- The pieces of texts that are joined by separators. -/
theorem splitAt_intercalate {texts : List (List Char)} (h : texts ≠ []) :
    splitAt separator ([separator].intercalate texts) = texts.flatMap (splitAt separator) := by
  induction texts with
  | nil => exact absurd rfl h
  | cons text texts ih =>
    cases texts with
    | nil => rw [List.intercalate_singleton, List.flatMap_singleton]
    | cons other texts =>
      rw [List.intercalate_cons_cons, List.append_assoc, List.singleton_append, splitAt_append_cons,
        ih (List.cons_ne_nil _ _)]
      exact (List.flatMap_cons ..).symm

/-- Texts without separators are split off again. -/
theorem splitAt_intercalate_of_not_mem {texts : List (List Char)} (h : texts ≠ [])
    (hnot : ∀ text ∈ texts, separator ∉ text) : splitAt separator ([separator].intercalate texts) = texts := by
  have hself : texts.flatMap (splitAt separator) = texts := by
    clear h
    induction texts with
    | nil => rfl
    | cons text texts ih =>
      obtain ⟨htext, htexts⟩ := List.forall_mem_cons.mp hnot
      rw [List.flatMap_cons, splitAt_of_not_mem htext, ih htexts, List.singleton_append]
  rw [splitAt_intercalate h, hself]

end Outfitter.Text
