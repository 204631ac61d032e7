import Outfitter.Proofs.Value.Fields

/-!
Lists of texts, each once.

Whatever is gathered without repetition is gathered in the same way: `firsts` adds the texts of a list that
are not there yet.
-/

namespace Outfitter

/-- Some texts, and behind them those of a list that are not among them, each once. -/
def firsts (kept xs : List String) : List String :=
  xs.foldl (fun kept c => if c ∈ kept then kept else kept ++ [c]) kept

theorem firsts_cons (kept : List String) (x : String) (xs : List String) :
    firsts kept (x :: xs) = firsts (if x ∈ kept then kept else kept ++ [x]) xs :=
  rfl

theorem mem_firsts {kept xs : List String} {c : String} : c ∈ firsts kept xs ↔ c ∈ kept ∨ c ∈ xs := by
  induction xs generalizing kept with
  | nil => simp [firsts]
  | cons x xs ih =>
    rw [firsts_cons, ih, List.mem_cons]
    by_cases hx : x ∈ kept
    · rw [if_pos hx]
      constructor
      · rintro (h | h)
        · exact .inl h
        · exact .inr (.inr h)
      · rintro (h | rfl | h)
        · exact .inl h
        · exact .inl hx
        · exact .inr h
    · rw [if_neg hx, List.mem_append, List.mem_singleton, or_assoc]

theorem nodup_firsts {kept xs : List String} (h : kept.Nodup) : (firsts kept xs).Nodup := by
  induction xs generalizing kept with
  | nil => exact h
  | cons x xs ih =>
    have hnext : (if x ∈ kept then kept else kept ++ [x]).Nodup := by
      split
      · exact h
      · rename_i hx
        refine List.nodup_append.mpr ⟨h, by simp, ?_⟩
        rintro a ha b hb rfl
        exact hx (List.mem_singleton.mp hb ▸ ha)
    exact ih hnext

/-- What is there stays at the front. -/
theorem prefix_firsts (kept xs : List String) : kept <+: firsts kept xs := by
  induction xs generalizing kept with
  | nil => exact List.prefix_refl kept
  | cons x xs ih =>
    rw [firsts_cons]
    split
    · exact ih kept
    · exact (List.prefix_append kept [x]).trans (ih _)

/-- New texts that differ are all added. -/
theorem firsts_of_nodup {kept xs : List String} (h : (kept ++ xs).Nodup) : firsts kept xs = kept ++ xs := by
  induction xs generalizing kept with
  | nil => exact (List.append_nil kept).symm
  | cons x xs ih =>
    have hx : x ∉ kept := fun hk => (List.nodup_append.mp h).2.2 x hk x (List.mem_cons_self ..) rfl
    rw [firsts_cons, if_neg hx, ih (by simpa using h)]
    simp

/-- Texts that are there are not added. -/
theorem firsts_of_subset {kept xs : List String} (h : ∀ c ∈ xs, c ∈ kept) : firsts kept xs = kept := by
  induction xs generalizing kept with
  | nil => rfl
  | cons x xs ih =>
    rw [firsts_cons, if_pos (h x (List.mem_cons_self ..))]
    exact ih fun c hc => h c (List.mem_cons_of_mem _ hc)

/-- Looking for first occurrences and filtering may change places. -/
theorem filter_firsts (p : String → Bool) (kept xs : List String) :
    (firsts kept xs).filter p = firsts (kept.filter p) (xs.filter p) := by
  induction xs generalizing kept with
  | nil => rfl
  | cons x xs ih =>
    rw [firsts_cons, ih]
    cases hp : p x with
    | false =>
      have hnot : ¬p x = true := ne_true_of_eq_false hp
      rw [List.filter_cons_of_neg hnot]
      split
      · rfl
      · rw [List.filter_append, List.filter_cons_of_neg hnot, List.filter_nil, List.append_nil]
    | true =>
      have hmem : x ∈ kept.filter p ↔ x ∈ kept := by
        rw [List.mem_filter, and_iff_left hp]
      rw [List.filter_cons_of_pos hp, firsts_cons]
      simp only [hmem]
      split
      · rfl
      · rw [List.filter_append, List.filter_cons_of_pos hp, List.filter_nil]

theorem firsts_nil {xs : List String} (h : xs.Nodup) : firsts [] xs = xs :=
  firsts_of_nodup h

theorem firsts_eq (kept xs : List String) : firsts kept xs = kept ++ (xs.filter (· ∉ kept)).eraseDups := by
  induction xs generalizing kept with
  | nil => exact (List.append_nil kept).symm
  | cons x xs ih =>
    rw [firsts_cons, ih]
    by_cases hx : x ∈ kept
    · rw [if_pos hx, List.filter_cons_of_neg (by simpa using hx)]
    · rw [if_neg hx, List.filter_cons_of_pos (by simpa using hx), List.eraseDups_cons, List.filter_filter,
        List.append_assoc, List.singleton_append]
      congr 4
      funext y
      rw [Bool.eq_iff_iff]
      simp [and_comm]

/-- Every text of a list once, where it comes first. -/
theorem firsts_nil_eq (xs : List String) : firsts [] xs = xs.eraseDups := by
  rw [firsts_eq, List.filter_eq_self.mpr (by simp), List.nil_append]

namespace Value

theorem isIn_texts (x : String) (xs : List String) : (str x).isIn (xs.map str) = decide (x ∈ xs) := by
  unfold isIn
  rw [List.any_map, Bool.eq_iff_iff, List.any_eq_true, decide_eq_true_iff]
  constructor
  · rintro ⟨y, hy, h⟩
    have : x = y := eq_of_beq h
    exact this ▸ hy
  · intro h
    exact ⟨x, h, beq_self_eq_true x⟩

theorem distinct_texts (xs : List String) : distinct (xs.map str) = (firsts [] xs).map str := by
  have hfold : ∀ kept : List String, (xs.map str).foldl
      (fun kept v => if v.isIn kept then kept else kept ++ [v]) (kept.map str) =
        (firsts kept xs).map str := by
    induction xs with
    | nil => exact fun _ => rfl
    | cons x xs ih =>
      intro kept
      rw [List.map_cons, List.foldl_cons, isIn_texts]
      by_cases hx : x ∈ kept
      · rw [decide_eq_true hx, if_pos rfl, ih, firsts_cons, if_pos hx]
      · rw [decide_eq_false hx, if_neg Bool.false_ne_true]
        have := ih (kept ++ [x])
        rw [List.map_append] at this
        refine this.trans ?_
        rw [firsts_cons, if_neg hx]
  exact hfold []

end Value

namespace Filters

theorem distinctFrom_cons_str (seen : List Value) (text : String) (vs : List Value) :
    distinctFrom seen (.str text :: vs) = if (Value.str text).isIn seen then distinctFrom seen vs
      else .str text :: distinctFrom (.str text :: seen) vs :=
  rfl

theorem isIn_cons_str (s t : String) (seen : List Value) :
    (Value.str s).isIn (.str t :: seen) = (s == t || (Value.str s).isIn seen) :=
  rfl

/-- A list of texts without repetitions, as payloads are freed of them. -/
theorem distinct_texts (xs : List String) : distinct (xs.map .str) = (firsts [] xs).map .str := by
  -- the keys seen are the texts kept, in any order
  have hfrom : ∀ (kept : List String) (seen : List Value), (∀ x, (Value.str x).isIn seen = decide (x ∈ kept)) →
      kept.map .str ++ distinctFrom seen (xs.map .str) = (firsts kept xs).map .str := by
    induction xs with
    | nil => exact fun kept _ _ => List.append_nil _
    | cons x xs ih =>
      intro kept seen hseen
      rw [List.map_cons, distinctFrom_cons_str, hseen, firsts_cons]
      by_cases hx : x ∈ kept
      · rw [decide_eq_true hx, if_pos rfl, if_pos hx]
        exact ih kept seen hseen
      · rw [decide_eq_false hx, if_neg Bool.false_ne_true, if_neg hx]
        have := ih (kept ++ [x]) (.str x :: seen) fun y => ?_
        · rw [List.map_append, List.append_assoc] at this
          exact this
        · rw [isIn_cons_str, hseen, Bool.eq_iff_iff]
          simp [or_comm]
  exact hfrom [] [] fun x => rfl

end Filters

end Outfitter
