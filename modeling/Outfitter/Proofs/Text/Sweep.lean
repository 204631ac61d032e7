import Outfitter.Proofs.Text.Ends

/-!
Passing through a text.

A pattern that `Consumes` what it reads passes through a text from left to right: it keeps a character from which it
does not read, and it takes a stretch from which it does. What it finds on the way and what becomes of the text are
those of one passage (`sweeps_searchAll`), so facts about both are proved by induction on `Sweeps`. Nothing is
missed: every place from which the pattern reads lies in a stretch that is found (`exists_covering`).
-/

namespace Outfitter.Text.Pattern

variable {p : Pattern} {f : Stretch → List Char} {before text out : List Char} {found : List Found}

/-- The pattern reads at least one character wherever it reads. -/
def Consumes (p : Pattern) : Prop :=
  ∀ a, ¬ p.Reads a a

theorem Begins.consumes {P : Char → Prop} (h : p.Begins P) : p.Consumes := by
  intro a ha
  obtain ⟨c, word, rest, -, hb, -⟩ := h a a ha
  have hlength := congrArg (fun place : Place => place.before.length) hb
  simp [Place.past] at hlength
  omega

/-- Nothing is read at a place, or some characters are. -/
theorem readAt_none_or (h : p.Consumes) (a : Place) : p.readAt a = none ∨
    ∃ s word rest, p.readAt a = some s ∧ word ≠ [] ∧ a.after = word ++ rest ∧ s.first = a ∧
      s.last = a.past word rest := by
  cases hread : p.readAt a with
  | none => exact .inl rfl
  | some s =>
    obtain ⟨hfirst, hreads⟩ := reads_of_readAt hread
    obtain ⟨word, rest, hafter, hlast⟩ := exists_word_of_reads hreads
    refine .inr ⟨s, word, rest, rfl, ?_, hafter, hfirst, hlast⟩
    rintro rfl
    have hsame : s.last = a := by
      rw [hlast, Place.past]
      simp only [List.nil_append] at hafter
      simp [← hafter]
    exact h a (hsame ▸ hreads)

/-- Behind `before` the pattern passes through a text: it finds these stretches, and with each of them replaced this
comes out. -/
inductive Sweeps (p : Pattern) (f : Stretch → List Char) :
    (before text : List Char) → List Found → (out : List Char) → Prop where
  | done {before : List Char} (h : p.readAt ⟨before, []⟩ = none) : Sweeps p f before [] [] []
  | kept {before rest out : List Char} {c : Char} {found : List Found} (h : p.readAt ⟨before, c :: rest⟩ = none)
      (hrest : Sweeps p f (c :: before) rest found out) : Sweeps p f before (c :: rest) found (c :: out)
  | taken {before word rest out : List Char} {s : Found} {found : List Found} (hne : word ≠ [])
      (h : p.readAt ⟨before, word ++ rest⟩ = some s) (hfirst : s.first = ⟨before, word ++ rest⟩)
      (hlast : s.last = ⟨word.reverse ++ before, rest⟩) (hrest : Sweeps p f (word.reverse ++ before) rest found out) :
      Sweeps p f before (word ++ rest) (s :: found) (f s.toStretch ++ out)

/-! ### the passage of a search -/

theorem searchAllFrom_append (word before rest : List Char) :
    p.searchAllFrom word.length before (word ++ rest) = p.searchAllFrom 0 (word.reverse ++ before) rest := by
  induction word generalizing before with
  | nil => rfl
  | cons c word ih =>
    rw [List.cons_append, List.length_cons, searchAllFrom, ih]
    simp

/-- A stretch that is read is found, and the search goes on behind it. -/
theorem searchAllFrom_of_readAt {s : Found} {word before rest : List Char} (hne : word ≠ [])
    (hread : p.readAt ⟨before, word ++ rest⟩ = some s) (hsize : s.size = word.length) :
    p.searchAllFrom 0 before (word ++ rest) = s :: p.searchAllFrom 0 (word.reverse ++ before) rest := by
  obtain ⟨c, word, rfl⟩ := List.exists_cons_of_ne_nil hne
  have hpassed : s.size - 1 = word.length := by simp [hsize]
  rw [List.cons_append] at hread ⊢
  rw [searchAllFrom, hread]
  dsimp only
  rw [hpassed, searchAllFrom_append]
  simp

/-- The size of a stretch from one place to another behind some characters. -/
theorem size_of_past {s : Stretch} {a : Place} {word rest : List Char} (hfirst : s.first = a)
    (hlast : s.last = a.past word rest) : s.start = a.index ∧ s.stop = a.index + word.length := by
  unfold Stretch.start Stretch.stop
  rw [hfirst, hlast]
  simp [Place.index, Place.past, Nat.add_comm]

/-- **Searching and replacing are one passage.** -/
theorem sweeps_from (h : p.Consumes) (f : Stretch → List Char) (before text : List Char) :
    p.Sweeps f before text (p.searchAllFrom 0 before text) (p.replaceFrom f 0 before text) := by
  -- the text becomes shorter by a character or by a stretch
  induction hlength : text.length using Nat.strongRecOn generalizing before text with
  | ind n ih =>
    rcases readAt_none_or h ⟨before, text⟩ with hnone | ⟨s, word, rest, hread, hne, rfl, hfirst, hlast⟩
    · cases text with
      | nil =>
        rw [searchAllFrom, replaceFrom, hnone]
        exact .done hnone
      | cons c rest =>
        rw [searchAllFrom, replaceFrom, hnone]
        exact .kept hnone (ih rest.length (by simp [← hlength]) _ _ rfl)
    · have hsize : s.size = word.length := by
        obtain ⟨hstart, hstop⟩ := size_of_past hfirst hlast
        unfold Stretch.size
        omega
      have hpositive := List.length_pos_iff.mpr hne
      rw [searchAllFrom_of_readAt hne hread hsize, replaceFrom_of_readAt f hne hread hsize]
      refine .taken hne hread hfirst hlast (ih rest.length ?_ _ _ rfl)
      simp only [← hlength, List.length_append]
      omega

theorem sweeps_searchAll (h : p.Consumes) (f : Stretch → List Char) (text : List Char) :
    p.Sweeps f [] text (p.searchAll text) (p.replaceAll f text) :=
  sweeps_from h f [] text

/-- What is found stands behind what has been passed. -/
theorem Sweeps.start_le (h : p.Sweeps f before text found out) {s : Found} (hs : s ∈ found) :
    before.length ≤ s.start := by
  induction h with
  | done => simp at hs
  | kept _ _ ih =>
    have := ih hs
    simp only [List.length_cons] at this
    omega
  | @taken before word rest out t found _ _ hfirst _ _ ih =>
    rcases List.mem_cons.mp hs with rfl | hs
    · simp [Stretch.start, hfirst, Place.index]
    · have := ih hs
      simp only [List.length_append] at this
      omega

/-- A place from which the pattern reads lies in a stretch that is found. -/
theorem Sweeps.exists_covering (h : p.Sweeps f before text found out) {passed rest : List Char}
    (htext : text = passed ++ rest) (hread : p.readAt ⟨passed.reverse ++ before, rest⟩ ≠ none) :
    ∃ s ∈ found, s.start ≤ before.length + passed.length ∧ before.length + passed.length < s.stop := by
  induction h generalizing passed with
  | done h =>
    obtain ⟨rfl, rfl⟩ := List.append_eq_nil_iff.mp htext.symm
    exact absurd h hread
  | kept h _ ih =>
    cases passed with
    | nil =>
      rw [List.nil_append] at htext
      exact absurd (htext ▸ h) hread
    | cons c passed =>
      obtain ⟨rfl, rfl⟩ := List.cons.inj htext
      obtain ⟨s, hs, hstart, hstop⟩ := ih rfl (by simpa using hread)
      simp only [List.length_cons] at hstart hstop ⊢
      exact ⟨s, hs, by omega, by omega⟩
  | @taken before word rest' out t found _ _ hfirst hlast _ ih =>
    obtain ⟨hstart, hstop⟩ := size_of_past hfirst hlast
    simp only [Place.index] at hstart hstop
    by_cases hlength : passed.length < word.length
    · exact ⟨t, by simp, by omega, by omega⟩
    · -- the place lies behind the stretch
      obtain ⟨passed, rfl, rfl⟩ : ∃ more, passed = word ++ more ∧ rest' = more ++ rest := by
        rcases List.append_eq_append_iff.mp htext with ⟨more, hp, hr⟩ | ⟨more, hw, hr⟩
        · exact ⟨more, hp, hr⟩
        · have := congrArg List.length hw
          simp only [List.length_append] at this
          obtain rfl : more = [] := List.eq_nil_of_length_eq_zero (by omega)
          exact ⟨[], by simpa using hw.symm, by simpa using hr.symm⟩
      obtain ⟨s, hs, hstart', hstop'⟩ := ih rfl (by simpa using hread)
      simp only [List.length_append, List.length_reverse] at hstart' hstop' ⊢
      exact ⟨s, by simp [hs], by omega, by omega⟩

/-- **No place from which the pattern reads is missed by a search.** -/
theorem exists_covering (h : p.Consumes) {a b : Place} (hreads : p.Reads a b) :
    ∃ s ∈ p.searchAll a.text, s.start ≤ a.index ∧ a.index < s.stop := by
  have hread : p.readAt ⟨a.before.reverse.reverse ++ [], a.after⟩ ≠ none := by
    have := (isSome_readAt p a).mpr ⟨b, hreads⟩
    simp only [List.reverse_reverse, List.append_nil]
    exact Option.isSome_iff_ne_none.mp this
  have htext : a.text = a.before.reverse ++ a.after := rfl
  obtain ⟨s, hs, hstart, hstop⟩ := (sweeps_searchAll h (fun _ => []) a.text).exists_covering htext hread
  simp only [List.length_nil, List.length_reverse, Nat.zero_add] at hstart hstop
  exact ⟨s, hs, hstart, hstop⟩

end Outfitter.Text.Pattern
