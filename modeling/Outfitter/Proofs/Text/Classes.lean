import Outfitter.Proofs.Text.Phrase

/-!
How classes of characters lie to each other.

Digits are word characters (`isWord_of_isDigit`), and a character is one exactly if its small letter is
(`isWord_smallLetter`). The classes are tables of ranges; a row of spans is compared with a table in one walk
(`within`).
-/

namespace Outfitter.Text

/-! ### spans within ranges -/

/-- Every span lies in one of the ranges, where both are in increasing order. -/
def within : (spans ranges : List (Nat × Nat)) → Bool
  | [], _ => true
  | span :: spans, ranges =>
    let rest := ranges.dropWhile fun range => range.2.blt span.2
    rest.head?.any (fun range => range.1.ble span.1) && within spans rest

theorem exists_of_within {spans ranges : List (Nat × Nat)} (h : within spans ranges = true) :
    ∀ span ∈ spans, ∃ range ∈ ranges, range.1 ≤ span.1 ∧ span.2 ≤ range.2 := by
  induction spans generalizing ranges with
  | nil => exact nofun
  | cons span spans ih =>
    unfold within at h
    rw [Bool.and_eq_true, Option.any_eq_true] at h
    obtain ⟨⟨range, hrange, hlow⟩, hrest⟩ := h
    have hsub : ∀ r ∈ ranges.dropWhile fun range => range.2.blt span.2, r ∈ ranges :=
      fun r hr => (List.dropWhile_sublist _).mem hr
    refine List.forall_mem_cons.mpr ⟨⟨range, hsub _ (List.mem_of_head? hrange), Nat.le_of_ble_eq_true hlow, ?_⟩, ?_⟩
    · have hstop := List.head?_dropWhile_not (fun range : Nat × Nat => range.2.blt span.2) ranges
      rw [hrange] at hstop
      exact Nat.le_of_not_lt fun hlt => Bool.false_ne_true (hstop.symm.trans (Nat.blt_eq.mpr hlt))
    · intro other hother
      obtain ⟨r, hr, hle⟩ := ih hrest other hother
      exact ⟨r, hsub r hr, hle⟩

/-- In ranges in increasing order a number is found that lies in one of them. -/
theorem inRanges_of_mem {ranges : List (Nat × Nat)} (hsorted : ranges.Pairwise fun r s => r.1 ≤ s.1)
    {range : Nat × Nat} (hmem : range ∈ ranges) {n : Nat} (hlow : range.1 ≤ n) (hhigh : n ≤ range.2) :
    inRanges n ranges = true := by
  induction ranges with
  | nil => cases hmem
  | cons r ranges ih =>
    obtain ⟨hfirst, hrest⟩ := List.pairwise_cons.mp hsorted
    obtain ⟨low, high⟩ := r
    unfold inRanges
    rcases List.mem_cons.mp hmem with rfl | hmem
    · simp [Nat.not_lt.mpr hlow, hhigh]
    · have := hfirst range hmem
      dsimp only at this
      rw [if_neg (by omega), ih hrest hmem, Bool.or_true]

/-- No range has a number of the span. -/
def outside (first last : Nat) : List (Nat × Nat) → Bool
  | [] => true
  | range :: ranges => last.blt range.1 || range.2.blt first && outside first last ranges

theorem not_inRanges_of_outside {first last n : Nat} {ranges : List (Nat × Nat)}
    (h : outside first last ranges = true) (hfirst : first ≤ n) (hlast : n ≤ last) : inRanges n ranges = false := by
  induction ranges with
  | nil => rfl
  | cons range ranges ih =>
    obtain ⟨low, high⟩ := range
    unfold outside at h
    unfold inRanges
    simp only [Bool.or_eq_true, Bool.and_eq_true, Nat.blt_eq] at h
    rcases h with h | ⟨hhigh, h⟩
    · rw [if_pos (by omega)]
    · rw [ih h]
      simp
      omega

/-! ### word characters -/

/-- Letters and digits of ASCII have small numbers. -/
theorem le_of_isAlphanum {c : Char} (h : c.isAlphanum = true) : c.toNat ≤ 127 := by
  -- each of the three classes ends with a character of ASCII
  have hle : ∀ {last : Char}, c.val ≤ last.val → last.toNat ≤ 127 → c.toNat ≤ 127 :=
    fun h hlast => Nat.le_trans (UInt32.le_iff_toNat_le.mp h) hlast
  rcases Bool.or_eq_true_iff.mp h with h | hdigit
  · rcases Bool.or_eq_true_iff.mp h with hupper | hlower
    · exact hle (of_decide_eq_true hupper).2 (by decide)
    · exact hle (of_decide_eq_true (Bool.and_eq_true_iff.mp hlower).2) (by decide)
  · exact hle (of_decide_eq_true (Bool.and_eq_true_iff.mp hdigit).2) (by decide)

theorem isWord_eq_inRanges {c : Char} (h : 127 < c.toNat) : isWord c = inRanges c.toNat wordRanges := by
  have hplain : c.isAlphanum = false :=
    Bool.eq_false_iff.mpr fun hplain => absurd (le_of_isAlphanum hplain) (Nat.not_le_of_lt h)
  have hline : (c == '_') = false := by
    refine beq_eq_false_iff_ne.mpr ?_
    rintro rfl
    exact absurd h (by decide)
  unfold isWord
  rw [hplain, hline, decide_eq_true h]
  rfl

namespace CaseRun

/-- The letters of a run, each by itself if they are few. -/
def spans (run : CaseRun) : List (Nat × Nat) :=
  if (run.last - run.first).ble 8 then
    ((List.range (run.last - run.first + 1)).filter fun k => k % run.step == 0).map fun k =>
      (run.first + k, run.first + k)
  else [(run.first, run.last)]

theorem mem_spans {run : CaseRun} {n : Nat} (hfirst : run.first ≤ n) (hlast : n ≤ run.last)
    (hstep : (n - run.first) % run.step = 0) : ∃ span ∈ run.spans, span.1 ≤ n ∧ n ≤ span.2 := by
  unfold spans
  split
  · refine ⟨(n, n), List.mem_map.mpr ⟨n - run.first, ?_, by simp; omega⟩, Nat.le_refl n, Nat.le_refl n⟩
    simp only [List.mem_filter, List.mem_range, beq_iff_eq, hstep, and_true]
    omega
  · exact ⟨_, List.mem_singleton.mpr rfl, hfirst, hlast⟩

/-- A span of capitals, moved to their small letters. -/
def moved (run : CaseRun) (span : Nat × Nat) : Nat × Nat :=
  ((span.1 + run.distance).toNat, (span.2 + run.distance).toNat)

/-- The letters of the run and their small letters lie beyond ASCII, and are no letters in circles. -/
def isPlain (run : CaseRun) : Bool :=
  (128).ble run.first && decide (128 ≤ run.first + run.distance) && run.first != 9398

/-- The spans with one more, before the first that does not end before it. -/
def insertSpan (span : Nat × Nat) : List (Nat × Nat) → List (Nat × Nat)
  | [] => [span]
  | other :: spans => if span.2.ble other.2 then span :: other :: spans else other :: insertSpan span spans

theorem mem_insertSpan {span other : Nat × Nat} {spans : List (Nat × Nat)} (h : other = span ∨ other ∈ spans) :
    other ∈ insertSpan span spans := by
  induction spans with
  | nil => simpa [insertSpan] using h
  | cons first spans ih =>
    unfold insertSpan
    split
    · exact List.mem_cons.mpr h
    · rcases h with rfl | h
      · exact List.mem_cons_of_mem _ (ih (.inl rfl))
      · rcases List.mem_cons.mp h with rfl | h
        · exact List.mem_cons_self ..
        · exact List.mem_cons_of_mem _ (ih (.inr h))

theorem mem_foldr_insertSpan {span : Nat × Nat} {spans : List (Nat × Nat)} (h : span ∈ spans) :
    span ∈ spans.foldr insertSpan [] := by
  induction spans with
  | nil => cases h
  | cons first spans ih => exact mem_insertSpan ((List.mem_cons.mp h).imp_right ih)

end CaseRun

open CaseRun in
/-- The tables: digits, capitals and small letters beyond ASCII are word characters, but letters in circles are
not; and small letters are characters. -/
theorem wordRanges_facts :
    wordRanges.IsChain (fun r s => r.1 ≤ s.1) ∧
    within ((digitZeros.drop 1).map fun z => (z, z + 9)) wordRanges = true ∧
    within ((caseRuns.filter isPlain).flatMap spans) wordRanges = true ∧
    within (((caseRuns.filter isPlain).flatMap fun run => run.spans.map run.moved).foldr insertSpan []) wordRanges =
      true ∧
    outside 9398 9449 wordRanges = true ∧
    ∀ run ∈ caseRuns, run.last ≤ 127 ∨ run.last + run.distance < 55296 ∧
      (run.isPlain = true ∨ run.first = 9398 ∧ run.last = 9423 ∧ run.distance = 26 ∨
        run.first = run.last ∧ inRanges run.first wordRanges = true ∧ 127 < run.first ∧
          isWord (Char.ofNat (run.first + run.distance).toNat) = true) ∨
      57344 ≤ run.first + run.distance ∧ run.last + run.distance < 1114112 ∧ run.isPlain = true := by
  decide +kernel

theorem inRanges_of_span {span range : Nat × Nat} (hmem : range ∈ wordRanges)
    (hle : range.1 ≤ span.1 ∧ span.2 ≤ range.2) {n : Nat} (hlow : span.1 ≤ n) (hhigh : n ≤ span.2) :
    inRanges n wordRanges = true := by
  have htrans : Trans (fun r s : Nat × Nat => r.1 ≤ s.1) (fun r s : Nat × Nat => r.1 ≤ s.1)
      (fun r s : Nat × Nat => r.1 ≤ s.1) := ⟨Nat.le_trans⟩
  exact inRanges_of_mem (List.isChain_iff_pairwise.mp wordRanges_facts.1) hmem (by omega) (by omega)

/-- **Digits of every script are word characters.** -/
theorem isWord_of_isDigit {c : Char} (h : isDigit c = true) : isWord c = true := by
  obtain ⟨z, hz, hle, hlt⟩ := exists_zero_of_isDigit h
  have hzeros : digitZeros = 48 :: digitZeros.drop 1 := rfl
  rw [hzeros] at hz
  rcases List.mem_cons.mp hz with rfl | hz
  · have hascii : ∀ k < 10, isWord (Char.ofNat (48 + k)) = true := by decide
    have hdigit := hascii (c.toNat - 48) (by omega)
    rwa [Nat.add_sub_of_le hle, Char.ofNat_toNat] at hdigit
  · have hbeyond : ∀ z ∈ digitZeros.drop 1, 127 < z := by decide
    obtain ⟨range, hmem, hrange⟩ := exists_of_within wordRanges_facts.2.1 _ (List.mem_map.mpr ⟨z, hz, rfl⟩)
    have := hbeyond z hz
    exact isWord_of_inRanges (inRanges_of_span hmem hrange hle (by omega)) (by omega)

theorem isWord_toLower : ∀ n < 128, isWord (Char.ofNat n).toLower = isWord (Char.ofNat n) := by
  decide +kernel

/-- The number of a small letter is that of a character. -/
theorem toNat_ofNat_of_run {run : CaseRun} (hrun : run ∈ caseRuns) {n : Nat} (hfirst : run.first ≤ n)
    (hlast : n ≤ run.last) (hbeyond : 127 < n) :
    (Char.ofNat (n + run.distance).toNat).toNat = (n + run.distance).toNat := by
  suffices hvalid : (n + run.distance).toNat.isValidChar from congrArg Char.toNat (dif_pos hvalid)
  rcases wordRanges_facts.2.2.2.2.2 run hrun with h | ⟨h, -⟩ | ⟨h, h', -⟩
  · omega
  · exact .inl (by omega)
  · exact .inr ⟨by omega, by omega⟩

/-- A plain letter is a word character, and so is its small letter. -/
theorem inRanges_of_isPlain {run : CaseRun} (hrun : run ∈ caseRuns) (hplain : run.isPlain = true) {n : Nat}
    (hfirst : run.first ≤ n) (hlast : n ≤ run.last) (hstep : (n - run.first) % run.step = 0) :
    inRanges n wordRanges = true ∧ inRanges (n + run.distance).toNat wordRanges = true := by
  obtain ⟨-, -, hcapitals, hsmall, -⟩ := wordRanges_facts
  have hmem : run ∈ caseRuns.filter CaseRun.isPlain := List.mem_filter.mpr ⟨hrun, hplain⟩
  obtain ⟨span, hspan, hlow, hhigh⟩ := CaseRun.mem_spans hfirst hlast hstep
  constructor
  · obtain ⟨range, hrange, hle⟩ := exists_of_within hcapitals span (List.mem_flatMap.mpr ⟨run, hmem, hspan⟩)
    exact inRanges_of_span hrange hle hlow hhigh
  · have himage : run.moved span ∈ (caseRuns.filter CaseRun.isPlain).flatMap fun run => run.spans.map run.moved :=
      List.mem_flatMap.mpr ⟨run, hmem, List.mem_map.mpr ⟨span, hspan, rfl⟩⟩
    obtain ⟨range, hrange, hle⟩ := exists_of_within hsmall _ (CaseRun.mem_foldr_insertSpan himage)
    unfold CaseRun.moved at hle
    exact inRanges_of_span hrange hle (by dsimp only; omega) (by dsimp only; omega)

/-- **A letter is a word character exactly if its small letter is.** -/
theorem isWord_smallLetter (c : Char) : isWord (smallLetter c) = isWord c := by
  unfold smallLetter
  split
  · rename_i hascii
    have hlower := isWord_toLower c.toNat (by omega)
    rwa [Char.ofNat_toNat] at hlower
  · rename_i hbeyond
    have hbeyond := Nat.lt_of_not_le hbeyond
    rcases convert_cases c.toNat caseRuns with he | ⟨run, hrun, hfirst, hlast, hstep, he⟩
    · rw [he, Char.ofNat_toNat]
    · have hvalue := toNat_ofNat_of_run hrun hfirst hlast hbeyond
      have hplain : run.isPlain = true → isWord (Char.ofNat (c.toNat + run.distance).toNat) = isWord c := by
        intro hplain
        obtain ⟨hcapital, hsmall⟩ := inRanges_of_isPlain hrun hplain hfirst hlast hstep
        simp only [CaseRun.isPlain, Bool.and_eq_true, decide_eq_true_eq] at hplain
        rw [← hvalue] at hsmall
        rw [isWord_of_inRanges hcapital hbeyond, isWord_of_inRanges hsmall (by omega)]
      rw [he]
      rcases wordRanges_facts.2.2.2.2.2 run hrun with
        h | ⟨-, h | ⟨hcircle, hend, hdistance⟩ | ⟨hone, hword, -, hsmall⟩⟩ | ⟨-, -, h⟩
      · omega
      · exact hplain h
      · -- letters in circles
        have houtside := wordRanges_facts.2.2.2.2.1
        rw [isWord_eq_inRanges (by omega), isWord_eq_inRanges hbeyond,
          not_inRanges_of_outside houtside (by omega) (by omega),
          not_inRanges_of_outside houtside (by omega) (by omega)]
      · have hn : c.toNat = run.first := by omega
        rw [hn, hsmall, isWord_of_inRanges (hn ▸ hword) hbeyond]
      · exact hplain h

end Outfitter.Text
