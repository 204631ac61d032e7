import Outfitter.Proofs.Text.Runs
import Outfitter.Proofs.Text.Split

/-!
Cleaned text is clean.

The small letter of a character is a small letter (`smallLetter_smallLetter`), for no run of capitals holds the
small letters of another one. So a text in lower case stays as it is in lower case, words with one space
between them are found again (`words_intercalate`), and cleaning twice is cleaning once (`clean_clean`).
Cleaning brings no comma (`comma_of_clean`), and leaves no blank at the ends (`trimmed_clean`).
-/

namespace Outfitter.Text

/-! ### small letters -/

/-- No number from the first to the last, in this step, is a capital of the runs. -/
def CaseRun.passBetween (first last step : Nat) : List CaseRun → Bool
  | [] => true
  | run :: runs =>
    bif last.blt run.first then true
    else bif run.last.blt first then CaseRun.passBetween first last step runs
    else run.step == 2 && (step == 2 || first == last) && (first + run.first) % 2 == 1 &&
      CaseRun.passBetween first last step runs

/-- A number that the runs pass stays as it is. -/
theorem convert_of_passBetween {first last step n : Nat} {runs : List CaseRun}
    (h : CaseRun.passBetween first last step runs = true) (hfirst : first ≤ n) (hlast : n ≤ last)
    (hstep : (n - first) % step = 0) : CaseRun.convert n runs = n := by
  induction runs with
  | nil => rfl
  | cons run runs ih =>
    unfold CaseRun.passBetween at h
    unfold CaseRun.convert
    split
    · rfl
    rename_i hge
    have hafter : last.blt run.first = false := by
      rw [Bool.eq_false_iff, ne_eq, Nat.blt_eq]
      omega
    rw [hafter, cond_false] at h
    cases hbefore : run.last.blt first with
    | true =>
      rw [hbefore, cond_true] at h
      rw [Nat.blt_eq] at hbefore
      rw [if_neg (by omega)]
      exact ih h
    | false =>
      -- the number may lie within the run, but then it lies between two of the capitals
      rw [hbefore, cond_false] at h
      simp only [Bool.and_eq_true, Bool.or_eq_true, beq_iff_eq] at h
      obtain ⟨⟨⟨htwo, hodd⟩, hparity⟩, hrest⟩ := h
      split
      · have hn : (n - first) % 2 = 0 := by
          rcases hodd with hodd | hodd
          · rw [← hodd]
            exact hstep
          · omega
        rw [htwo, if_neg (by omega)]
      · exact ih hrest

/-- No small letter of a run is a capital. -/
theorem caseRuns_passBetween : ∀ run ∈ caseRuns, CaseRun.passBetween (run.first + run.distance).toNat
    (run.last + run.distance).toNat run.step caseRuns = true := by
  decide +kernel

theorem convert_convert (n : Nat) :
    CaseRun.convert (CaseRun.convert n caseRuns) caseRuns = CaseRun.convert n caseRuns := by
  rcases convert_cases n caseRuns with he | ⟨run, hrun, hfirst, hlast, hstep, he⟩
  · rw [he]
    exact he
  · have habove := (caseRuns_apart run hrun).1
    rw [he]
    refine convert_of_passBetween (caseRuns_passBetween run hrun) (by omega) (by omega) ?_
    rw [← hstep]
    congr 1
    omega

/-- **The small letter of a character is a small letter.** -/
theorem smallLetter_smallLetter (c : Char) : smallLetter (smallLetter c) = smallLetter c := by
  by_cases hc : c.toNat ≤ 127
  · obtain ⟨htwice, hascii, -⟩ := toLower_facts c.toNat (by omega)
    rw [Char.ofNat_toNat] at htwice hascii
    have he : smallLetter c = c.toLower := if_pos hc
    rw [he]
    unfold smallLetter
    rw [if_pos hascii]
    exact htwice
  · have he : smallLetter c = Char.ofNat (CaseRun.convert c.toNat caseRuns) := if_neg hc
    have hfixed := convert_convert c.toNat
    rw [he]
    generalize CaseRun.convert c.toNat caseRuns = m at hfixed
    rcases toNat_ofNat_cases m with hm | hm
    · unfold smallLetter
      rw [hm]
      split
      · exact (toLower_facts m (by omega)).2.2.2 hfixed
      · rw [hfixed]
    · have hnull : Char.ofNat m = Char.ofNat 0 := by
        rw [← Char.ofNat_toNat (Char.ofNat m), hm]
      rw [hnull]
      rfl

/-- No character becomes a comma in lower case. -/
theorem comma_of_smallLetter {c : Char} (h : smallLetter c = ',') : c = ',' := by
  have hcomma : ','.toNat = 44 := rfl
  unfold smallLetter at h
  split at h
  · obtain ⟨-, -, hcase, -⟩ := toLower_facts c.toNat (by omega)
    rw [Char.ofNat_toNat, h] at hcase
    exact (hcase.resolve_right (by omega)).symm
  · have hvalue := toNat_ofNat_cases (CaseRun.convert c.toNat caseRuns)
    rw [h] at hvalue
    rcases convert_cases c.toNat caseRuns with he | ⟨run, hrun, hfirst, -, -, he⟩
    · omega
    · have := (caseRuns_apart run hrun).1
      omega

/-- The character is its own lower case. -/
def IsSmall (c : Char) : Prop :=
  c ≠ 'Σ' ∧ lowerOne c = [c]

theorem isSmall_smallLetter (c : Char) : IsSmall (smallLetter c) := by
  obtain ⟨hsigma, -, hdotted⟩ := smallLetter_special
  have htwice := smallLetter_smallLetter c
  generalize smallLetter c = d at htwice
  refine ⟨?_, ?_⟩
  · rintro rfl
    rw [hsigma] at htwice
    cases htwice
  · unfold lowerOne
    rw [if_neg, htwice]
    rintro rfl
    rw [hdotted] at htwice
    cases htwice

/-- No character is without a small form. -/
theorem lower_eq_nil {text : List Char} : lower text = [] ↔ text = [] := by
  constructor
  · intro h
    have hlowers := lowers_lower text
    rw [h] at hlowers
    cases hlowers
    rfl
  · rintro rfl
    rfl

/-- What holds of the small letters of a text, of the final sigma, and of the dot that a dotted capital I keeps, holds
of the text in lower case. -/
theorem Lowers.forall_mem {P : Char → Prop} {text small : List Char} (h : Lowers text small) (hfinal : P 'ς')
    (hdot : P '\u0307') (hsmall : ∀ c ∈ text, P (smallLetter c)) : ∀ d ∈ small, P d := by
  induction h with
  | nil => exact fun _ hd => absurd hd List.not_mem_nil
  | letter _ _ ih =>
    obtain ⟨hc, hrest⟩ := List.forall_mem_cons.mp hsmall
    exact List.forall_mem_cons.mpr ⟨hc, ih hrest⟩
  | final _ ih => exact List.forall_mem_cons.mpr ⟨hfinal, ih (List.forall_mem_cons.mp hsmall).2⟩
  | dotted _ ih =>
    obtain ⟨hc, hrest⟩ := List.forall_mem_cons.mp hsmall
    rw [smallLetter_special.2.2] at hc
    exact List.forall_mem_cons.mpr ⟨hc, List.forall_mem_cons.mpr ⟨hdot, ih hrest⟩⟩

theorem isSmall_lower (text : List Char) : ∀ d ∈ lower text, IsSmall d := by
  have hfinal : IsSmall 'ς' := smallLetter_special.2.1 ▸ isSmall_smallLetter 'ς'
  have hdot : IsSmall '\u0307' := ⟨by decide, rfl⟩
  exact (lowers_lower text).forall_mem hfinal hdot fun c _ => isSmall_smallLetter c

/-- Small letters stay as they are. -/
theorem lower_of_isSmall {text : List Char} (h : ∀ c ∈ text, IsSmall c) : lower text = text := by
  have hfrom : ∀ afterLetter, lowerFrom afterLetter text = text := by
    induction text with
    | nil => exact fun _ => rfl
    | cons c rest ih =>
      obtain ⟨⟨hsigma, hlower⟩, hrest⟩ := List.forall_mem_cons.mp h
      intro afterLetter
      unfold lowerFrom
      rw [if_neg hsigma, hlower, ih hrest]
      rfl
  exact hfrom false

/-! ### words -/

/-- Words have characters, none of them a blank, and only such as are in the text. -/
theorem mem_words {text w : List Char} (h : w ∈ words text) :
    w ≠ [] ∧ ∀ c ∈ w, isBlank c = false ∧ c ∈ text := by
  induction text using blank_induction with
  | nil => cases h
  | word v hne hv =>
    rw [words_of_word hne hv] at h
    obtain rfl := List.mem_singleton.mp h
    exact ⟨hne, fun c hc => ⟨hv c hc, hc⟩⟩
  | blank text b rest hb iht ihr =>
    rw [words_append_cons hb] at h
    rcases List.mem_append.mp h with h | h
    · obtain ⟨hne, hchars⟩ := iht h
      exact ⟨hne, fun c hc => ⟨(hchars c hc).1, List.mem_append_left _ (hchars c hc).2⟩⟩
    · obtain ⟨hne, hchars⟩ := ihr h
      exact ⟨hne, fun c hc =>
        ⟨(hchars c hc).1, List.mem_append_right _ (List.mem_cons_of_mem _ (hchars c hc).2)⟩⟩

/-- Words with one space between any two of them are found again. -/
theorem words_intercalate {ws : List (List Char)} (h : ∀ w ∈ ws, w ≠ [] ∧ ∀ c ∈ w, isBlank c = false) :
    words ([' '].intercalate ws) = ws := by
  induction ws with
  | nil => rfl
  | cons w ws ih =>
    obtain ⟨⟨hne, hw⟩, hws⟩ := List.forall_mem_cons.mp h
    cases ws with
    | nil => rw [List.intercalate_singleton, words_of_word hne hw]
    | cons v vs =>
      have hspace : isBlank ' ' = true := rfl
      rw [List.intercalate_cons_cons, List.append_assoc, List.singleton_append, words_append_cons hspace,
        words_of_word hne hw, ih hws, List.singleton_append]

/-- Collapsing a text leaves its words as they are. -/
theorem words_collapse (text : List Char) : words (collapse text) = words text :=
  words_intercalate fun _ hw => ⟨(mem_words hw).1, fun c hc => ((mem_words hw).2 c hc).1⟩

theorem collapse_collapse (text : List Char) : collapse (collapse text) = collapse text :=
  congrArg ([' '].intercalate ·) (words_collapse text)

theorem mem_collapse {text : List Char} {c : Char} (h : c ∈ collapse text) : c = ' ' ∨ c ∈ text := by
  rcases mem_intercalate h with h | ⟨w, hw, h⟩
  · exact .inl h
  · exact .inr ((mem_words hw).2 c h).2

/-! ### cleaning -/

/-- **Cleaned text is clean.** -/
theorem clean_clean (text : List Char) : clean (clean text) = clean text := by
  have hspace : IsSmall ' ' := lowerOne_blank rfl
  have hsmall : lower (collapse (lower text)) = collapse (lower text) := by
    refine lower_of_isSmall fun c hc => ?_
    rcases mem_collapse hc with rfl | hc
    · exact hspace
    · exact isSmall_lower text c hc
  unfold clean
  rw [hsmall, collapse_collapse]

/-- Cleaning brings no comma. -/
theorem comma_of_clean {text : List Char} (h : ',' ∈ clean text) : ',' ∈ text := by
  refine Classical.byContradiction fun hnone => ?_
  have hlower : ∀ d ∈ lower text, d ≠ ',' :=
    (lowers_lower text).forall_mem (by decide) (by decide) fun c hc he => hnone (comma_of_smallLetter he ▸ hc)
  rcases mem_collapse h with h | h
  · cases h
  · exact hlower _ h rfl

/-! ### no blank at the ends -/

/-- No blank stands at the ends of the text. -/
structure Trimmed (text : List Char) : Prop where
  first : ∀ c ∈ text.head?, isBlank c = false
  last : ∀ c ∈ text.getLast?, isBlank c = false

/-- A text is trimmed to itself if nothing that is trimmed stands at its ends. -/
theorem trimBy_eq_self {drops : Char → Bool} {text : List Char} (hfirst : ∀ c ∈ text.head?, drops c = false)
    (hlast : ∀ c ∈ text.getLast?, drops c = false) : trimBy drops text = text := by
  have hdrop : ∀ text : List Char, (∀ c ∈ text.head?, drops c = false) → text.dropWhile drops = text := by
    rintro (_ | ⟨c, text⟩) hfirst
    · rfl
    · exact List.dropWhile_cons_of_neg (by rw [hfirst c rfl]; exact Bool.false_ne_true)
  unfold trimBy
  rw [hdrop text hfirst, hdrop text.reverse, List.reverse_reverse]
  rwa [List.head?_reverse]

theorem trim_of_trimmed {text : List Char} (h : Trimmed text) : trim text = text :=
  trimBy_eq_self h.first h.last

/-- Nothing that is trimmed stands at the ends of a trimmed text. -/
theorem ends_trimBy (drops : Char → Bool) (text : List Char) :
    (∀ c ∈ (trimBy drops text).head?, drops c = false) ∧ ∀ c ∈ (trimBy drops text).getLast?, drops c = false := by
  have hdrop : ∀ text : List Char, ∀ c ∈ (text.dropWhile drops).head?, drops c = false := by
    intro text c hc
    have := List.head?_dropWhile_not drops text
    rw [hc] at this
    exact this
  unfold trimBy
  constructor
  · rw [List.head?_reverse]
    intro c hc
    obtain ⟨front, hfront⟩ := List.dropWhile_suffix drops (l := (text.dropWhile drops).reverse)
    refine hdrop text c ?_
    rw [← List.getLast?_reverse, ← hfront, List.getLast?_append, hc]
    rfl
  · rw [List.getLast?_reverse]
    exact hdrop _

theorem trimmed_trim (text : List Char) : Trimmed (trim text) :=
  ⟨(ends_trimBy isBlank text).1, (ends_trimBy isBlank text).2⟩

theorem mem_trimBy {drops : Char → Bool} {text : List Char} {c : Char} (h : c ∈ trimBy drops text) : c ∈ text := by
  unfold trimBy at h
  have h' := (List.dropWhile_suffix _).subset (List.mem_reverse.mp h)
  exact (List.dropWhile_suffix _).subset (List.mem_reverse.mp h')

theorem trimmed_intercalate {ws : List (List Char)} (h : ∀ w ∈ ws, w ≠ [] ∧ ∀ c ∈ w, isBlank c = false) :
    Trimmed ([' '].intercalate ws) := by
  induction ws with
  | nil => exact ⟨nofun, nofun⟩
  | cons w ws ih =>
    obtain ⟨⟨hne, hw⟩, hws⟩ := List.forall_mem_cons.mp h
    cases ws with
    | nil =>
      rw [List.intercalate_singleton]
      exact ⟨fun c hc => hw c (List.mem_of_head? hc), fun c hc => hw c (List.mem_of_getLast? hc)⟩
    | cons v vs =>
      rw [List.intercalate_cons_cons]
      constructor
      · intro c hc
        obtain ⟨d, w, rfl⟩ := List.exists_cons_of_ne_nil hne
        exact hw c (List.mem_of_head? hc)
      · intro c hc
        have hrest : [' '].intercalate (v :: vs) ≠ [] := by
          obtain ⟨⟨hv, -⟩, -⟩ := List.forall_mem_cons.mp hws
          cases vs with
          | nil => exact List.intercalate_singleton.symm ▸ hv
          | cons u us => simp [List.intercalate_cons_cons]
        obtain ⟨d, hd⟩ := Option.ne_none_iff_exists'.mp fun hnone => hrest (List.getLast?_eq_none_iff.mp hnone)
        rw [List.getLast?_append, hd] at hc
        exact (ih hws).last c (hd.trans hc)

theorem trimmed_clean (text : List Char) : Trimmed (clean text) :=
  trimmed_intercalate fun _ hw => ⟨(mem_words hw).1, fun c hc => ((mem_words hw).2 c hc).1⟩

end Outfitter.Text
