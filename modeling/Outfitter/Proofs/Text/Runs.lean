import Mathlib.Algebra.Group.Nat.Defs
import Outfitter.Proofs.Text.Blank

/-!
Runs of digits in a text.

Cleaning a text makes none of them longer (`runsWithin_clean`): a letter never becomes a digit in lower case,
which `Lowers` tells character by character, and the words of a text are not joined. So the numbers in a cleaned text are as small as those in the text
(`ofDigits_lt`).
-/

namespace Outfitter.Text

/-- No run of digits in the text is longer than this. -/
def RunsWithin (most : Nat) (text : List Char) : Prop :=
  ∀ run, run <:+: text → (∀ c ∈ run, isDigit c = true) → run.length ≤ most

theorem runsWithin_length (text : List Char) : RunsWithin text.length text :=
  fun _ hrun _ => hrun.length_le

/-! ### runs from left to right -/

/-- No run of digits is longer than this, and one at the beginning not longer than the room there is. -/
def Fits (most : Nat) : (room : Nat) → List Char → Prop
  | _, [] => True
  | room, c :: rest => if isDigit c then 0 < room ∧ Fits most (room - 1) rest else Fits most most rest

section

variable {most room : Nat} {c : Char} {rest text : List Char}

theorem fits_cons_of_digit (h : isDigit c = true) :
    Fits most room (c :: rest) ↔ 0 < room ∧ Fits most (room - 1) rest := by
  rw [Fits, if_pos h]

theorem fits_cons_of_not_digit (h : isDigit c = false) : Fits most room (c :: rest) ↔ Fits most most rest := by
  rw [Fits, if_neg (by rw [h]; exact Bool.false_ne_true)]

theorem Fits.mono (h : Fits most room text) {room' : Nat} (hle : room ≤ room') : Fits most room' text := by
  induction text generalizing room room' with
  | nil => trivial
  | cons c rest ih =>
    cases hc : isDigit c with
    | true =>
      rw [fits_cons_of_digit hc] at h ⊢
      exact ⟨by omega, ih h.2 (by omega)⟩
    | false =>
      rw [fits_cons_of_not_digit hc] at h ⊢
      exact h

theorem fits_of_runs (hfirst : ∀ run, run <+: text → (∀ c ∈ run, isDigit c = true) → run.length ≤ room)
    (hruns : RunsWithin most text) : Fits most room text := by
  induction text generalizing room with
  | nil => trivial
  | cons c rest ih =>
    have hrest : RunsWithin most rest := fun run hrun => hruns run (hrun.trans (List.suffix_cons c rest).isInfix)
    cases hc : isDigit c with
    | true =>
      rw [fits_cons_of_digit hc]
      have hlonger : ∀ run, run <+: rest → (∀ d ∈ run, isDigit d = true) → run.length + 1 ≤ room :=
        fun run hrun hall => hfirst (c :: run) (List.cons_prefix_cons.mpr ⟨rfl, hrun⟩)
          (List.forall_mem_cons.mpr ⟨hc, hall⟩)
      have hroom := hlonger [] List.nil_prefix (by simp)
      refine ⟨hroom, ih (fun run hrun hall => ?_) hrest⟩
      have := hlonger run hrun hall
      omega
    | false =>
      rw [fits_cons_of_not_digit hc]
      exact ih (fun run hrun => hrest run hrun.isInfix) hrest

theorem Fits.runs (h : Fits most room text) (hroom : room ≤ most) :
    (∀ run, run <+: text → (∀ c ∈ run, isDigit c = true) → run.length ≤ room) ∧ RunsWithin most text := by
  induction text generalizing room with
  | nil =>
    have hnil : ∀ run : List Char, run <:+: [] → run.length ≤ room := by
      intro run hrun
      rw [List.infix_nil.mp hrun]
      exact Nat.zero_le _
    exact ⟨fun run hrun _ => hnil run hrun.isInfix, fun run hrun _ => Nat.le_trans (hnil run hrun) hroom⟩
  | cons c rest ih =>
    -- a run at the beginning goes on behind the first character, or is none
    have hboth : (∀ run, run <+: c :: rest → (∀ c ∈ run, isDigit c = true) → run.length ≤ room) ∧
        RunsWithin most rest := by
      cases hc : isDigit c with
      | true =>
        obtain ⟨hpos, hrest⟩ := (fits_cons_of_digit hc).mp h
        obtain ⟨hfirst, hruns⟩ := ih hrest (by omega)
        refine ⟨fun run hrun hall => ?_, hruns⟩
        cases run with
        | nil => exact Nat.zero_le _
        | cons d run =>
          have := hfirst run (List.cons_prefix_cons.mp hrun).2 fun e he => hall e (List.mem_cons_of_mem _ he)
          rw [List.length_cons]
          omega
      | false =>
        obtain ⟨-, hruns⟩ := ih ((fits_cons_of_not_digit hc).mp h) (Nat.le_refl most)
        refine ⟨fun run hrun hall => ?_, hruns⟩
        cases run with
        | nil => exact Nat.zero_le _
        | cons d run =>
          obtain ⟨rfl, -⟩ := List.cons_prefix_cons.mp hrun
          rw [hall d (List.mem_cons_self ..)] at hc
          cases hc
    refine ⟨hboth.1, fun run hrun hall => ?_⟩
    rcases List.infix_cons_iff.mp hrun with hrun | hrun
    · exact Nat.le_trans (hboth.1 run hrun hall) hroom
    · exact hboth.2 run hrun hall

/-- Runs may be measured from left to right. -/
theorem runsWithin_iff_fits : RunsWithin most text ↔ Fits most most text :=
  ⟨fun h => fits_of_runs (fun run hrun => h run hrun.isInfix) h, fun h => (h.runs (Nat.le_refl most)).2⟩

instance decidableFits : (room : Nat) → (text : List Char) → Decidable (Fits most room text)
  | _, [] => inferInstanceAs (Decidable True)
  | room, c :: rest =>
    have := decidableFits (room - 1) rest
    have := decidableFits most rest
    inferInstanceAs (Decidable (if isDigit c then 0 < room ∧ Fits most (room - 1) rest else Fits most most rest))

instance : Decidable (RunsWithin most text) :=
  decidable_of_iff _ runsWithin_iff_fits.symm

/-- A character that is no digit parts a text. -/
theorem fits_append_cons (hc : isDigit c = false) :
    Fits most room (text ++ c :: rest) ↔ Fits most room text ∧ Fits most most rest := by
  induction text generalizing room with
  | nil => exact (fits_cons_of_not_digit hc).trans ⟨fun h => ⟨trivial, h⟩, And.right⟩
  | cons d text ih =>
    rw [List.cons_append]
    cases hd : isDigit d with
    | true => rw [fits_cons_of_digit hd, fits_cons_of_digit hd, ih, and_assoc]
    | false => rw [fits_cons_of_not_digit hd, fits_cons_of_not_digit hd, ih]

end

/-! ### lower case -/

theorem exists_zero_of_isDigit {c : Char} (h : isDigit c = true) :
    ∃ z ∈ digitZeros, z ≤ c.toNat ∧ c.toNat < z + 10 := by
  unfold isDigit digitValue? at h
  rw [Option.isSome_map] at h
  obtain ⟨z, hz⟩ := Option.isSome_iff_exists.mp h
  have hin := List.find?_some hz
  rw [Bool.and_eq_true, decide_eq_true_iff, decide_eq_true_iff] at hin
  exact ⟨z, List.mem_of_find?_eq_some hz, hin⟩

theorem convert_cases (n : Nat) (runs : List CaseRun) : CaseRun.convert n runs = n ∨
    ∃ run ∈ runs, run.first ≤ n ∧ n ≤ run.last ∧ (n - run.first) % run.step = 0 ∧
      CaseRun.convert n runs = (n + run.distance).toNat := by
  induction runs with
  | nil => exact .inl rfl
  | cons run runs ih =>
    unfold CaseRun.convert
    split
    · exact .inl rfl
    · rename_i hfirst
      split
      · rename_i hlast
        split
        · rename_i hstep
          exact .inr ⟨run, List.mem_cons_self .., Nat.le_of_not_lt hfirst, hlast, hstep, rfl⟩
        · exact .inl rfl
      · rcases ih with he | ⟨other, hmem, h⟩
        · exact .inl he
        · exact .inr ⟨other, List.mem_cons_of_mem _ hmem, h⟩

/-- A number that is no character counts as the null character. -/
theorem toNat_ofNat_cases (n : Nat) : (Char.ofNat n).toNat = n ∨ (Char.ofNat n).toNat = 0 := by
  by_cases h : n.isValidChar
  · exact .inl (congrArg Char.toNat (dif_pos h))
  · exact .inr (congrArg Char.toNat (dif_neg h))

/-- The small letters of a run stand behind the capitals of ASCII, and no digits are among them. -/
theorem caseRuns_apart : ∀ run ∈ caseRuns, 97 ≤ run.first + run.distance ∧ digitZeros.all (fun z =>
    (run.last + run.distance).toNat.blt z || (z + 10).ble (run.first + run.distance).toNat) = true := by
  decide +kernel

/-- What ASCII writes in lower case stays there, above its capitals if it is another letter. -/
theorem toLower_facts : ∀ n < 128, ((Char.ofNat n).toLower).toLower = (Char.ofNat n).toLower ∧
    ((Char.ofNat n).toLower).toNat ≤ 127 ∧
    ((Char.ofNat n).toLower = Char.ofNat n ∨ 97 ≤ ((Char.ofNat n).toLower).toNat) ∧
    (CaseRun.convert n caseRuns = n → (Char.ofNat n).toLower = Char.ofNat n) := by
  decide +kernel

/-- A letter does not become a digit in lower case. -/
theorem isDigit_smallLetter {c : Char} (h : isDigit (smallLetter c) = true) : isDigit c = true := by
  have hzeros : ∀ z ∈ digitZeros, z = 48 ∨ 1632 ≤ z := by decide
  obtain ⟨z, hz, hle, hlt⟩ := exists_zero_of_isDigit h
  have hzero := hzeros z hz
  unfold smallLetter at h hle hlt
  split at h
  · rename_i hascii
    rw [if_pos hascii] at hle hlt
    obtain ⟨-, hmost, hcase, -⟩ := toLower_facts c.toNat (by omega)
    rw [Char.ofNat_toNat] at hmost hcase
    rcases hcase with he | habove
    · rwa [he] at h
    · omega
  · rename_i hbeyond
    rw [if_neg hbeyond] at hle hlt
    rcases convert_cases c.toNat caseRuns with he | ⟨run, hrun, hfirst, hlast, -, he⟩
    · rwa [he, Char.ofNat_toNat] at h
    · have hapart := List.all_eq_true.mp (caseRuns_apart run hrun).2 z hz
      have hvalue := toNat_ofNat_cases (CaseRun.convert c.toNat caseRuns)
      rw [Bool.or_eq_true, Nat.blt_eq, Nat.ble_eq] at hapart
      omega

/-- The small letters of the two characters that `lower` writes in a way of its own, and of the final sigma. -/
theorem smallLetter_special : smallLetter 'Σ' = 'σ' ∧ smallLetter 'ς' = 'ς' ∧ smallLetter 'İ' = 'i' := by
  decide +kernel

/-- The second text is the first one in lower case, in which any capital sigma may have taken its final form. -/
inductive Lowers : List Char → List Char → Prop where
  | nil : Lowers [] []
  | letter {c : Char} {text small : List Char} (hc : c ≠ 'İ') (h : Lowers text small) :
      Lowers (c :: text) (smallLetter c :: small)
  | final {text small : List Char} (h : Lowers text small) : Lowers ('Σ' :: text) ('ς' :: small)
  | dotted {text small : List Char} (h : Lowers text small) : Lowers ('İ' :: text) ('i' :: '\u0307' :: small)

theorem lowers_lower (text : List Char) : Lowers text (lower text) := by
  have hfrom : ∀ afterLetter, Lowers text (lowerFrom afterLetter text) := by
    induction text with
    | nil => exact fun _ => .nil
    | cons c rest ih =>
      intro afterLetter
      have hrest := ih (if isInnerMark c then afterLetter else isCased c)
      unfold lowerFrom
      by_cases hsigma : c = 'Σ'
      · subst hsigma
        rw [if_pos rfl]
        split
        · exact .final hrest
        · have hletter : Lowers ('Σ' :: rest) (smallLetter 'Σ' :: _) := .letter (by decide) hrest
          rwa [smallLetter_special.1] at hletter
      · rw [if_neg hsigma]
        unfold lowerOne
        split
        · rename_i hdotted
          subst hdotted
          exact .dotted hrest
        · rename_i hdotted
          exact .letter hdotted hrest
  exact hfrom false

theorem Lowers.fits {most room : Nat} {text small : List Char} (h : Lowers text small)
    (hfits : Fits most room text) (hroom : room ≤ most) : Fits most room small := by
  induction h generalizing room with
  | nil => exact hfits
  | @letter c _ _ _ _ ih =>
    cases hc : isDigit c with
    | true =>
      obtain ⟨hpos, hrest⟩ := (fits_cons_of_digit hc).mp hfits
      have hlower := ih hrest (by omega)
      cases hsmall : isDigit (smallLetter c) with
      | true => exact (fits_cons_of_digit hsmall).mpr ⟨hpos, hlower⟩
      | false => exact (fits_cons_of_not_digit hsmall).mpr (hlower.mono (by omega))
    | false =>
      have hsmall : isDigit (smallLetter c) = false := by
        rw [← Bool.not_eq_true] at hc ⊢
        exact mt isDigit_smallLetter hc
      have hrest := (fits_cons_of_not_digit hc).mp hfits
      exact (fits_cons_of_not_digit hsmall).mpr (ih hrest (Nat.le_refl most))
  | final _ ih =>
    have hrest := (fits_cons_of_not_digit rfl).mp hfits
    exact (fits_cons_of_not_digit rfl).mpr (ih hrest (Nat.le_refl most))
  | dotted _ ih =>
    have hrest := (fits_cons_of_not_digit rfl).mp hfits
    exact (fits_cons_of_not_digit rfl).mpr ((fits_cons_of_not_digit rfl).mpr (ih hrest (Nat.le_refl most)))

/-! ### words -/

theorem fits_words {most : Nat} {text : List Char} (h : Fits most most text) :
    ∀ w ∈ words text, Fits most most w := by
  induction text using blank_induction with
  | nil => exact nofun
  | word w hne hw =>
    rw [words_of_word hne hw]
    exact List.forall_mem_singleton.mpr h
  | blank text b rest hb iht ihr =>
    obtain ⟨htext, hrest⟩ := (fits_append_cons (isDigit_blank hb)).mp h
    rw [words_append_cons hb]
    exact List.forall_mem_append.mpr ⟨iht htext, ihr hrest⟩

theorem fits_intercalate {most : Nat} {ws : List (List Char)} (h : ∀ w ∈ ws, Fits most most w) :
    Fits most most ([' '].intercalate ws) := by
  have hspace : isDigit ' ' = false := rfl
  induction ws with
  | nil => exact trivial
  | cons w ws ih =>
    obtain ⟨hw, hws⟩ := List.forall_mem_cons.mp h
    cases ws with
    | nil =>
      rw [List.intercalate_singleton]
      exact hw
    | cons v vs =>
      rw [List.intercalate_cons_cons, List.append_assoc, List.singleton_append]
      exact (fits_append_cons hspace).mpr ⟨hw, ih hws⟩

/-- **Cleaning makes no run of digits longer.** -/
theorem runsWithin_clean {most : Nat} {text : List Char} (h : RunsWithin most text) :
    RunsWithin most (clean text) := by
  have hlower : Fits most most (lower text) :=
    (lowers_lower text).fits (runsWithin_iff_fits.mp h) (Nat.le_refl most)
  exact runsWithin_iff_fits.mpr (fits_intercalate (fits_words hlower))

/-! ### numbers -/

theorem digitValue_lt {c : Char} {d : Nat} (h : digitValue? c = some d) : d < 10 := by
  obtain ⟨z, hz, rfl⟩ := Option.map_eq_some_iff.mp h
  have hin := List.find?_some hz
  rw [Bool.and_eq_true, decide_eq_true_iff, decide_eq_true_iff] at hin
  omega

/-- A number is below the power of ten with as many zeros as it has digits. -/
theorem ofDigits_lt (digits : List Char) : ofDigits digits < 10 ^ digits.length := by
  have hfold : ∀ n k : Nat, n < 10 ^ k →
      digits.foldl (fun n c => 10 * n + (digitValue? c).getD 0) n < 10 ^ (k + digits.length) := by
    induction digits with
    | nil => exact fun n k h => h
    | cons c digits ih =>
      intro n k h
      have hdigit : (digitValue? c).getD 0 < 10 := by
        cases hc : digitValue? c with
        | none => decide
        | some d => exact digitValue_lt hc
      have hnext : 10 * n + (digitValue? c).getD 0 < 10 ^ (k + 1) := by
        rw [Nat.pow_succ]
        omega
      have := ih _ (k + 1) hnext
      rwa [Nat.add_assoc, Nat.add_comm 1] at this
  have := hfold 0 0 Nat.one_pos
  rwa [Nat.zero_add] at this

end Outfitter.Text
