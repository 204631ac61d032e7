import Mathlib.Algebra.Ring.Nat
import Outfitter.Message.Budget
import Outfitter.Proofs.Number.Double
import Outfitter.Proofs.Text.Parts
import Outfitter.Proofs.Text.Runs
import Outfitter.Text.Clean

/-!
The budget of a message whose numbers are not too long.

The numbers of a budget can be read if the text is short, because what a pattern reads as a part of it is no
longer (`exists_findBudget`), and if its runs of digits are, because the numbers are such runs
(`exists_findBudget_of_runs`). With up to three hundred digits they are doubles (`hasFiniteBudget_of_runs`).
-/

namespace Outfitter.Text

/-! ### lengths -/

/-- Only the dotted capital I takes more room in lower case. -/
theorem Lowers.length_le {text small : List Char} (h : Lowers text small) : small.length ≤ 2 * text.length := by
  induction h with
  | nil => exact Nat.le_refl 0
  | letter | final | dotted =>
    simp only [List.length_cons]
    omega

/-- The words with a space behind each have no more characters than the text, and one. -/
theorem length_words (text : List Char) : ((words text).map fun w => w.length + 1).sum ≤ text.length + 1 := by
  induction text using blank_induction with
  | nil => exact Nat.zero_le _
  | word w hne hw =>
    rw [words_of_word hne hw]
    simp
  | blank text b rest hb iht ihr =>
    rw [words_append_cons hb, List.map_append, List.sum_append, List.length_append, List.length_cons]
    omega

theorem length_intercalate (ws : List (List Char)) :
    ([' '].intercalate ws).length ≤ (ws.map fun w => w.length + 1).sum - 1 := by
  induction ws with
  | nil => exact Nat.le_refl 0
  | cons w ws ih =>
    cases ws with
    | nil => simp
    | cons v ws =>
      rw [List.intercalate_cons_cons]
      simp only [List.length_append, List.length_cons, List.length_nil, List.map_cons, List.sum_cons] at ih ⊢
      omega

theorem length_clean (text : List Char) : (clean text).length ≤ 2 * text.length := by
  have hwords := length_words (lower text)
  have hlower : (lower text).length ≤ 2 * text.length := (lowers_lower text).length_le
  have hspaces := length_intercalate (words (lower text))
  unfold clean collapse
  omega

end Outfitter.Text

namespace Outfitter.Message

open Text

/-- The numerals of a budget by the first fitting rule of some. -/
def numeralsBy (text : List Char) : List BudgetRule → List Nat
  | [] => []
  | rule :: rules =>
    match rule.pattern.search text with
    | some found => found.parts.map fun digits => ofDigits digits.text
    | none => numeralsBy text rules

/-- The numerals of the budget in a text, none if there is no budget. -/
def numerals (text : List Char) : List Nat :=
  numeralsBy text budgetRules

theorem mapM_readAmount {digits : List Stretch} (h : ∀ s ∈ digits, s.size ≤ Numeral.maxDigits) :
    digits.mapM readAmount = .ok (digits.map fun s => ofDigits s.text) := by
  induction digits with
  | nil => rfl
  | cons s digits ih =>
    have hs : readAmount s = .ok (ofDigits s.text) := by
      unfold readAmount
      rw [if_neg (Nat.not_lt.mpr (h s (List.mem_cons_self ..)))]
    rw [List.mapM_cons, hs, ih fun t ht => h t (List.mem_cons_of_mem _ ht)]
    rfl

/-- A budget whose numbers are not too long can be read, and is made from its numerals. -/
theorem exists_findBudgetBy {text : List Char} {rules : List BudgetRule}
    (h : ∀ rule ∈ rules, ∀ found, rule.pattern.search text = some found →
      ∀ s ∈ found.parts, s.size ≤ Numeral.maxDigits) :
    ∃ found, findBudgetBy text rules = .ok found ∧
      ∀ b ∈ found, ∃ rule ∈ rules, b.budget = rule.bounds (numeralsBy text rules) := by
  induction rules with
  | nil => exact ⟨none, rfl, nofun⟩
  | cons rule rules ih =>
    unfold findBudgetBy numeralsBy
    cases hs : rule.pattern.search text with
    | none =>
      obtain ⟨found, hfound, hrule⟩ := ih fun rule hrule => h rule (List.mem_cons_of_mem _ hrule)
      refine ⟨found, hfound, fun b hb => ?_⟩
      obtain ⟨r, hr, he⟩ := hrule b hb
      exact ⟨r, List.mem_cons_of_mem _ hr, he⟩
    | some found =>
      have ha := mapM_readAmount (h rule (List.mem_cons_self ..) found hs)
      refine ⟨some ⟨rule.bounds (found.parts.map fun s => ofDigits s.text), found.toStretch⟩, ?_, ?_⟩
      · show (found.parts.mapM readAmount >>= _) = _
        rw [ha]
        rfl
      · rintro b hb
        obtain rfl := Option.some.inj hb
        exact ⟨rule, List.mem_cons_self .., rfl⟩

/-- The bounds of a budget are not beyond all doubles. -/
def Budget.IsFinite (b : Budget) : Prop :=
  ∀ n, b.least = some n ∨ b.most = some n → ∃ x, Double.ofInt n = .finite x

/-- A bound of a budget is about one of its numerals. -/
theorem bound_le {rule : BudgetRule} (h : rule ∈ budgetRules) {amounts : List Nat} {n : Nat}
    (hn : (rule.bounds amounts).least = some n ∨ (rule.bounds amounts).most = some n) :
    n ≤ 20 ∨ ∃ m ∈ amounts, n ≤ m + 20 := by
  have hget : ∀ {i : Nat}, amounts[i]? = some n → ∃ m ∈ amounts, n ≤ m + 20 :=
    fun h => ⟨n, List.mem_of_getElem? h, by omega⟩
  have haround : n = amounts[0]?.getD 0 - 20 ∨ n = amounts[0]?.getD 0 + 20 →
      n ≤ 20 ∨ ∃ m ∈ amounts, n ≤ m + 20 := by
    intro h
    cases ha : amounts[0]? with
    | none =>
      rw [ha] at h
      exact .inl (by simp only [Option.getD_none] at h; omega)
    | some m =>
      rw [ha] at h
      exact .inr ⟨m, List.mem_of_getElem? ha, by simp only [Option.getD_some] at h; omega⟩
  simp only [budgetRules, List.mem_cons, List.not_mem_nil, or_false] at h
  rcases h with rfl | rfl | rfl | rfl
  · rcases hn with hn | hn <;> exact .inr (hget hn)
  · rcases hn with hn | hn
    · cases hn
    · exact .inr (hget hn)
  · rcases hn with hn | hn
    · cases hn
    · exact .inr (hget hn)
  · rcases hn with hn | hn
    · exact haround (.inl (Option.some.inj hn).symm)
    · exact haround (.inr (Option.some.inj hn).symm)

/-- The budget of the message can be read, and its bounds are not beyond all doubles. -/
def HasFiniteBudget (text : List Char) : Prop :=
  ∃ found, findBudget (clean text) = .ok found ∧ ∀ b ∈ found, b.budget.IsFinite

instance (d : Double) : Decidable (∃ x, d = .finite x) :=
  match d with
  | .finite x => isTrue ⟨x, rfl⟩
  | .infinite _ | .nan => isFalse fun ⟨_, h⟩ => nomatch h

instance (b : Budget) : Decidable b.IsFinite :=
  decidable_of_iff (∀ n ∈ b.least.toList ++ b.most.toList, ∃ x, Double.ofInt (n : Nat) = .finite x) <| by
    simp only [List.mem_append, Option.mem_toList]
    exact Iff.rfl

instance (text : List Char) : Decidable (HasFiniteBudget text) :=
  match h : findBudget (clean text) with
  | .error _ => isFalse fun ⟨_, hfound, _⟩ => nomatch h.symm.trans hfound
  | .ok found => decidable_of_iff (∀ b ∈ found, b.budget.IsFinite)
    ⟨fun hb => ⟨found, h, hb⟩, fun ⟨_, hfound, hb⟩ => Except.ok.inj (h.symm.trans hfound) ▸ hb⟩

theorem isFinite_of_numerals {text : List Char} {found : Option BudgetFound}
    (hrule : ∀ b ∈ found, ∃ rule ∈ budgetRules, b.budget = rule.bounds (numerals text))
    (hn : ∀ n ∈ numerals text, n ≤ Double.largest) : ∀ b ∈ found, b.budget.IsFinite := by
  intro b hb n hbound
  obtain ⟨rule, hmem, he⟩ := hrule b hb
  rw [he] at hbound
  refine Double.exists_ofInt ?_
  rcases bound_le hmem hbound with hle | ⟨m, hm, hle⟩
  · omega
  · have := hn m hm
    omega

/-- **A budget can be read** in a text that is not too long, and its bounds are doubles if its numerals are not
above the greatest one. -/
theorem exists_findBudget {text : List Char} (h : text.length ≤ Numeral.maxDigits)
    (hn : ∀ n ∈ numerals text, n ≤ Double.largest) :
    ∃ found, findBudget text = .ok found ∧ ∀ b ∈ found, b.budget.IsFinite := by
  obtain ⟨found, hfound, hrule⟩ := exists_findBudgetBy fun rule _ found hs s hmem =>
    Nat.le_trans (Pattern.size_of_search hs s hmem) h
  exact ⟨found, hfound, isFinite_of_numerals hrule hn⟩

/-! ### runs of digits -/

/-- The parts of every rule are numbers. -/
theorem parts_budgetRules : ∀ rule ∈ budgetRules, ∀ q ∈ rule.pattern.parts, q = Pattern.digits := by
  intro rule hrule q hq
  simp only [budgetRules, List.mem_cons, List.not_mem_nil, or_false] at hrule
  rcases hrule with rfl | rfl | rfl | rfl
  · have hparts : range.parts = [Pattern.digits, Pattern.digits] := rfl
    rw [hparts] at hq
    simpa using hq
  · have hparts : upperBound.parts = [Pattern.digits] := rfl
    rw [hparts] at hq
    exact List.mem_singleton.mp hq
  · have hparts : maximum.parts = [Pattern.digits] := rfl
    rw [hparts] at hq
    exact List.mem_singleton.mp hq
  · have hparts : approximation.parts = [Pattern.digits] := rfl
    rw [hparts] at hq
    exact List.mem_singleton.mp hq

/-- The numbers of a budget are runs of digits in the text. -/
theorem length_of_budgetRules {most : Nat} {text : List Char} (h : RunsWithin most text) {rule : BudgetRule}
    (hrule : rule ∈ budgetRules) {found : Pattern.Found} (hs : rule.pattern.search text = some found) :
    ∀ s ∈ found.parts, s.text.length ≤ most ∧ s.size = s.text.length := by
  intro s hmem
  obtain ⟨htext, q, hq, hreads⟩ := Pattern.parts_of_search hs s hmem
  rw [parts_budgetRules rule hrule q hq] at hreads
  obtain ⟨⟨hdigits, -, -⟩, hinfix, hsize⟩ := Pattern.spelled_of_run hreads
  rw [htext] at hinfix
  exact ⟨h s.text hinfix hdigits, hsize⟩

theorem numeralsBy_lt {most : Nat} {text : List Char} (h : RunsWithin most text) {rules : List BudgetRule}
    (hrules : ∀ rule ∈ rules, rule ∈ budgetRules) : ∀ n ∈ numeralsBy text rules, n < 10 ^ most := by
  induction rules with
  | nil => exact fun _ hn => absurd hn List.not_mem_nil
  | cons rule rules ih =>
    unfold numeralsBy
    cases hs : rule.pattern.search text with
    | none => exact ih fun rule hrule => hrules rule (List.mem_cons_of_mem _ hrule)
    | some found =>
      intro n hn
      obtain ⟨s, hmem, rfl⟩ := List.mem_map.mp hn
      have hlen := (length_of_budgetRules h (hrules rule (List.mem_cons_self ..)) hs s hmem).1
      exact Nat.lt_of_lt_of_le (ofDigits_lt s.text) (Nat.pow_le_pow_right (by decide) hlen)

/-- **The budget of a text whose runs of digits are not too long can be read**, and its bounds have hardly more
digits than the longest run may have. -/
theorem exists_findBudget_of_runs {most : Nat} {text : List Char} (h : RunsWithin most text)
    (hmost : most ≤ Numeral.maxDigits) : ∃ found, findBudget text = .ok found ∧
      ∀ b ∈ found, ∀ n, b.budget.least = some n ∨ b.budget.most = some n → n < 10 ^ most + 20 := by
  have hshort : ∀ rule ∈ budgetRules, ∀ found, rule.pattern.search text = some found →
      ∀ s ∈ found.parts, s.size ≤ Numeral.maxDigits := by
    intro rule hmem found hs s hparts
    obtain ⟨hlen, hsize⟩ := length_of_budgetRules h hmem hs s hparts
    omega
  obtain ⟨found, hfound, hrule⟩ := exists_findBudgetBy hshort
  refine ⟨found, hfound, fun b hb n hbound => ?_⟩
  obtain ⟨rule, hmem, he⟩ := hrule b hb
  rw [he] at hbound
  rcases bound_le hmem hbound with hle | ⟨m, hm, hle⟩
  · have := Nat.two_pow_pos most
    have := Nat.pow_le_pow_left (show 2 ≤ 10 by decide) most
    omega
  · have := numeralsBy_lt h (fun _ hrule => hrule) m hm
    omega

/-- So many digits are never beyond all doubles. -/
theorem pow_le_largest : 10 ^ 300 ≤ Double.largest := by
  decide +kernel

theorem hasFiniteBudget_of_runs {text : List Char} (h : RunsWithin 300 text) : HasFiniteBudget text := by
  obtain ⟨found, hfound, hbounds⟩ := exists_findBudget_of_runs (runsWithin_clean h) (by decide)
  refine ⟨found, hfound, fun b hb n hn => Double.exists_ofInt ?_⟩
  have := hbounds b hb n hn
  have := pow_le_largest
  omega

end Outfitter.Message
