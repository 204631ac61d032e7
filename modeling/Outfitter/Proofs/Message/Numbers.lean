import Outfitter.Proofs.Message.Heard
import Outfitter.Proofs.Text.Classes
import Outfitter.Proofs.Text.Spelled
import Outfitter.Proofs.Text.Sweep

/-!
Which numbers of a message are sizes.

A size is written as a number of one or two digits that stands by itself (`number_of_numericSizes`), and no such
number is missed by the search, although what it finds may begin before the digits and end behind them
(`mem_numericSizes`). The budget is cut out of the message before sizes are looked for. It begins with no digit and
ends with the last digit of an amount, so the numbers beside it are those of the message (`Cut.number`,
`Cut.number_of_text`).
-/

namespace Outfitter.Message

open Filters Text

/-! ### numbers in a text -/

/-- One or two digits stand in the text between two parts of it, and no digit touches them. -/
structure Number (text before run after : List Char) : Prop where
  split : text = before ++ run ++ after
  short : run.length = 1 ∨ run.length = 2
  digits : ∀ c ∈ run, isDigit c = true
  first : ∀ c ∈ before.getLast?, isDigit c = false
  last : ∀ c ∈ after.head?, isDigit c = false

/-- A point with a digit behind it. -/
def Fraction (after : List Char) : Prop :=
  ∃ c rest, after = '.' :: c :: rest ∧ isDigit c = true

/-- Neither a dollar sign nor a point stands before a number, and no fraction behind it. -/
structure Bare (before after : List Char) : Prop where
  noDollar : before.getLast? ≠ some '$'
  noPoint : before.getLast? ≠ some '.'
  noFraction : ¬ Fraction after

section

variable {text before run after before' run' after' : List Char}

theorem Number.ne_nil (h : Number text before run after) : run ≠ [] := by
  rintro rfl
  rcases h.short with h | h <;> cases h

/-- The digits of a number are all that follow. -/
theorem Number.takeWhile_eq (h : Number text before run after) : (run ++ after).takeWhile isDigit = run := by
  have hafter : after.takeWhile isDigit = [] := by
    cases after with
    | nil => rfl
    | cons c rest => rw [List.takeWhile_cons_of_neg (by simp [h.last c rfl])]
  rw [List.takeWhile_append_of_pos h.digits, hafter, List.append_nil]

/-- A number that begins within another one is that one. -/
theorem Number.eq_of_overlap (h : Number text before run after) (h' : Number text before' run' after')
    (hlow : before'.length ≤ before.length) (hhigh : before.length < before'.length + run'.length) : run' = run := by
  have hsplit := h.split.symm.trans h'.split
  rw [List.append_assoc, List.append_assoc] at hsplit
  have hbefore : ∃ more, before = before' ++ more ∧ run' ++ after' = more ++ (run ++ after) := by
    rcases List.append_eq_append_iff.mp hsplit with ⟨more, hb, hr⟩ | ⟨more, hb, hr⟩
    · -- only if nothing stands between
      have hlength := congrArg List.length hb
      simp only [List.length_append] at hlength
      obtain rfl : more = [] := List.eq_nil_of_length_eq_zero (by omega)
      exact ⟨[], by simpa using hb.symm, by simpa using hr.symm⟩
    · exact ⟨more, hb, hr⟩
  obtain ⟨more, rfl, hrest⟩ := hbefore
  rw [List.length_append] at hhigh
  have hnil : more = [] := by
    rcases List.append_eq_append_iff.mp hrest with ⟨inner, hmore, -⟩ | ⟨inner, hrun, -⟩
    · have := congrArg List.length hmore
      rw [List.length_append] at this
      omega
    · by_contra hne
      have hlast := h.first (more.getLast hne) (by simp [List.getLast?_append, List.getLast?_eq_some_getLast hne])
      have hmem : more.getLast hne ∈ run' := hrun ▸ List.mem_append_left _ (List.getLast_mem hne)
      rw [h'.digits _ hmem] at hlast
      cases hlast
  subst hnil
  rw [List.nil_append] at hrest
  rw [← h.takeWhile_eq, ← hrest, h'.takeWhile_eq]

/-- Digits are word characters, so a text that begins with one begins with a word character. -/
theorem isWord?_head?_of_digits (hne : run ≠ []) (hdigits : ∀ c ∈ run, isDigit c = true) (rest : List Char) :
    isWord? (run ++ rest).head? = true := by
  rw [List.head?_append_of_ne_nil _ hne, List.head?_eq_some_head hne]
  exact isWord_of_isDigit (hdigits _ (List.head_mem hne))

end

/-! ### what is read as a size -/

/-- The word size, perhaps with blanks behind it. -/
def sizeWord : Pattern :=
  Pattern.optional (Pattern.all [Pattern.exactly "size", Pattern.blanks 0])

/-- A system of sizes, perhaps with blanks before it. -/
def sizeSystem : Pattern :=
  Pattern.optional (Pattern.all [Pattern.blanks 0,
    Pattern.any [Pattern.exactly "us", Pattern.exactly "eu", Pattern.exactly "uk"]])

/-- A size is read from `a` to `b`, with its digits from `m` to `n`. -/
structure Sized (a m n b : Place) : Prop where
  clear : notInAmount a = true
  word : sizeWord.Reads a m
  digits : (Pattern.run isDigit 1 (some 2)).Reads m n
  system : sizeSystem.Reads n b
  edge : b.atWordEdge = true
  noFraction : noFractionAfter b = true

theorem sized_of_yields {a b : Place} {parts : List Stretch} (h : numericSize.Yields a b parts) :
    ∃ m n, Sized a m n b ∧ parts = [⟨m, n⟩] := by
  obtain ⟨_, _, _, ⟨⟨rfl, hclear⟩, rfl⟩, ⟨_, _, _, ⟨⟨rfl, -⟩, rfl⟩, ⟨m, w, _, hword, ⟨n, d, _,
    ⟨_, ⟨hdigits, rfl⟩, rfl⟩, ⟨b, s, _, hsystem, ⟨_, _, _, ⟨⟨rfl, hedge⟩, rfl⟩, ⟨⟨rfl, hfraction⟩, rfl⟩, rfl⟩, rfl⟩,
    rfl⟩, rfl⟩, rfl⟩, rfl⟩ := h
  refine ⟨m, n, ⟨hclear, hword.reads, hdigits, hsystem.reads, hedge, hfraction⟩, ?_⟩
  have hw : w = [] := hword.eq_nil rfl
  have hs : s = [] := hsystem.eq_nil rfl
  subst hw hs
  rfl

theorem reads_numericSize {a m n b : Place} (h : Sized a m n b) (ha : a.atWordEdge = true) :
    numericSize.Reads a b :=
  ⟨a, ⟨rfl, h.clear⟩, a, ⟨rfl, ha⟩, m, h.word, n, h.digits, b, h.system, b, ⟨rfl, h.edge⟩, rfl, h.noFraction⟩

/-- The character is no part of an amount. -/
def NoAmount (c : Char) : Prop :=
  c ≠ '$' ∧ c ≠ '.' ∧ isDigit c = false

instance (c : Char) : Decidable (NoAmount c) :=
  inferInstanceAs (Decidable (c ≠ '$' ∧ c ≠ '.' ∧ isDigit c = false))

theorem noAmount_of_isBlank {c : Char} (h : isBlank c = true) : NoAmount c :=
  of_isBlank (by decide +kernel) h

theorem noAmount_of_all {text : List Char} (h : text.all (fun c => decide (NoAmount c)) = true) :
    ∀ c ∈ text, NoAmount c :=
  fun c hc => of_decide_eq_true (List.all_eq_true.mp h c hc)

theorem noAmount_of_sizeWord {a m : Place} (h : sizeWord.Reads a m) :
    ∃ word rest, a.after = word ++ rest ∧ m = a.past word rest ∧ ∀ c ∈ word, NoAmount c := by
  have hblind : sizeWord.Blind := Pattern.blind_optional ⟨Pattern.blind_exactly _, trivial⟩
  have hsize : ∀ c ∈ "size".toList, NoAmount c := noAmount_of_all (by decide)
  obtain ⟨word, rest, he, hword, rfl⟩ := (Pattern.reads_iff_of_blind hblind ..).mp h
  refine ⟨word, rest, he, rfl, fun c hc => ?_⟩
  rcases (Pattern.spells_optional word).mp hword with ⟨u, v, hu, ⟨hv, -⟩, rfl⟩ | rfl
  · rw [(Pattern.spells_exactly ..).mp hu] at hc
    rcases List.mem_append.mp hc with hc | hc
    · exact hsize c hc
    · exact noAmount_of_isBlank (hv c hc)
  · cases hc

theorem noAmount_of_sizeSystem {n b : Place} (h : sizeSystem.Reads n b) :
    ∃ word rest, n.after = word ++ rest ∧ b = n.past word rest ∧ ∀ c ∈ word, NoAmount c := by
  have hblind : sizeSystem.Blind := by
    refine Pattern.blind_optional ⟨trivial, Pattern.blind_any fun p hp => ?_⟩
    simp only [List.mem_cons, List.not_mem_nil, or_false] at hp
    rcases hp with rfl | rfl | rfl <;> exact Pattern.blind_exactly _
  have hsystems : ∀ c, c ∈ "us".toList ∨ c ∈ "eu".toList ∨ c ∈ "uk".toList → NoAmount c := by
    have hall : ∀ c ∈ "us".toList ++ ("eu".toList ++ "uk".toList), NoAmount c := noAmount_of_all (by decide)
    intro c hc
    exact hall c (by simpa only [List.mem_append] using hc)
  obtain ⟨word, rest, he, hword, rfl⟩ := (Pattern.reads_iff_of_blind hblind ..).mp h
  refine ⟨word, rest, he, rfl, fun c hc => ?_⟩
  rcases (Pattern.spells_optional word).mp hword with ⟨u, v, ⟨hu, -⟩, hv, rfl⟩ | rfl
  · rcases List.mem_append.mp hc with hc | hc
    · exact noAmount_of_isBlank (hu c hc)
    · obtain ⟨p, hp, hspells⟩ := (Pattern.spells_any v).mp hv
      simp only [List.mem_cons, List.not_mem_nil, or_false] at hp
      apply hsystems
      rcases hp with rfl | rfl | rfl
      · exact .inl ((Pattern.spells_exactly ..).mp hspells ▸ hc)
      · exact .inr (.inl ((Pattern.spells_exactly ..).mp hspells ▸ hc))
      · exact .inr (.inr ((Pattern.spells_exactly ..).mp hspells ▸ hc))
  · cases hc

theorem notInAmount_iff (p : Place) : notInAmount p = true ↔ ∀ c ∈ p.before.head?, NoAmount c := by
  unfold notInAmount NoAmount
  cases p.before.head? <;> simp [and_assoc]

theorem noFractionAfter_iff (p : Place) : noFractionAfter p = true ↔ ¬ Fraction p.after := by
  unfold noFractionAfter Fraction
  split
  · rename_i c rest he
    simp [he]
  · rename_i hother
    simp only [true_iff]
    rintro ⟨c, rest, he, -⟩
    exact hother c rest he

/-- **The digits of a size are a number that stands by itself.** -/
theorem Sized.number {a m n b : Place} (h : Sized a m n b) : ∃ run, m.after = run ++ n.after ∧
    n = m.past run n.after ∧ Number a.text m.before.reverse run n.after ∧ Bare m.before.reverse n.after := by
  obtain ⟨run, rest, hm, hdigits, hleast, hmost, rfl⟩ := h.digits
  have hmost := hmost 2 rfl
  have hne : run ≠ [] := List.length_pos_iff.mp hleast
  have hbefore : ∀ c ∈ m.before.head?, NoAmount c := by
    obtain ⟨word, rest', -, rfl, hword⟩ := noAmount_of_sizeWord h.word
    intro c hc
    simp only [Place.past, List.head?_append, Option.mem_def, Option.or_eq_some_iff] at hc
    rcases hc with hc | ⟨-, hc⟩
    · exact hword c (List.mem_reverse.mp (List.mem_of_head? hc))
    · exact (notInAmount_iff a).mp h.clear c hc
  have hafter : (∀ c ∈ rest.head?, isDigit c = false) ∧ ¬ Fraction rest := by
    obtain ⟨word, rest', hrest, hb, hword⟩ := noAmount_of_sizeSystem h.system
    obtain rfl : rest = word ++ rest' := hrest
    cases word with
    | nil =>
      -- the size ends with its digits
      subst hb
      have hfraction := (noFractionAfter_iff _).mp h.noFraction
      refine ⟨fun c hc => ?_, hfraction⟩
      have hedge := h.edge
      have hlast : isWord? (run.reverse ++ m.before).head? = true :=
        isWord?_head?_of_digits (by simpa using hne) (by simpa using hdigits) m.before
      simp only [Place.atWordEdge, Place.past, List.reverse_nil, List.nil_append, hlast, bne_iff_ne, ne_eq] at hedge
      by_contra hdigit
      rw [List.nil_append, Option.mem_def] at hc
      rw [hc] at hedge
      exact hedge (isWord_of_isDigit (by simpa using hdigit)).symm
    | cons c word =>
      obtain ⟨-, hpoint, hdigit⟩ := hword c (List.mem_cons_self ..)
      constructor
      · rintro d hd
        obtain rfl := Option.some.inj hd
        exact hdigit
      · rintro ⟨d, more, he, -⟩
        exact hpoint (List.cons.inj he).1
  refine ⟨run, hm, rfl, ⟨?_, by omega, hdigits, fun c hc => ?_, hafter.1⟩, ⟨?_, ?_, hafter.2⟩⟩
  · rw [← Pattern.text_of_reads h.word, Place.text, hm, List.append_assoc]
    rfl
  · rw [List.getLast?_reverse] at hc
    exact (hbefore c hc).2.2
  · rw [List.getLast?_reverse]
    exact fun hc => (hbefore _ hc).1 rfl
  · rw [List.getLast?_reverse]
    exact fun hc => (hbefore _ hc).2.1 rfl

/-- What the search for sizes finds. -/
theorem sized_of_searchAll {text : List Char} {s : Pattern.Found} (h : s ∈ numericSize.searchAll text) :
    s.first.text = text ∧ ∃ m n, Sized s.first m n s.last ∧ s.parts = [⟨m, n⟩] := by
  obtain ⟨a, ha, hread⟩ := Pattern.exists_readAt_of_searchAllFrom h
  obtain ⟨rfl, hyields⟩ := Pattern.yields_of_readAt hread
  exact ⟨ha, sized_of_yields hyields⟩

theorem text_of_past {m : Place} {run rest : List Char} (h : m.after = run ++ rest) :
    (Stretch.mk m (m.past run rest)).text = run := by
  obtain ⟨hstart, hstop⟩ := Pattern.size_of_past (s := ⟨m, m.past run rest⟩) rfl rfl
  unfold Stretch.text Stretch.size
  rw [hstart, hstop, Nat.add_sub_cancel_left]
  dsimp only
  rw [h, List.take_left]

/-- **A numeric size is a number of the text** that stands by itself. -/
theorem number_of_numericSizes {text : List Char} {size : String} (h : size ∈ numericSizes text) :
    ∃ before after, Number text before size.toList after ∧ Bare before after := by
  obtain ⟨s, hs, hsize⟩ := List.mem_filterMap.mp h
  obtain ⟨rfl, m, n, hsized, hparts⟩ := sized_of_searchAll hs
  obtain ⟨run, hm, hn, hnumber, hbare⟩ := hsized.number
  rw [hparts] at hsize
  obtain rfl := Option.some.inj hsize
  refine ⟨m.before.reverse, n.after, ?_, hbare⟩
  rw [String.toList_ofList, hn, text_of_past hm]
  exact hnumber

/-- A character of the text between two places. -/
theorem exists_passed {a : Place} {word rest : List Char} (h : a.after = word ++ rest) {k : Nat}
    (hlow : a.index ≤ k) (hhigh : k < (a.past word rest).index) : ∃ c ∈ word, a.text[k]? = some c := by
  have hk : k - a.before.length < word.length := by
    simp only [Place.index, Place.past, List.length_append, List.length_reverse] at hlow hhigh
    omega
  refine ⟨word[k - a.before.length], List.getElem_mem hk, ?_⟩
  unfold Place.index at hlow
  rw [Place.text, h, List.getElem?_append_right (by simpa using hlow), List.length_reverse,
    List.getElem?_append_left hk, List.getElem?_eq_getElem hk]

/-- A digit within what is read as a size is one of its digits. -/
theorem Sized.within {a m n b : Place} (h : Sized a m n b) {k : Nat} {c : Char} (hlow : a.index ≤ k)
    (hhigh : k < b.index) (hc : a.text[k]? = some c) (hdigit : isDigit c = true) : m.index ≤ k ∧ k < n.index := by
  have hnot : ∀ {word : List Char}, (∀ d ∈ word, NoAmount d) → ¬ ∃ d ∈ word, a.text[k]? = some d := by
    rintro word hword ⟨d, hd, he⟩
    have hd := (hword d hd).2.2
    obtain rfl := Option.some.inj (hc.symm.trans he)
    cases hd.symm.trans hdigit
  constructor
  · obtain ⟨word, rest, he, rfl, hword⟩ := noAmount_of_sizeWord h.word
    by_contra hlt
    exact hnot hword (exists_passed he hlow (by omega))
  · obtain ⟨word, rest, he, rfl, hword⟩ := noAmount_of_sizeSystem h.system
    have htext : n.text = a.text := (Pattern.text_of_reads h.digits).trans (Pattern.text_of_reads h.word)
    by_contra hle
    obtain ⟨d, hd, hget⟩ := exists_passed he (by omega) hhigh
    exact hnot hword ⟨d, hd, htext ▸ hget⟩

theorem consumes_numericSize : numericSize.Consumes := by
  have hle : ∀ {p : Pattern} {a b : Place}, p.Reads a b → a.index ≤ b.index := by
    intro p a b h
    obtain ⟨word, rest, -, rfl⟩ := Pattern.exists_word_of_reads h
    simp [Place.index, Place.past]
  rintro a ⟨_, ⟨rfl, -⟩, _, ⟨rfl, -⟩, m, hword, n, ⟨run, rest, -, -, hleast, -, rfl⟩, _, hsystem, _, ⟨rfl, -⟩, rfl, -⟩
  have hfirst := hle hword
  have hlast := hle hsystem
  simp only [Place.index, Place.past, List.length_append, List.length_reverse] at hfirst hlast
  omega

/-- Digits that stand by themselves between other than word characters are read as a size. -/
theorem Number.reads {text before run after : List Char} (h : Number text before run after)
    (hbare : Bare before after) (hbefore : isWord? before.getLast? = false) (hafter : isWord? after.head? = false) :
    ∃ b, numericSize.Reads ⟨before.reverse, run ++ after⟩ b := by
  have hhead : before.reverse.head? = before.getLast? := List.head?_reverse
  have hfirst : isWord? (run ++ after).head? = true := isWord?_head?_of_digits h.ne_nil h.digits after
  have hlast : isWord? (run.reverse ++ before.reverse).head? = true :=
    isWord?_head?_of_digits (by simpa using h.ne_nil) (by simpa using h.digits) before.reverse
  have hsized : Sized ⟨before.reverse, run ++ after⟩ ⟨before.reverse, run ++ after⟩
      (Place.past ⟨before.reverse, run ++ after⟩ run after) (Place.past ⟨before.reverse, run ++ after⟩ run after) := by
    refine ⟨(notInAmount_iff _).mpr fun c hc => ?_, .inr ⟨rfl, rfl⟩, ⟨run, after, rfl, h.digits, ?_, ?_, rfl⟩,
      .inr ⟨rfl, rfl⟩, ?_, (noFractionAfter_iff _).mpr hbare.noFraction⟩
    · rw [hhead] at hc
      refine ⟨?_, ?_, h.first c hc⟩
      · rintro rfl
        exact hbare.noDollar hc
      · rintro rfl
        exact hbare.noPoint hc
    · exact List.length_pos_iff.mpr h.ne_nil
    · rintro _ ⟨⟩
      rcases h.short with h | h <;> omega
    · simp only [Place.atWordEdge, Place.past, hlast, hafter, bne_iff_ne]
      decide
  have hedge : (Place.mk before.reverse (run ++ after)).atWordEdge = true := by
    simp only [Place.atWordEdge, hhead, hbefore, hfirst, bne_iff_ne]
    decide
  exact ⟨_, reads_numericSize hsized hedge⟩

theorem Number.exists_digit {text before run after : List Char} (h : Number text before run after) :
    ∃ c, text[before.length]? = some c ∧ isDigit c = true := by
  obtain ⟨c, rest, hrun⟩ := List.exists_cons_of_ne_nil h.ne_nil
  refine ⟨c, ?_, h.digits c (by simp [hrun])⟩
  rw [h.split, hrun]
  simp

/-- **A number that stands by itself between other than word characters is found.** -/
theorem mem_numericSizes {text before run after : List Char} (h : Number text before run after)
    (hbare : Bare before after) (hbefore : isWord? before.getLast? = false) (hafter : isWord? after.head? = false) :
    String.ofList run ∈ numericSizes text := by
  obtain ⟨b, hreads⟩ := h.reads hbare hbefore hafter
  obtain ⟨s, hs, hstart, hstop⟩ := Pattern.exists_covering consumes_numericSize hreads
  have htext : (Place.mk before.reverse (run ++ after)).text = text := by
    simp [Place.text, h.split]
  have hindex : (Place.mk before.reverse (run ++ after)).index = before.length := by
    simp [Place.index]
  rw [htext] at hs
  rw [hindex] at hstart hstop
  -- what is found there has the same digits
  obtain ⟨hs', m, n, hfound, hparts⟩ := sized_of_searchAll hs
  obtain ⟨run', hm, hn, hnumber, -⟩ := hfound.number
  obtain ⟨c, hc, hdigit⟩ := h.exists_digit
  obtain ⟨hlow, hhigh⟩ := hfound.within hstart hstop (hs' ▸ hc) hdigit
  rw [hs'] at hnumber
  have hsame : run' = run := by
    refine h.eq_of_overlap hnumber ?_ ?_
    · simpa [Place.index] using hlow
    · rw [hn] at hhigh
      simp only [Place.index, Place.past, List.length_append, List.length_reverse] at hhigh
      rw [List.length_reverse]
      omega
  refine List.mem_filterMap.mpr ⟨s, hs, ?_⟩
  rw [hparts, hn, List.head?_cons, Option.map_some, text_of_past hm, hsame]

/-! ### the budget in a text -/

/-- The character may stand at the beginning of a budget. -/
def Opens (c : Char) : Prop :=
  isDigit c = false ∧ c ≠ '.'

instance (c : Char) : Decidable (Opens c) :=
  inferInstanceAs (Decidable (isDigit c = false ∧ c ≠ '.'))

theorem ends_amount : amount.Ends isDigit :=
  .seq (.seq (.part (Pattern.ends_run isDigit (by decide))) _) _

theorem begins_words {texts : List String}
    (h : texts.all (fun text => text.toList.head?.any fun c => decide (Opens c)) = true) :
    (words texts).Begins Opens := by
  refine Pattern.begins_any fun p hp => ?_
  obtain ⟨text, htext, rfl⟩ := List.mem_map.mp hp
  obtain ⟨c, hc, hopens⟩ := (Option.any_eq_true ..).mp (List.all_eq_true.mp h text htext)
  obtain ⟨rest, he⟩ := List.head?_eq_some_iff.mp hc
  exact Pattern.begins_exactly he (of_decide_eq_true hopens)

/-- **What is read as a budget** begins with no digit and no point, and ends with all digits of an amount. -/
theorem ends_of_budgetRules : ∀ rule ∈ budgetRules, rule.pattern.Begins Opens ∧ rule.pattern.Ends isDigit := by
  have hexactly : ∀ {text : String} {c : Char}, c ∈ text.toList.head? → Opens c →
      (Pattern.exactly text).Begins Opens := by
    intro text c hc hopens
    obtain ⟨rest, he⟩ := List.head?_eq_some_iff.mp hc
    exact Pattern.begins_exactly he hopens
  intro rule hrule
  simp only [budgetRules, List.mem_cons, List.not_mem_nil, or_false] at hrule
  rcases hrule with rfl | rfl | rfl | rfl
  · exact ⟨.seq (hexactly rfl (by decide)) _, .seq (.seq (.seq (.seq ends_amount _) _) _) _⟩
  · exact ⟨.seq (begins_words (by decide)) _, .seq ends_amount _⟩
  · refine ⟨.look_seq (.seq (Pattern.begins_any ?_) _) _, .seq (.seq ends_amount _) _⟩
    intro p hp
    simp only [List.mem_cons, List.not_mem_nil, or_false] at hp
    rcases hp with rfl | rfl | rfl | rfl
    · exact .seq (hexactly rfl (by decide)) _
    · exact hexactly rfl (by decide)
    · exact .seq (hexactly rfl (by decide)) _
    · exact hexactly rfl (by decide)
  · exact ⟨.look_seq (.seq (hexactly rfl (by decide)) _) _, .seq (.seq ends_amount _) _⟩

/-- A stretch with no digit and no point at its beginning and a digit at its end, behind which no digit stands. -/
structure Cut (word after : List Char) : Prop where
  first : ∃ c rest, word = c :: rest ∧ Opens c
  last : ∃ c ∈ word.getLast?, isDigit c = true
  next : ∀ c ∈ after.head?, isDigit c = false

theorem exists_search_of_findBudgetBy {text : List Char} {rules : List BudgetRule} {b : BudgetFound}
    (h : findBudgetBy text rules = .ok (some b)) :
    ∃ rule ∈ rules, ∃ found, rule.pattern.search text = some found ∧ b.stretch = found.toStretch := by
  induction rules with
  | nil => cases h
  | cons rule rules ih =>
    unfold findBudgetBy at h
    cases hs : rule.pattern.search text with
    | none =>
      rw [hs] at h
      obtain ⟨other, hmem, hfound⟩ := ih h
      exact ⟨other, List.mem_cons_of_mem _ hmem, hfound⟩
    | some found =>
      rw [hs] at h
      refine ⟨rule, List.mem_cons_self .., found, hs, ?_⟩
      obtain ⟨amounts, -, hb⟩ : ∃ amounts, found.parts.mapM readAmount = .ok amounts ∧
          Except.ok (some (BudgetFound.mk (rule.bounds amounts) found.toStretch)) = Except.ok (some b) := by
        cases ha : found.parts.mapM readAmount with
        | error f =>
          dsimp only at h
          rw [ha] at h
          cases h
        | ok amounts =>
          dsimp only at h
          rw [ha] at h
          exact ⟨amounts, rfl, h⟩
      rw [← Option.some.inj (Except.ok.inj hb)]

/-- **The stretch of a budget** in a text, and what is left without it. -/
theorem cut_of_findBudget {text : List Char} {b : BudgetFound} (h : findBudget text = .ok (some b)) :
    ∃ before word after, text = before ++ word ++ after ∧ Cut word after ∧ b.stretch.start = before.length ∧
      b.stretch.stop = (before ++ word).length ∧ withoutBudget text (some b) = before ++ ' ' :: after := by
  obtain ⟨rule, hrule, found, hsearch, hstretch⟩ := exists_search_of_findBudgetBy h
  obtain ⟨hbegins, hends⟩ := ends_of_budgetRules rule hrule
  obtain ⟨a, htext, hread⟩ := Pattern.exists_readAt_of_searchFrom hsearch
  obtain ⟨hfirst, hreads⟩ := Pattern.reads_of_readAt hread
  obtain ⟨c, word, rest, hafter, hlast, hopens⟩ := hbegins a found.last hreads
  obtain ⟨hstart, hstop⟩ := Pattern.size_of_past hfirst hlast
  have htext : text = a.before.reverse ++ (c :: word) ++ rest := by
    rw [List.append_assoc, ← hafter]
    exact htext.symm
  have hcut : Cut (c :: word) rest := by
    obtain ⟨r, hr, hplace⟩ := Option.map_eq_some_iff.mp hread
    have hend := hends _ r hr
    have hr' : r.place = found.last := by rw [← hplace]
    rw [hr', hlast] at hend
    refine ⟨⟨c, word, rfl, hopens⟩, ?_, hend.2⟩
    obtain ⟨⟨d, hd, hdigit⟩, -⟩ := hend
    refine ⟨d, ?_, hdigit⟩
    simpa [Place.past, List.head?_append, List.getLast?_cons] using hd
  have hstart : b.stretch.start = a.before.reverse.length := by
    rw [hstretch, hstart, List.length_reverse]
    rfl
  have hstop : b.stretch.stop = (a.before.reverse ++ (c :: word)).length := by
    rw [hstretch, hstop, List.length_append, List.length_reverse]
    rfl
  refine ⟨a.before.reverse, c :: word, rest, htext, hcut, hstart, hstop, ?_⟩
  show text.take b.stretch.start ++ ' ' :: text.drop b.stretch.stop = _
  rw [hstart, hstop, htext, List.drop_left, List.append_assoc, List.take_left]

/-! ### numbers beside the budget -/

section

variable {before run after pre word post : List Char}

/-- Behind a number it makes no difference what comes after a part that stays, if it begins like a budget. -/
theorem ends_of_opens {more tail tail' : List Char} (hopens : ∀ c ∈ tail'.head?, Opens c)
    (hdigit : ∀ c ∈ (more ++ tail).head?, isDigit c = false) (hfraction : ¬ Fraction (more ++ tail)) :
    (∀ c ∈ (more ++ tail').head?, isDigit c = false) ∧ ¬ Fraction (more ++ tail') := by
  cases more with
  | nil =>
    refine ⟨fun c hc => (hopens c hc).1, ?_⟩
    rintro ⟨c, rest, he, -⟩
    rw [List.nil_append] at he
    exact (hopens '.' (by simp [he])).2 rfl
  | cons d more =>
    refine ⟨hdigit, ?_⟩
    rintro ⟨c, rest, he, hc⟩
    obtain ⟨rfl, hrest⟩ := List.cons.inj he
    cases more with
    | nil =>
      have hfirst := hopens c (by simp [show tail' = c :: rest from hrest])
      cases hfirst.1.symm.trans hc
    | cons e more =>
      obtain ⟨rfl, -⟩ := List.cons.inj hrest
      exact hfraction ⟨e, more ++ tail, rfl, hc⟩

/-- Digits stand before a space or behind it. -/
theorem before_or_behind (hrun : ∀ c ∈ run, isDigit c = true)
    (h : before ++ run ++ after = pre ++ ' ' :: post) :
    (∃ more, pre = before ++ run ++ more ∧ after = more ++ ' ' :: post) ∨
      ∃ more, before = pre ++ ' ' :: more ∧ post = more ++ run ++ after := by
  have hspace : ' ' ∉ run := fun hmem => absurd (hrun ' ' hmem) (by decide)
  rcases List.append_eq_append_iff.mp h with ⟨more, hpre, hafter⟩ | ⟨_ | ⟨c, more⟩, hfront, hrest⟩
  · exact .inl ⟨more, hpre, hafter⟩
  · exact .inl ⟨[], by simpa using hfront.symm, by simpa using hrest.symm⟩
  · obtain ⟨rfl, rfl⟩ := List.cons.inj hrest
    rcases List.append_eq_append_iff.mp hfront with ⟨inner, -, hinner⟩ | ⟨_ | ⟨d, inner⟩, hbefore, hinner⟩
    · exact absurd (hinner ▸ by simp) hspace
    · rw [List.nil_append] at hinner
      exact absurd (hinner ▸ by simp) hspace
    · obtain ⟨rfl, rfl⟩ := List.cons.inj hinner
      exact .inr ⟨inner, hbefore, rfl⟩

/-- Digits that do not reach into a stretch stand before it or behind it. -/
theorem before_or_behind_of_length (h : before ++ run ++ after = pre ++ word ++ post)
    (hout : (before ++ run).length ≤ pre.length ∨ (pre ++ word).length ≤ before.length) :
    (∃ more, pre = before ++ run ++ more ∧ after = more ++ (word ++ post)) ∨
      ∃ more, before = pre ++ word ++ more ∧ post = more ++ run ++ after := by
  rcases hout with hle | hle
  · have hsplit : (before ++ run) ++ after = pre ++ (word ++ post) := by simpa using h
    obtain ⟨more, rfl⟩ : before ++ run <+: pre :=
      List.prefix_of_prefix_length_le ⟨after, hsplit⟩ (List.prefix_append ..) hle
    rw [List.append_assoc (before ++ run)] at hsplit
    exact .inl ⟨more, rfl, List.append_cancel_left hsplit⟩
  · have hsplit : (pre ++ word) ++ post = before ++ (run ++ after) := by simpa using h.symm
    obtain ⟨more, rfl⟩ : pre ++ word <+: before :=
      List.prefix_of_prefix_length_le ⟨post, hsplit⟩ (List.prefix_append ..) hle
    rw [List.append_assoc (pre ++ word)] at hsplit
    exact .inr ⟨more, rfl, by simpa using List.append_cancel_left hsplit⟩

theorem opens_of_cut (h : Cut word post) : ∀ c ∈ (word ++ post).head?, Opens c := by
  obtain ⟨d, rest, rfl, hopens⟩ := h.first
  rintro c hc
  obtain rfl := Option.some.inj hc
  exact hopens

/-- **A number beside the space for the budget** is one of the text, and does not reach into the budget. -/
theorem Cut.number (h : Cut word post) (hnumber : Number (pre ++ ' ' :: post) before run after)
    (hbare : Bare before after) : ∃ before' after', Number (pre ++ word ++ post) before' run after' ∧
      Bare before' after' ∧ ((before' ++ run).length ≤ pre.length ∨ (pre ++ word).length ≤ before'.length) := by
  rcases before_or_behind hnumber.digits hnumber.split.symm with ⟨more, rfl, rfl⟩ | ⟨more, rfl, rfl⟩
  · obtain ⟨hlast, hfraction⟩ := ends_of_opens (opens_of_cut h) hnumber.last hbare.noFraction
    refine ⟨before, more ++ (word ++ post), ⟨by simp, hnumber.short, hnumber.digits, hnumber.first, hlast⟩,
      ⟨hbare.noDollar, hbare.noPoint, hfraction⟩, .inl ?_⟩
    simp
  · -- the digits of the budget do not go on in the number
    have hmore : more ≠ [] := by
      rintro rfl
      obtain ⟨d, rest, hrun⟩ := List.exists_cons_of_ne_nil hnumber.ne_nil
      have hdigit := h.next d (by simp [hrun])
      rw [hnumber.digits d (by simp [hrun])] at hdigit
      cases hdigit
    have hlast : (pre ++ word ++ more).getLast? = (pre ++ ' ' :: more).getLast? := by
      rw [List.getLast?_append_of_ne_nil _ hmore, List.append_cons, List.getLast?_append_of_ne_nil _ hmore]
    refine ⟨pre ++ word ++ more, after, ⟨by simp, hnumber.short, hnumber.digits, hlast ▸ hnumber.first, hnumber.last⟩,
      ⟨hlast ▸ hbare.noDollar, hlast ▸ hbare.noPoint, hbare.noFraction⟩, .inr ?_⟩
    simp

/-- **A number of the text that does not reach into the budget** stands beside the space for it. -/
theorem Cut.number_of_text (h : Cut word post) (hnumber : Number (pre ++ word ++ post) before run after)
    (hbare : Bare before after) (hbefore : isWord? before.getLast? = false) (hafter : isWord? after.head? = false)
    (hout : (before ++ run).length ≤ pre.length ∨ (pre ++ word).length ≤ before.length) :
    ∃ before' after', Number (pre ++ ' ' :: post) before' run after' ∧ Bare before' after' ∧
      isWord? before'.getLast? = false ∧ isWord? after'.head? = false := by
  rcases before_or_behind_of_length hnumber.split.symm hout with ⟨more, rfl, rfl⟩ | ⟨more, rfl, rfl⟩
  · have hspace : ∀ c ∈ (' ' :: post).head?, Opens c := by
      rintro _ ⟨⟩
      decide
    obtain ⟨hlast, hfraction⟩ := ends_of_opens hspace hnumber.last hbare.noFraction
    refine ⟨before, more ++ ' ' :: post, ⟨by simp, hnumber.short, hnumber.digits, hnumber.first, hlast⟩,
      ⟨hbare.noDollar, hbare.noPoint, hfraction⟩, hbefore, ?_⟩
    cases more with
    | nil => rfl
    | cons c more => exact hafter
  · have hmore : more ≠ [] := by
      rintro rfl
      obtain ⟨d, hd, hdigit⟩ := h.last
      have hnot := hnumber.first d (by simp [List.getLast?_append, Option.mem_def.mp hd])
      cases hnot.symm.trans hdigit
    have hlast : (pre ++ ' ' :: more).getLast? = (pre ++ word ++ more).getLast? := by
      rw [List.getLast?_append_of_ne_nil _ hmore, List.append_cons, List.getLast?_append_of_ne_nil _ hmore]
    refine ⟨pre ++ ' ' :: more, after, ⟨by simp, hnumber.short, hnumber.digits, hlast ▸ hnumber.first, hnumber.last⟩,
      ⟨hlast ▸ hbare.noDollar, hlast ▸ hbare.noPoint, hbare.noFraction⟩, ?_, hafter⟩
    rw [hlast, hbefore]

end

/-! ### sizes of a message -/

/-- The digits behind these characters do not reach into the budget. -/
def Outside (found : Option BudgetFound) (before run : List Char) : Prop :=
  ∀ b ∈ found, (before ++ run).length ≤ b.stretch.start ∨ b.stretch.stop ≤ before.length

theorem nodup_letterSizes (text : List Char) : (letterSizes text).Nodup := by
  have hfound : ∀ (rules : List SizeRule) (s : SizeScan), ∃ sizes,
      sizes.Sublist (rules.map SizeRule.size) ∧ (rules.foldl SizeScan.look s).found = s.found ++ sizes := by
    intro rules
    induction rules with
    | nil => exact fun s => ⟨[], .slnil, (List.append_nil _).symm⟩
    | cons rule rules ih =>
      intro s
      obtain ⟨sizes, hsub, he⟩ := ih (s.look rule)
      rw [List.foldl_cons, he]
      unfold SizeScan.look
      split
      · exact ⟨rule.size :: sizes, hsub.cons_cons _, by simp⟩
      · exact ⟨sizes, hsub.cons _, rfl⟩
  obtain ⟨sizes, hsub, he⟩ := hfound sizeRules ⟨[], text⟩
  unfold letterSizes
  rw [he, List.nil_append]
  exact List.Nodup.sublist hsub (by decide)

theorem tidied_sizes (text : List Char) : tidied "sizes" (sizes text) = sizes text := by
  have hnodup : (sizes text).Nodup := nodup_firsts (nodup_letterSizes text)
  have hmap : (sizes text).map (ruleOf "sizes") = sizes text := List.map_id _
  have hsome : ∀ size, IsSize size → (!size.isEmpty) = true := by
    rintro size (h | ⟨h, -⟩)
    · have hletters : ∀ size ∈ ["XS", "S", "M", "L", "XL"], (!size.isEmpty) = true := by decide
      exact hletters size h
    · simp only [Bool.not_eq_true', String.isEmpty_eq_false_iff]
      rintro rfl
      rcases h with h | h <;> cases h
  unfold tidied broadened
  rw [if_neg (by decide), hmap, firsts_nil hnodup, List.filter_eq_self]
  exact fun size hsize => hsome size (isSize_of_sizes hsize)

/-- A size of letters is no number. -/
theorem exists_letter {size : String} (h : size ∈ sizeRules.map SizeRule.size) :
    ∃ c ∈ size.toList, isDigit c = false := by
  have hletters : (sizeRules.map SizeRule.size).all (fun size => size.toList.any fun c => !isDigit c) = true := by
    decide
  obtain ⟨c, hc, hnot⟩ := List.any_eq_true.mp (List.all_eq_true.mp hletters size h)
  exact ⟨c, hc, Bool.not_eq_true' _ ▸ hnot⟩

/-- A size made of digits is a numeric one. -/
theorem mem_sizes_of_digits {text : List Char} {size : String} (h : size ∈ sizes text)
    (hdigits : ∀ c ∈ size.toList, isDigit c = true) : size ∈ numericSizes text := by
  refine (mem_firsts.mp h).resolve_left fun hletter => ?_
  obtain ⟨c, hc, hnot⟩ := exists_letter ((foldl_look_found hletter).resolve_left List.not_mem_nil)
  cases hnot.symm.trans (hdigits c hc)

/-- **Digits of prices are no sizes, and all other small numbers are.** The sizes of a message are looked for where
its budget has been made a space. Those that are numbers are numbers of the message of one or two digits that do not
reach into the budget, stand behind no dollar sign and no point, and before no fraction. Every such number is a size
if no word character touches it. -/
theorem sizes_of_findBudget {text : List Char} {found : Option BudgetFound}
    (h : findBudget (clean text) = .ok found) :
    (∀ known e, extractWith text (.ok known) = .ok e →
      Fields.get? e.filters "sizes" = listValue (sizes (withoutBudget (clean text) found))) ∧
    (∀ size ∈ sizes (withoutBudget (clean text) found), (∀ c ∈ size.toList, isDigit c = true) →
      ∃ before after, Number (clean text) before size.toList after ∧ Outside found before size.toList ∧
        Bare before after) ∧
    ∀ before run after, Number (clean text) before run after → Outside found before run → Bare before after →
      isWord? before.getLast? = false → isWord? after.head? = false →
      String.ofList run ∈ sizes (withoutBudget (clean text) found) := by
  refine ⟨fun known e he => ?_, fun size hsize hdigits => ?_, ?_⟩
  · rcases cases_of_extractWith he with ⟨hempty, rfl⟩ | ⟨found', hfound', rfl⟩
    · rw [hempty] at h ⊢
      obtain rfl : none = found := Except.ok.inj h
      rfl
    · obtain rfl := Except.ok.inj (h.symm.trans hfound')
      dsimp only [Extraction.ofCleaned]
      have hraw : Fields.get? (rawFilters (clean text) found known) "sizes" =
          some (.ofStrings (sizes (withoutBudget (clean text) found))) := rfl
      rw [get?_normalize_list (holds_rawFilters (clean text) found known).nodup (by decide) hraw, tidied_sizes]
  · obtain ⟨before, after, hnumber, hbare⟩ := number_of_numericSizes (mem_sizes_of_digits hsize hdigits)
    cases found with
    | none => exact ⟨before, after, hnumber, nofun, hbare⟩
    | some b =>
      obtain ⟨pre, word, post, hsplit, hcut, hstart, hstop, hwithout⟩ := cut_of_findBudget h
      rw [hwithout] at hnumber
      obtain ⟨before', after', hnumber', hbare', hout⟩ := hcut.number hnumber hbare
      refine ⟨before', after', hsplit ▸ hnumber', ?_, hbare'⟩
      rintro _ ⟨⟩
      rwa [hstart, hstop]
  · intro before run after hnumber hout hbare hbefore hafter
    refine mem_firsts.mpr (.inr ?_)
    cases found with
    | none => exact mem_numericSizes hnumber hbare hbefore hafter
    | some b =>
      obtain ⟨pre, word, post, hsplit, hcut, hstart, hstop, hwithout⟩ := cut_of_findBudget h
      have hout := hout b rfl
      rw [hstart, hstop] at hout
      rw [hsplit] at hnumber
      obtain ⟨before', after', hnumber', hbare', hbefore', hafter'⟩ :=
        hcut.number_of_text hnumber hbare hbefore hafter hout
      rw [hwithout]
      exact mem_numericSizes hnumber' hbare' hbefore' hafter'

/-- The number before the budget is a size, and that of the budget is none. -/
theorem sizes_of_findBudget_of_heels : ∃ b, findBudget (clean "Size 10 heels under $80".toList) = .ok (some b) ∧
    "10" ∈ sizes (withoutBudget (clean "Size 10 heels under $80".toList) (some b)) ∧
    "80" ∉ sizes (withoutBudget (clean "Size 10 heels under $80".toList) (some b)) := by
  have hclean : clean "Size 10 heels under $80".toList = "size 10 heels under $80".toList := by decide +kernel
  obtain ⟨b, hfound, hstart, hstop⟩ : ∃ b, findBudget "size 10 heels under $80".toList = .ok (some b) ∧
      b.stretch.start = 14 ∧ b.stretch.stop = 23 := ⟨_, rfl, rfl, rfl⟩
  rw [← hclean] at hfound
  obtain ⟨-, hnumbers, hmem⟩ := sizes_of_findBudget hfound
  refine ⟨b, hfound, ?_, fun hsize => ?_⟩
  · refine hmem "size ".toList "10".toList " heels under $80".toList ?_ ?_ ?_ (by decide) (by decide)
    · rw [hclean]
      refine ⟨by decide, by decide, List.all_eq_true.mp (by decide), ?_, ?_⟩
      · rintro _ ⟨⟩
        rfl
      · rintro _ ⟨⟩
        rfl
    · rintro _ ⟨⟩
      rw [hstart]
      exact .inl (by decide)
    · refine ⟨by decide, by decide, ?_⟩
      rintro ⟨c, rest, he, -⟩
      exact absurd (List.cons.inj he).1 (by decide)
  · obtain ⟨before, after, hnumber, hout, -⟩ := hnumbers "80" hsize (List.all_eq_true.mp (by decide))
    have hget : "size 10 heels under $80".toList[before.length]? = some '8' := by
      rw [← hclean, hnumber.split]
      simp
    have honly : ∀ i < 24, "size 10 heels under $80".toList[i]? = some '8' → i = 21 := by decide
    have hlength := (List.getElem?_eq_some_iff.mp hget).1
    have hindex := honly before.length (Nat.lt_succ_of_lt hlength) hget
    have hout := hout b rfl
    rw [List.length_append, hindex, hstart, hstop] at hout
    omega

end Outfitter.Message
