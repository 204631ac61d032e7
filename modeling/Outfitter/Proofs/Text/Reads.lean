import Outfitter.Proofs.Text.Blank
import Outfitter.Text.Pattern

/-!
What patterns read.

`Pattern.Reads p a b` says that `p` may be read from the place `a` to the place `b`. The readings that
the search goes through end at just these places (`mem_readings`), so a pattern is found in a text
exactly if it reads from one of its places (`foundIn_iff`).

A pattern that asks nothing about the places it passes reads the same words everywhere, the ones that
it spells (`reads_iff_of_blind`). Between two edges of words it is found where one of them stands
(`foundIn_whole_iff`), and blanks at the ends of the text make no difference to that if the words end in
other characters (`foundIn_whole_trim`).
-/

namespace Outfitter.Text

/-- What stands before the place, in its order, and what stands after it. -/
def Place.text (p : Place) : List Char :=
  p.before.reverse ++ p.after

/-- The place behind some characters that follow. -/
def Place.past (p : Place) (word rest : List Char) : Place :=
  ⟨word.reverse ++ p.before, rest⟩

namespace Pattern

/-- The pattern may be read from the first place to the second. -/
def Reads : Pattern → Place → Place → Prop
  | look holds, a, b => b = a ∧ holds a = true
  | one accepts, a, b => ∃ c rest, a.after = c :: rest ∧ accepts c = true ∧ b = a.past [c] rest
  | run accepts least most, a, b =>
    ∃ word rest, a.after = word ++ rest ∧ (∀ c ∈ word, accepts c = true) ∧ least ≤ word.length ∧
      (∀ m, most = some m → word.length ≤ m) ∧ b = a.past word rest
  | seq first second, a, b => ∃ m, first.Reads a m ∧ second.Reads m b
  | either preferred other, a, b => preferred.Reads a b ∨ other.Reads a b
  | part inner, a, b => inner.Reads a b

/-! ### readings -/

theorem mem_runPlaces (accepts : Char → Bool) (after : List Char) :
    ∀ (least : Nat) (most : Option Nat) (before : List Char) (b : Place),
      b ∈ runPlaces accepts least most before after ↔
        (run accepts least most).Reads ⟨before, after⟩ b := by
  induction after with
  | nil =>
    intro least most before b
    constructor
    · intro h
      by_cases h0 : least = 0
      · obtain rfl : b = ⟨before, []⟩ := by simpa [runPlaces, h0] using h
        exact ⟨[], [], rfl, by simp, by simp [h0], by simp, rfl⟩
      · simp [runPlaces, h0] at h
    · rintro ⟨word, rest, he, -, hl, -, rfl⟩
      obtain ⟨rfl, rfl⟩ := List.append_eq_nil_iff.mp he.symm
      simp [runPlaces, Nat.le_zero.mp hl, Place.past]
  | cons c after ih =>
    intro least most before b
    -- a reading is empty, or its first character is `c` and the rest is read behind it
    have hlonger : b ∈ (if accepts c && most != some 0 then
          runPlaces accepts (least - 1) (most.map (· - 1)) (c :: before) after else []) ↔
        ∃ word rest, c :: after = (c :: word) ++ rest ∧ (∀ d ∈ c :: word, accepts d = true) ∧
          least ≤ (c :: word).length ∧ (∀ m, most = some m → (c :: word).length ≤ m) ∧
          b = Place.past ⟨before, c :: after⟩ (c :: word) rest := by
      constructor
      · intro h
        split at h
        · rename_i hc
          obtain ⟨word, rest, he, ha, hl, hm, rfl⟩ := (ih ..).mp h
          simp only [Bool.and_eq_true, bne_iff_ne] at hc
          refine ⟨word, rest, congrArg (c :: ·) he, List.forall_mem_cons.mpr ⟨hc.1, ha⟩, ?_, ?_, ?_⟩
          · simp only [List.length_cons]
            omega
          · rintro m rfl
            have := hm (m - 1) rfl
            have : m ≠ 0 := fun h0 => hc.2 (h0 ▸ rfl)
            simp only [List.length_cons]
            omega
          · simp [Place.past]
        · simp at h
      · rintro ⟨word, rest, he, ha, hl, hm, rfl⟩
        have ⟨hc, ha⟩ := List.forall_mem_cons.mp ha
        have hm0 : most ≠ some 0 := fun h0 => by simpa using hm 0 h0
        rw [if_pos (by simp [hc, hm0])]
        refine (ih ..).mpr ⟨word, rest, by simpa using he, ha, ?_, ?_, by simp [Place.past]⟩
        · simp only [List.length_cons] at hl
          omega
        · intro m hme
          obtain ⟨n, rfl, rfl⟩ := Option.map_eq_some_iff.mp hme
          have := hm n rfl
          simp only [List.length_cons] at this
          omega
    have hempty : ∀ rest word, c :: after = word ++ rest → word = [] ∧ rest = c :: after ∨
        ∃ word', word = c :: word' ∧ after = word' ++ rest := by
      rintro rest (_ | ⟨d, word⟩) he
      · exact .inl ⟨rfl, he.symm⟩
      · obtain ⟨rfl, hafter⟩ := List.cons.inj he
        exact .inr ⟨word, rfl, hafter⟩
    have hreads : (run accepts least most).Reads ⟨before, c :: after⟩ b ↔
        (least = 0 ∧ b = ⟨before, c :: after⟩) ∨
          b ∈ (if accepts c && most != some 0 then
            runPlaces accepts (least - 1) (most.map (· - 1)) (c :: before) after else []) := by
      rw [hlonger]
      constructor
      · rintro ⟨word, rest, he, ha, hl, hm, rfl⟩
        rcases hempty rest word he with ⟨rfl, rfl⟩ | ⟨word', rfl, -⟩
        · exact .inl ⟨Nat.le_zero.mp hl, rfl⟩
        · exact .inr ⟨word', rest, he, ha, hl, hm, rfl⟩
      · rintro (⟨rfl, rfl⟩ | ⟨word, rest, h⟩)
        · exact ⟨[], c :: after, rfl, by simp, Nat.le_refl 0, by simp, rfl⟩
        · exact ⟨c :: word, rest, h⟩
    rw [hreads, runPlaces]
    by_cases h0 : least = 0
    · rw [if_pos h0, List.mem_cons]
      simp [h0]
    · rw [if_neg h0]
      simp [h0]

/-- **The readings of a pattern end where it may be read to.** -/
theorem mem_readings (p : Pattern) (r : Reading) (b : Place) :
    (∃ r' ∈ p.readings r, r'.place = b) ↔ p.Reads r.place b := by
  induction p generalizing r b with
  | look holds =>
    by_cases h : holds r.place = true <;> simp [readings, Reads, h, eq_comm]
  | one accepts =>
    rw [readings, Reads]
    constructor
    · rintro ⟨r', hr, rfl⟩
      split at hr
      · exact absurd hr List.not_mem_nil
      · rename_i c after he
        split at hr
        · rename_i hc
          obtain rfl := List.mem_singleton.mp hr
          exact ⟨c, after, he, hc, rfl⟩
        · exact absurd hr List.not_mem_nil
    · rintro ⟨c, after, he, hc, rfl⟩
      rw [he]
      exact ⟨_, List.mem_ite_nil_right.mpr ⟨hc, List.mem_singleton.mpr rfl⟩, rfl⟩
  | run accepts least most =>
    rw [← mem_runPlaces, readings]
    constructor
    · rintro ⟨r', hr, rfl⟩
      obtain ⟨m, hm, rfl⟩ := List.mem_map.mp hr
      exact List.mem_reverse.mp hm
    · intro h
      exact ⟨⟨b, r.parts⟩, List.mem_map.mpr ⟨b, List.mem_reverse.mpr h, rfl⟩, rfl⟩
  | seq first second ih₁ ih₂ =>
    rw [readings, Reads]
    constructor
    · rintro ⟨r₂, hr, rfl⟩
      obtain ⟨r₁, h₁, h₂⟩ := List.mem_flatMap.mp hr
      exact ⟨r₁.place, (ih₁ ..).mp ⟨r₁, h₁, rfl⟩, (ih₂ ..).mp ⟨r₂, h₂, rfl⟩⟩
    · rintro ⟨m, h₁, h₂⟩
      obtain ⟨r₁, hr₁, rfl⟩ := (ih₁ ..).mpr h₁
      obtain ⟨r₂, hr₂, rfl⟩ := (ih₂ ..).mpr h₂
      exact ⟨r₂, List.mem_flatMap.mpr ⟨r₁, hr₁, hr₂⟩, rfl⟩
  | either preferred other ih₁ ih₂ =>
    simp only [readings, List.mem_append, Reads, ← ih₁, ← ih₂, or_and_right, exists_or]
  | part inner ih =>
    rw [readings, Reads, ← ih]
    constructor
    · rintro ⟨r', hr, rfl⟩
      obtain ⟨r₁, h₁, rfl⟩ := List.mem_map.mp hr
      exact ⟨r₁, h₁, rfl⟩
    · rintro ⟨r₁, h₁, rfl⟩
      exact ⟨_, List.mem_map.mpr ⟨r₁, h₁, rfl⟩, rfl⟩

theorem isSome_readAt (p : Pattern) (a : Place) : (p.readAt a).isSome = true ↔ ∃ b, p.Reads a b := by
  unfold readAt
  rw [Option.isSome_map, List.isSome_head?]
  constructor
  · intro h
    obtain ⟨r, hr⟩ := List.exists_mem_of_ne_nil _ (by simpa using h)
    exact ⟨r.place, (mem_readings p ⟨a, []⟩ _).mp ⟨r, hr, rfl⟩⟩
  · rintro ⟨b, hb⟩
    obtain ⟨r, hr, -⟩ := (mem_readings p ⟨a, []⟩ b).mpr hb
    simpa using List.ne_nil_of_mem hr

theorem reads_of_readAt {p : Pattern} {a : Place} {found : Found} (h : p.readAt a = some found) :
    found.first = a ∧ p.Reads a found.last := by
  obtain ⟨r, hr, rfl⟩ := Option.map_eq_some_iff.mp h
  exact ⟨rfl, (mem_readings p ⟨a, []⟩ _).mp ⟨r, List.mem_of_head? hr, rfl⟩⟩

theorem isSome_searchFrom (p : Pattern) (before after : List Char) :
    (p.searchFrom before after).isSome = true ↔
      ∃ passed rest, after = passed ++ rest ∧ ∃ b, p.Reads ⟨passed.reverse ++ before, rest⟩ b := by
  induction after generalizing before with
  | nil =>
    rw [searchFrom, isSome_readAt]
    constructor
    · intro h
      exact ⟨[], [], rfl, h⟩
    · rintro ⟨passed, rest, he, h⟩
      obtain ⟨rfl, rfl⟩ := List.append_eq_nil_iff.mp he.symm
      exact h
  | cons c after ih =>
    rw [searchFrom, Option.isSome_or, Bool.or_eq_true, isSome_readAt, ih]
    constructor
    · rintro (h | ⟨passed, rest, rfl, h⟩)
      · exact ⟨[], c :: after, rfl, h⟩
      · exact ⟨c :: passed, rest, rfl, by simpa using h⟩
    · rintro ⟨_ | ⟨d, passed⟩, rest, he, h⟩
      · obtain rfl : rest = c :: after := he.symm
        exact .inl h
      · obtain ⟨rfl, rfl⟩ := List.cons.inj he
        exact .inr ⟨passed, rest, rfl, by simpa using h⟩

/-- **A pattern is found in a text if it reads from one of the places in it.** -/
theorem foundIn_iff (p : Pattern) (text : List Char) :
    p.foundIn text = true ↔ ∃ a, a.text = text ∧ ∃ b, p.Reads a b := by
  unfold foundIn search
  rw [isSome_searchFrom]
  constructor
  · rintro ⟨passed, rest, rfl, b, h⟩
    exact ⟨⟨passed.reverse, rest⟩, by simp [Place.text], b, by simpa using h⟩
  · rintro ⟨a, rfl, b, h⟩
    exact ⟨a.before.reverse, a.after, rfl, b, by simpa using h⟩

/-! ### what is spelled -/

/-- The pattern reads the word at every place where it stands. -/
def Spells : Pattern → List Char → Prop
  | look holds, word => word = [] ∧ ∀ a, holds a = true
  | one accepts, word => ∃ c, accepts c = true ∧ word = [c]
  | run accepts least most, word =>
    (∀ c ∈ word, accepts c = true) ∧ least ≤ word.length ∧ ∀ m, most = some m → word.length ≤ m
  | seq first second, word => ∃ u v, first.Spells u ∧ second.Spells v ∧ word = u ++ v
  | either preferred other, word => preferred.Spells word ∨ other.Spells word
  | part inner, word => inner.Spells word

/-- The pattern asks nothing about the places that it passes. -/
def Blind : Pattern → Prop
  | look holds => ∀ a b, holds a = holds b
  | one _ | run .. => True
  | seq p q | either p q => p.Blind ∧ q.Blind
  | part inner => inner.Blind

theorem reads_iff_of_blind {p : Pattern} (h : p.Blind) (a b : Place) :
    p.Reads a b ↔ ∃ word rest, a.after = word ++ rest ∧ p.Spells word ∧ b = a.past word rest := by
  induction p generalizing a b with
  | look holds =>
    constructor
    · rintro ⟨rfl, ha⟩
      exact ⟨[], b.after, rfl, ⟨rfl, fun c => (h c b).trans ha⟩, rfl⟩
    · rintro ⟨_, rest, he, ⟨rfl, ha⟩, rfl⟩
      obtain rfl : a.after = rest := he
      exact ⟨rfl, ha a⟩
  | one accepts =>
    constructor
    · rintro ⟨c, rest, he, hc, rfl⟩
      exact ⟨[c], rest, he, ⟨c, hc, rfl⟩, rfl⟩
    · rintro ⟨_, rest, he, ⟨c, hc, rfl⟩, rfl⟩
      exact ⟨c, rest, he, hc, rfl⟩
  | run accepts least most =>
    constructor
    · rintro ⟨word, rest, he, ha, hl, hm, rfl⟩
      exact ⟨word, rest, he, ⟨ha, hl, hm⟩, rfl⟩
    · rintro ⟨word, rest, he, ⟨ha, hl, hm⟩, rfl⟩
      exact ⟨word, rest, he, ha, hl, hm, rfl⟩
  | seq first second ih₁ ih₂ =>
    constructor
    · rintro ⟨m, h₁, h₂⟩
      obtain ⟨u, rest₁, he, hu, rfl⟩ := (ih₁ h.1 ..).mp h₁
      obtain ⟨v, rest, hv', hv, rfl⟩ := (ih₂ h.2 ..).mp h₂
      obtain rfl : rest₁ = v ++ rest := hv'
      exact ⟨u ++ v, rest, by rw [he, List.append_assoc], ⟨u, v, hu, hv, rfl⟩, by simp [Place.past]⟩
    · rintro ⟨_, rest, he, ⟨u, v, hu, hv, rfl⟩, rfl⟩
      refine ⟨a.past u (v ++ rest), (ih₁ h.1 ..).mpr ⟨u, v ++ rest, ?_, hu, rfl⟩,
        (ih₂ h.2 ..).mpr ⟨v, rest, rfl, hv, by simp [Place.past]⟩⟩
      rw [he, List.append_assoc]
  | either preferred other ih₁ ih₂ =>
    rw [Reads, ih₁ h.1, ih₂ h.2]
    constructor
    · rintro (⟨word, rest, he, hw, rfl⟩ | ⟨word, rest, he, hw, rfl⟩)
      · exact ⟨word, rest, he, .inl hw, rfl⟩
      · exact ⟨word, rest, he, .inr hw, rfl⟩
    · rintro ⟨word, rest, he, hw | hw, rfl⟩
      · exact .inl ⟨word, rest, he, hw, rfl⟩
      · exact .inr ⟨word, rest, he, hw, rfl⟩
  | part inner ih => exact ih h ..

theorem spells_all_cons (p : Pattern) (ps : List Pattern) (word : List Char) :
    (all (p :: ps)).Spells word ↔ ∃ u v, p.Spells u ∧ (all ps).Spells v ∧ word = u ++ v := by
  cases ps with
  | nil =>
    constructor
    · intro h
      exact ⟨word, [], h, ⟨rfl, fun _ => rfl⟩, (List.append_nil word).symm⟩
    · rintro ⟨u, _, hu, ⟨rfl, -⟩, rfl⟩
      rw [List.append_nil]
      exact hu
  | cons q qs => exact Iff.rfl

theorem blind_all {ps : List Pattern} (h : ∀ p ∈ ps, p.Blind) : (all ps).Blind := by
  induction ps with
  | nil => exact fun _ _ => rfl
  | cons p ps ih =>
    cases ps with
    | nil => exact h p (List.mem_cons_self ..)
    | cons q qs =>
      exact ⟨h p (List.mem_cons_self ..), ih fun r hr => h r (List.mem_cons_of_mem _ hr)⟩

theorem blind_letters (text : List Char) : (letters text).Blind := by
  refine blind_all fun p hp => ?_
  obtain ⟨c, -, rfl⟩ := List.mem_map.mp hp
  exact trivial

/-- Letters spell the words that are the same up to case. -/
theorem spells_letters (text word : List Char) :
    (letters text).Spells word ↔ word.map foldCase = text.map foldCase := by
  induction text generalizing word with
  | nil =>
    rw [List.map_nil, List.map_eq_nil_iff]
    exact ⟨fun h => h.1, fun h => ⟨h, fun _ => rfl⟩⟩
  | cons c text ih =>
    show (all (one (sameLetter c) :: text.map fun c => one (sameLetter c))).Spells word ↔ _
    rw [spells_all_cons]
    constructor
    · rintro ⟨_, v, ⟨d, hd, rfl⟩, hv, rfl⟩
      have hv := (ih v).mp hv
      rw [List.singleton_append, List.map_cons, List.map_cons, hv, beq_iff_eq.mp hd]
    · intro h
      obtain ⟨d, v, rfl, hd, hv⟩ := List.map_eq_cons_iff.mp h
      exact ⟨[d], v, ⟨d, beq_iff_eq.mpr hd.symm, rfl⟩, (ih v).mpr hv, rfl⟩

/-! ### between the edges of words -/

/-- A pattern between two edges of words is found where a word that it spells stands between two. -/
theorem foundIn_whole_iff {p : Pattern} (h : p.Blind) (text : List Char) :
    (whole p).foundIn text = true ↔ ∃ before word after, text = before ++ word ++ after ∧ p.Spells word ∧
      (isWord? before.getLast? != isWord? (word ++ after).head?) = true ∧
      (isWord? (before ++ word).getLast? != isWord? after.head?) = true := by
  rw [foundIn_iff]
  constructor
  · rintro ⟨_, rfl, _, a, ⟨rfl, ha⟩, m, hr, rfl, hb⟩
    obtain ⟨word, rest, he, hw, rfl⟩ := (reads_iff_of_blind h ..).mp hr
    refine ⟨a.before.reverse, word, rest, ?_, hw, ?_, ?_⟩
    · rw [Place.text, he, List.append_assoc]
    · rw [List.getLast?_reverse, ← he]
      exact ha
    · rw [← List.head?_reverse, List.reverse_append, List.reverse_reverse]
      exact hb
  · rintro ⟨before, word, after, rfl, hw, ha, hb⟩
    refine ⟨⟨before.reverse, word ++ after⟩, by simp [Place.text], Place.past ⟨before.reverse, []⟩ word after,
      _, ⟨rfl, ?_⟩, _, (reads_iff_of_blind h ..).mpr ⟨word, after, rfl, hw, rfl⟩, rfl, ?_⟩
    · rw [← List.head?_reverse] at ha
      exact ha
    · rw [← List.head?_reverse, List.reverse_append] at hb
      exact hb

/-- The word is not empty, and neither begins nor ends with a blank. -/
def Tight (word : List Char) : Prop :=
  (∃ c rest, word = c :: rest ∧ isBlank c = false) ∧ ∃ rest c, word = rest ++ [c] ∧ isBlank c = false

theorem Tight.append {u w : List Char} (hu : Tight u) (hw : Tight w) (v : List Char) :
    Tight (u ++ v ++ w) := by
  obtain ⟨⟨c, u, rfl, hc⟩, -⟩ := hu
  obtain ⟨-, w, d, rfl, hd⟩ := hw
  exact ⟨⟨c, u ++ v ++ (w ++ [d]), by simp, hc⟩, c :: u ++ v ++ w, d, by simp, hd⟩

theorem not_blank_of_foldCase {c d : Char} (he : foldCase c = foldCase d)
    (hd : isBlank (foldCase d) = false) : isBlank c = false := by
  by_cases hc : isBlank c = true
  · rw [← he, foldCase_blank hc] at hd
    exact hd
  · exact Bool.eq_false_iff.mpr hc

/-- Letters spell tight words if they are some, and no blank is among them. -/
theorem tight_of_spells_letters {text word : List Char} (hne : text ≠ [])
    (hb : ∀ c ∈ text, isBlank (foldCase c) = false) (h : (letters text).Spells word) : Tight word := by
  have he := (spells_letters ..).mp h
  have hword : word ≠ [] := by
    rintro rfl
    exact hne (List.map_eq_nil_iff.mp he.symm)
  have hc : ∀ c ∈ word, isBlank c = false := by
    intro c hc
    obtain ⟨d, hd, hdc⟩ := List.mem_map.mp (he ▸ List.mem_map_of_mem hc : foldCase c ∈ text.map foldCase)
    exact not_blank_of_foldCase hdc.symm (hb d hd)
  constructor
  · obtain ⟨c, rest, rfl⟩ := List.exists_cons_of_ne_nil hword
    exact ⟨c, rest, rfl, hc c (by simp)⟩
  · refine ⟨word.dropLast, word.getLast hword, (List.dropLast_concat_getLast hword).symm, ?_⟩
    exact hc _ (List.getLast_mem hword)

/-- Blanks in front of a text are in front of a word in it that does not begin with one. -/
theorem blank_before {pre rest before after : List Char} {c : Char} (hpre : Blank pre)
    (hc : isBlank c = false) (he : pre ++ rest = before ++ c :: after) :
    ∃ inner, before = pre ++ inner ∧ rest = inner ++ c :: after := by
  rcases List.append_eq_append_iff.mp he with ⟨inner, rfl, hr⟩ | ⟨_ | ⟨d, more⟩, rfl, hr⟩
  · exact ⟨inner, rfl, hr⟩
  · exact ⟨[], by simp, hr.symm⟩
  · -- else `c` would be one of the blanks
    obtain ⟨rfl, -⟩ := List.cons.inj hr
    have : isBlank c = true := hpre c (by simp)
    rw [hc] at this
    cases this

theorem blank_after {post rest before after : List Char} {c : Char} (hpost : Blank post)
    (hc : isBlank c = false) (he : rest ++ post = before ++ [c] ++ after) :
    ∃ inner, after = inner ++ post ∧ rest = before ++ [c] ++ inner := by
  have hr : post.reverse ++ rest.reverse = after.reverse ++ c :: before.reverse := by
    simpa using congrArg List.reverse he
  obtain ⟨inner, h₁, h₂⟩ := blank_before (fun d hd => hpost d (List.mem_reverse.mp hd)) hc hr
  exact ⟨inner.reverse, by simpa using congrArg List.reverse h₁, by simpa using congrArg List.reverse h₂⟩

theorem isWord?_getLast?_of_blank {pre : List Char} (h : Blank pre) (text : List Char) :
    isWord? (pre ++ text).getLast? = isWord? text.getLast? := by
  rw [List.getLast?_append]
  cases text.getLast? with
  | some c => rfl
  | none =>
    show isWord? pre.getLast? = false
    cases hl : pre.getLast? with
    | none => rfl
    | some c => exact isWord_blank (h c (List.mem_of_getLast? hl))

theorem isWord?_head?_of_blank {post : List Char} (h : Blank post) (text : List Char) :
    isWord? (text ++ post).head? = isWord? text.head? := by
  rw [List.head?_append]
  cases text.head? with
  | some c => rfl
  | none =>
    show isWord? post.head? = false
    cases hl : post.head? with
    | none => rfl
    | some c => exact isWord_blank (h c (List.mem_of_head? hl))

/-- **Blanks at the ends of a text make no difference to a pattern between two edges of words**, if no
word that it spells begins or ends with one. -/
theorem foundIn_whole_trim {p : Pattern} (h : p.Blind) (ht : ∀ word, p.Spells word → Tight word)
    (text : List Char) : (whole p).foundIn (trim text) = (whole p).foundIn text := by
  obtain ⟨pre, post, hpre, hpost, he⟩ := exists_trim text
  generalize trim text = inner at he
  rw [Bool.eq_iff_iff, foundIn_whole_iff h, foundIn_whole_iff h]
  constructor
  · rintro ⟨before, word, after, rfl, hw, ha, hb⟩
    refine ⟨pre ++ before, word, after ++ post, by rw [he]; simp, hw, ?_, ?_⟩
    · rw [isWord?_getLast?_of_blank hpre, ← List.append_assoc, isWord?_head?_of_blank hpost]
      exact ha
    · rw [List.append_assoc, isWord?_getLast?_of_blank hpre, isWord?_head?_of_blank hpost]
      exact hb
  · rintro ⟨before, word, after, rfl, hw, ha, hb⟩
    obtain ⟨⟨c, w, hwc, hc⟩, w', d, hwd, hd⟩ := ht word hw
    obtain ⟨before, rfl, h₁⟩ : ∃ b, before = pre ++ b ∧ inner ++ post = b ++ (word ++ after) := by
      rw [hwc] at he ⊢
      exact blank_before hpre hc (by simpa using he.symm)
    obtain ⟨after, rfl, rfl⟩ : ∃ a, after = a ++ post ∧ inner = before ++ word ++ a := by
      rw [hwd] at h₁ ⊢
      have hlast : inner ++ post = (before ++ w') ++ [d] ++ after := by simpa using h₁
      obtain ⟨a, h₂, h₃⟩ := blank_after hpost hd hlast
      exact ⟨a, h₂, by simpa using h₃⟩
    refine ⟨before, word, after, rfl, hw, ?_, ?_⟩
    · rw [isWord?_getLast?_of_blank hpre, ← List.append_assoc, isWord?_head?_of_blank hpost] at ha
      exact ha
    · rw [List.append_assoc, isWord?_getLast?_of_blank hpre, isWord?_head?_of_blank hpost] at hb
      exact hb

end Pattern

end Outfitter.Text
