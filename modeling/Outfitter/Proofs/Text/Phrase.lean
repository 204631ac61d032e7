import Mathlib.Data.List.Basic
import Outfitter.Proofs.Text.Rewrite
import Outfitter.Proofs.Text.Runs

/-!
Phrases in a text.

The words of a phrase are `Laid` out in a stretch of a text if they stand in it one after the other, with a gap
between any two. A phrase is found in a text where its words are laid out with blanks between them and no word
character touches them (`foundIn_phrase_iff`). What stands there is replaced, and nothing else
(`replaceFrom_phrase`).
-/

namespace Outfitter.Text

/-! ### letters up to case -/

/-- What becomes an ASCII letter in lower case, beyond ASCII, is a word character. -/
theorem caseRuns_beyond : ∀ run ∈ caseRuns,
    run.last ≤ 127 ∨ 128 ≤ run.first + run.distance ∨ run.first = run.last ∧ inRanges run.first wordRanges = true := by
  decide +kernel

/-- The small letters that count as an ASCII letter are word characters, and no capital becomes one. -/
theorem caseVariants_ascii : ∀ p ∈ caseVariants, (Char.ofNat p.2).toNat ≤ 122 →
    inRanges p.1 wordRanges = true ∧ 127 < p.1 ∧
      ∀ run ∈ caseRuns, run.last + run.distance < p.1 ∨ (p.1 : Int) < run.first + run.distance := by
  decide +kernel

theorem isWord_of_toLower : ∀ n < 128, 97 ≤ (Char.ofNat n).toLower.toNat → (Char.ofNat n).toLower.toNat ≤ 122 →
    isWord (Char.ofNat n) = true := by
  decide +kernel

theorem isWord_of_inRanges {c : Char} (h : inRanges c.toNat wordRanges = true) (hbeyond : 127 < c.toNat) :
    isWord c = true := by
  unfold isWord
  rw [h, decide_eq_true hbeyond, Bool.and_self, Bool.or_true]

theorem isWord_of_smallLetter {c : Char} (hleast : 97 ≤ (smallLetter c).toNat)
    (hmost : (smallLetter c).toNat ≤ 122) : isWord c = true := by
  unfold smallLetter at hleast hmost
  split at hleast
  · rename_i hascii
    rw [if_pos hascii] at hmost
    have hword := isWord_of_toLower c.toNat (by omega)
    rw [Char.ofNat_toNat] at hword
    exact hword hleast hmost
  · rename_i hbeyond
    rw [if_neg hbeyond] at hmost
    have hvalue := toNat_ofNat_cases (CaseRun.convert c.toNat caseRuns)
    rcases convert_cases c.toNat caseRuns with he | ⟨run, hrun, hfirst, hlast, -, he⟩
    · omega
    · rcases caseRuns_beyond run hrun with h | h | ⟨h, hranges⟩
      · omega
      · omega
      · have hfirst : c.toNat = run.first := by omega
        exact isWord_of_inRanges (hfirst ▸ hranges) (Nat.lt_of_not_le hbeyond)

/-- A small letter that counts as an ASCII letter is the small letter of itself only. -/
theorem eq_of_smallLetter {c : Char} {p : Nat × Nat} (hp : p ∈ caseVariants)
    (hmost : (Char.ofNat p.2).toNat ≤ 122) (h : (smallLetter c).toNat = p.1) : c.toNat = p.1 := by
  obtain ⟨-, hbeyond, hapart⟩ := caseVariants_ascii p hp hmost
  unfold smallLetter at h
  split at h
  · obtain ⟨-, hsmall, -, -⟩ := toLower_facts c.toNat (by omega)
    rw [Char.ofNat_toNat] at hsmall
    omega
  · have hvalue := toNat_ofNat_cases (CaseRun.convert c.toNat caseRuns)
    rcases convert_cases c.toNat caseRuns with he | ⟨run, hrun, hfirst, hlast, -, he⟩
    · omega
    · rcases hapart run hrun with hrange | hrange
      · omega
      · omega

/-- What is an ASCII letter up to case is a word character. -/
theorem isWord_of_foldCase {c : Char} (hleast : 97 ≤ (foldCase c).toNat) (hmost : (foldCase c).toNat ≤ 122) :
    isWord c = true := by
  unfold foldCase at hleast hmost
  dsimp only at hleast hmost
  split at hleast
  · rename_i hascii
    rw [if_pos hascii] at hmost
    exact isWord_of_smallLetter hleast hmost
  · rename_i hbeyond
    rw [if_neg hbeyond] at hmost
    cases hvariant : caseVariants.find? fun p => p.1 == (smallLetter c).toNat with
    | none =>
      rw [hvariant, Option.map_none, Option.getD_none] at hmost
      omega
    | some p =>
      rw [hvariant, Option.map_some, Option.getD_some] at hmost
      have hp := List.mem_of_find?_eq_some hvariant
      have hfound := List.find?_some hvariant
      have hsmall : p.1 = (smallLetter c).toNat := beq_iff_eq.mp hfound
      obtain ⟨hranges, hfirst, -⟩ := caseVariants_ascii p hp hmost
      have hc := eq_of_smallLetter hp hmost hsmall.symm
      exact isWord_of_inRanges (hc ▸ hranges) (hc ▸ hfirst)

/-! ### words in a row -/

/-- The words stand in the stretch one after the other, in upper or lower case, with a gap between any two. -/
inductive Laid (gap : List Char → Prop) : List (List Char) → List Char → Prop where
  | none : Laid gap [] []
  | last {w word : List Char} (h : word.map foldCase = w.map foldCase) : Laid gap [w] word
  | more {w v word between rest : List Char} {ws : List (List Char)} (h : word.map foldCase = w.map foldCase)
      (hgap : gap between) (hrest : Laid gap (v :: ws) rest) : Laid gap (w :: v :: ws) (word ++ between ++ rest)

/-- The words stand in the text like this, and no word character touches them. -/
def Spread (gap : List Char → Prop) (ws : List (List Char)) (text : List Char) : Prop :=
  ∃ before stretch after, text = before ++ stretch ++ after ∧ Laid gap ws stretch ∧
    isWord? before.getLast? = false ∧ isWord? after.head? = false

/-- No word character is brought to the end of a text by what is put there. -/
theorem isWord?_getLast?_append {before text : List Char} (hbefore : isWord? before.getLast? = false)
    (htext : isWord? text.getLast? = false) : isWord? (before ++ text).getLast? = false := by
  rw [List.getLast?_append]
  cases hlast : text.getLast? with
  | none => exact hbefore
  | some c => rwa [hlast] at htext

theorem isWord?_head?_append {text after : List Char} (htext : isWord? text.head? = false)
    (hafter : isWord? after.head? = false) : isWord? (text ++ after).head? = false := by
  rw [List.head?_append]
  cases hfirst : text.head? with
  | none => exact hafter
  | some c => rwa [hfirst] at htext

/-- Some blanks. -/
def IsGap (between : List Char) : Prop :=
  between ≠ [] ∧ Blank between

/-- A word that stands in a row of words stands there by itself. -/
theorem Laid.exists_word {ws : List (List Char)} {stretch w : List Char} (h : Laid IsGap ws stretch) (hw : w ∈ ws) :
    ∃ before word after, stretch = before ++ word ++ after ∧ word.map foldCase = w.map foldCase ∧
      isWord? before.getLast? = false ∧ isWord? after.head? = false := by
  induction h with
  | none => cases hw
  | @last v word h =>
    rw [List.mem_singleton.mp hw]
    exact ⟨[], word, [], (List.append_nil _).symm, h, rfl, rfl⟩
  | @more v _ word between rest _ h hgap _ ih =>
    obtain ⟨hne, hgap⟩ := hgap
    rcases List.mem_cons.mp hw with rfl | hw
    · refine ⟨[], word, between ++ rest, List.append_assoc .., h, rfl, ?_⟩
      rw [List.head?_append_of_ne_nil _ hne]
      exact Pattern.isWord?_head?_of_blank hgap []
    · obtain ⟨before, inner, after, rfl, hinner, hbefore, hafter⟩ := ih hw
      refine ⟨word ++ between ++ before, inner, after, by simp, hinner, ?_, hafter⟩
      refine isWord?_getLast?_append ?_ hbefore
      rw [List.getLast?_append_of_ne_nil _ hne, ← List.append_nil between]
      exact Pattern.isWord?_getLast?_of_blank hgap []

/-- A word that stands in a row of words in a text stands in the text by itself. -/
theorem Spread.word {ws : List (List Char)} {text w : List Char} (h : Spread IsGap ws text) (hw : w ∈ ws) :
    Spread IsGap [w] text := by
  obtain ⟨before, stretch, after, rfl, hlaid, hbefore, hafter⟩ := h
  obtain ⟨front, word, back, rfl, hword, hfront, hback⟩ := hlaid.exists_word hw
  exact ⟨before ++ front, word, back ++ after, by simp, .last hword, isWord?_getLast?_append hbefore hfront,
    isWord?_head?_append hback hafter⟩

/-- A word by itself needs no gaps. -/
theorem Spread.single {gap : List Char → Prop} {w text : List Char} (h : Spread gap [w] text) :
    Spread IsGap [w] text := by
  obtain ⟨before, _, after, rfl, _ | h, hbefore, hafter⟩ := h
  exact ⟨before, _, after, rfl, .last h, hbefore, hafter⟩

/-! ### words without blanks, and words that begin and end with letters -/

theorem not_blank_of_isWord {c : Char} (h : isWord c = true) : isBlank c = false := by
  cases hc : isBlank c with
  | false => rfl
  | true => cases h.symm.trans (isWord_blank hc)

/-- There are words; they have characters, and none of them is a blank. -/
structure Solid (ws : List (List Char)) : Prop where
  ne : ws ≠ []
  each : ∀ w ∈ ws, w ≠ [] ∧ ∀ c ∈ w, isBlank (foldCase c) = false

/-- An ASCII letter in upper or lower case. -/
def isLetter (c : Char) : Bool :=
  (97).ble (foldCase c).toNat && (foldCase c).toNat.ble 122

/-- The words have characters, none of them a blank, and letters stand at the beginning and at the end. -/
structure Lettered (ws : List (List Char)) : Prop where
  solid : ∀ w ∈ ws, w ≠ [] ∧ ∀ c ∈ w, isBlank (foldCase c) = false
  first : ws.flatten.head?.any isLetter = true
  last : ws.flatten.getLast?.any isLetter = true

theorem Lettered.isSolid {ws : List (List Char)} (h : Lettered ws) : Solid ws := by
  refine ⟨?_, h.solid⟩
  rintro rfl
  cases h.first

def areLettered (ws : List (List Char)) : Bool :=
  ws.all (fun w => !w.isEmpty && w.all fun c => !isBlank (foldCase c)) &&
    (ws.flatten.head?.any isLetter && ws.flatten.getLast?.any isLetter)

theorem lettered_of_areLettered {ws : List (List Char)} (h : areLettered ws = true) : Lettered ws := by
  unfold areLettered at h
  rw [Bool.and_eq_true, Bool.and_eq_true] at h
  obtain ⟨hsolid, hfirst, hlast⟩ := h
  refine ⟨fun w hw => ?_, hfirst, hlast⟩
  have hword := List.all_eq_true.mp hsolid w hw
  rw [Bool.and_eq_true, Bool.not_eq_true', List.isEmpty_eq_false_iff] at hword
  exact ⟨hword.1, fun c hc => by simpa using List.all_eq_true.mp hword.2 c hc⟩

/-- What is the same as a letter up to case is a word character. -/
theorem isWord_of_isLetter {c d : Char} (h : isLetter d = true) (he : foldCase c = foldCase d) :
    isWord c = true := by
  unfold isLetter at h
  rw [← he, Bool.and_eq_true, Nat.ble_eq, Nat.ble_eq] at h
  exact isWord_of_foldCase h.1 h.2

/-- A word character of a word that is the same up to case has no blank in it. -/
theorem solid_of_same {w word : List Char} (hw : w ≠ [] ∧ ∀ c ∈ w, isBlank (foldCase c) = false)
    (h : word.map foldCase = w.map foldCase) : word ≠ [] ∧ ∀ c ∈ word, isBlank c = false := by
  constructor
  · rintro rfl
    exact hw.1 (List.map_eq_nil_iff.mp h.symm)
  · intro c hc
    obtain ⟨d, hd, hdc⟩ := List.mem_map.mp (h ▸ List.mem_map_of_mem hc : foldCase c ∈ w.map foldCase)
    exact Pattern.not_blank_of_foldCase hdc.symm (hw.2 d hd)

section

variable {gap : List Char → Prop} {ws : List (List Char)} {stretch : List Char}

theorem Laid.head? (h : Laid gap ws stretch) (hws : ∀ w ∈ ws, w ≠ []) :
    stretch.head?.map foldCase = ws.flatten.head?.map foldCase := by
  have hword : ∀ {w word : List Char}, word.map foldCase = w.map foldCase →
      word.head?.map foldCase = w.head?.map foldCase := fun h => by
    rw [← List.head?_map, h, List.head?_map]
  cases h with
  | none => rfl
  | last h => simpa using hword h
  | @more w v word _ _ ws h =>
    have hw := hws w (List.mem_cons_self ..)
    have hne : word ≠ [] := by
      rintro rfl
      exact hw (List.map_eq_nil_iff.mp h.symm)
    rw [List.append_assoc, List.head?_append_of_ne_nil _ hne, List.flatten_cons, List.head?_append_of_ne_nil _ hw]
    exact hword h

theorem Laid.getLast? (h : Laid gap ws stretch) (hws : ∀ w ∈ ws, w ≠ []) :
    stretch.getLast?.map foldCase = ws.flatten.getLast?.map foldCase := by
  induction h with
  | none => rfl
  | @last w word h =>
    rw [List.flatten_singleton, ← List.getLast?_map, h, List.getLast?_map]
  | @more w v word between rest ws h _ hrest ih =>
    have hv := hws v (by simp)
    have ih := ih fun u hu => hws u (List.mem_cons_of_mem _ hu)
    have hflatten : (v :: ws).flatten ≠ [] := by simp [hv]
    have hne : rest ≠ [] := by
      rintro rfl
      cases hlast : (v :: ws).flatten.getLast? with
      | none => exact hflatten (List.getLast?_eq_none_iff.mp hlast)
      | some c =>
        rw [hlast] at ih
        cases ih
    rw [List.getLast?_append_of_ne_nil _ hne, List.flatten_cons, List.getLast?_append_of_ne_nil _ hflatten]
    exact ih

theorem Laid.exists_first {w : List Char} (h : Laid gap (w :: ws) stretch)
    (hw : w ≠ [] ∧ ∀ c ∈ w, isBlank (foldCase c) = false) : ∃ c rest, stretch = c :: rest ∧ isBlank c = false := by
  have hword : ∀ {word : List Char}, word.map foldCase = w.map foldCase →
      ∃ c rest, word = c :: rest ∧ isBlank c = false := by
    intro word h
    obtain ⟨hne, hsolid⟩ := solid_of_same hw h
    obtain ⟨c, rest, rfl⟩ := List.exists_cons_of_ne_nil hne
    exact ⟨c, rest, rfl, hsolid c (List.mem_cons_self ..)⟩
  cases h with
  | last h => exact hword h
  | more h =>
    obtain ⟨c, rest, rfl, hc⟩ := hword h
    exact ⟨c, _, rfl, hc⟩

/-- Words without blanks stand in stretches that begin and end with characters that are none. -/
theorem Laid.boundary (h : Laid gap ws stretch) (hws : Solid ws) :
    (∃ c rest, stretch = c :: rest ∧ isBlank c = false) ∧ ∃ rest c, stretch = rest ++ [c] ∧ isBlank c = false := by
  have hne : ∀ w ∈ ws, w ≠ [] := fun w hw => (hws.each w hw).1
  obtain ⟨w, hw⟩ := List.exists_mem_of_ne_nil _ hws.ne
  obtain ⟨c, hc⟩ := List.exists_mem_of_ne_nil _ (hne w hw)
  have hflatten : ws.flatten ≠ [] := List.ne_nil_of_mem (List.mem_flatten_of_mem hw hc)
  have hend : ∀ {c? : Option Char} {d : Char}, d ∈ ws.flatten → c?.map foldCase = some (foldCase d) →
      ∃ c ∈ c?, isBlank c = false := by
    intro c? d hd he
    obtain ⟨w, hw, hd⟩ := List.mem_flatten.mp hd
    obtain ⟨c, hc, hfold⟩ := Option.map_eq_some_iff.mp he
    exact ⟨c, hc, Pattern.not_blank_of_foldCase hfold ((hws.each w hw).2 d hd)⟩
  have hfirst := h.head? hne
  have hlast := h.getLast? hne
  rw [List.head?_eq_some_head hflatten] at hfirst
  rw [List.getLast?_eq_some_getLast hflatten] at hlast
  obtain ⟨c, hc, hcblank⟩ := hend (List.head_mem hflatten) hfirst
  obtain ⟨d, hd, hdblank⟩ := hend (List.getLast_mem hflatten) hlast
  obtain ⟨rest, rfl⟩ := List.head?_eq_some_iff.mp hc
  obtain ⟨front, hfront⟩ := List.getLast?_eq_some_iff.mp hd
  exact ⟨⟨c, rest, rfl, hcblank⟩, front, d, hfront, hdblank⟩

/-- Lettered words stand in stretches that begin and end with word characters. -/
theorem Laid.ends (h : Laid gap ws stretch) (hws : Lettered ws) :
    (∃ c rest, stretch = c :: rest ∧ isWord c = true) ∧ ∃ rest c, stretch = rest ++ [c] ∧ isWord c = true := by
  have hne : ∀ w ∈ ws, w ≠ [] := fun w hw => (hws.solid w hw).1
  have hend : ∀ {c? d? : Option Char}, d?.any isLetter = true → c?.map foldCase = d?.map foldCase →
      ∃ c ∈ c?, isWord c = true := by
    rintro (_ | c) (_ | d) hd he
    · cases hd
    · cases he
    · cases hd
    · exact ⟨c, rfl, isWord_of_isLetter hd (Option.some.inj he)⟩
  obtain ⟨c, hc, hcword⟩ := hend hws.first (h.head? hne)
  obtain ⟨d, hd, hdword⟩ := hend hws.last (h.getLast? hne)
  obtain ⟨rest, rfl⟩ := List.head?_eq_some_iff.mp hc
  obtain ⟨front, hfront⟩ := List.getLast?_eq_some_iff.mp hd
  exact ⟨⟨c, rest, rfl, hcword⟩, front, d, hfront, hdword⟩

theorem Laid.ne_nil (h : Laid gap ws stretch) (hws : Lettered ws) : stretch ≠ [] := by
  obtain ⟨⟨c, rest, rfl, -⟩, -⟩ := h.ends hws
  exact List.cons_ne_nil c rest

end

namespace Pattern

variable {phrase : List Char} {ws : List (List Char)}

theorem spells_blanks (word : List Char) : (blanks 1).Spells word ↔ IsGap word := by
  constructor
  · rintro ⟨hblank, hlength, -⟩
    exact ⟨List.length_pos_iff.mp hlength, hblank⟩
  · rintro ⟨hne, hblank⟩
    exact ⟨hblank, List.length_pos_iff.mpr hne, nofun⟩

/-- The words with blanks between them. -/
def inRow (ws : List (List Char)) : Pattern :=
  all ((ws.map letters).intersperse (blanks 1))

/-- A word, blanks, and the other words. -/
theorem inRow_cons_cons (w v : List Char) (ws : List (List Char)) :
    inRow (w :: v :: ws) = seq (letters w) (all (blanks 1 :: (((v :: ws).map letters).intersperse (blanks 1)))) :=
  rfl

theorem blind_inRow (ws : List (List Char)) : (inRow ws).Blind := by
  refine blind_all fun p hp => ?_
  induction ws with
  | nil => cases hp
  | cons w ws ih =>
    cases ws with
    | nil =>
      rw [List.mem_singleton.mp hp]
      exact blind_letters w
    | cons v ws =>
      rcases List.mem_cons.mp hp with rfl | hp
      · exact blind_letters w
      rcases List.mem_cons.mp hp with rfl | hp
      · exact trivial
      · exact ih hp

/-- The pattern spells the stretches in which the words are laid out with blanks between them. -/
theorem spells_inRow (stretch : List Char) : (inRow ws).Spells stretch ↔ Laid IsGap ws stretch := by
  induction ws generalizing stretch with
  | nil =>
    constructor
    · rintro ⟨rfl, -⟩
      exact .none
    · rintro ⟨⟩
      exact ⟨rfl, fun _ => rfl⟩
  | cons w ws ih =>
    cases ws with
    | nil =>
      show (letters w).Spells stretch ↔ _
      rw [spells_letters]
      constructor
      · exact .last
      · rintro (_ | h)
        exact h
    | cons v ws =>
      rw [inRow_cons_cons]
      constructor
      · rintro ⟨word, after, hword, hafter, rfl⟩
        obtain ⟨between, rest, hgap, hrest, rfl⟩ := (spells_all_cons ..).mp hafter
        rw [← List.append_assoc]
        exact .more ((spells_letters ..).mp hword) ((spells_blanks _).mp hgap) ((ih _).mp hrest)
      · rintro (_ | _ | ⟨hword, hgap, hrest⟩)
        refine ⟨_, _, (spells_letters ..).mpr hword, (spells_all_cons ..).mpr ⟨_, _, (spells_blanks _).mpr hgap,
          (ih _).mpr hrest, rfl⟩, List.append_assoc ..⟩

/-! ### where a phrase is read -/

/-- A phrase is read where its words are laid out and no word character touches them. -/
theorem reads_phrase_iff (a b : Place) : (Pattern.phrase phrase).Reads a b ↔
    ∃ stretch rest, a.after = stretch ++ rest ∧ Laid IsGap (words phrase) stretch ∧
      isWord? a.before.head? = false ∧ isWord? rest.head? = false ∧ b = a.past stretch rest := by
  constructor
  · rintro ⟨_, ⟨rfl, hbefore⟩, m, hrow, rfl, hafter⟩
    obtain ⟨stretch, rest, he, hspells, rfl⟩ := (reads_iff_of_blind (blind_inRow _) ..).mp hrow
    exact ⟨stretch, rest, he, (spells_inRow _).mp hspells, Bool.not_eq_true' _ ▸ hbefore,
      Bool.not_eq_true' _ ▸ hafter, rfl⟩
  · rintro ⟨stretch, rest, he, hlaid, hbefore, hafter, rfl⟩
    refine ⟨a, ⟨rfl, ?_⟩, _, (reads_iff_of_blind (blind_inRow _) ..).mpr ⟨stretch, rest, he,
      (spells_inRow _).mpr hlaid, rfl⟩, rfl, ?_⟩
    · show (!isWord? a.before.head?) = true
      rw [hbefore]
      rfl
    · show (!isWord? rest.head?) = true
      rw [hafter]
      rfl

/-- **A phrase is found where its words stand with blanks between them** and no word character touches them. -/
theorem foundIn_phrase_iff (text : List Char) :
    (Pattern.phrase phrase).foundIn text = true ↔ Spread IsGap (words phrase) text := by
  rw [foundIn_iff]
  constructor
  · rintro ⟨a, rfl, b, hreads⟩
    obtain ⟨stretch, rest, he, hlaid, hbefore, hafter, -⟩ := (reads_phrase_iff a b).mp hreads
    refine ⟨a.before.reverse, stretch, rest, ?_, hlaid, ?_, hafter⟩
    · rw [Place.text, he, List.append_assoc]
    · rw [List.getLast?_reverse]
      exact hbefore
  · rintro ⟨before, stretch, after, rfl, hlaid, hbefore, hafter⟩
    refine ⟨⟨before.reverse, stretch ++ after⟩, by simp [Place.text], _,
      (reads_phrase_iff ..).mpr ⟨stretch, after, rfl, hlaid, ?_, hafter, rfl⟩⟩
    rw [List.head?_reverse]
    exact hbefore

/-! ### replacing phrases -/

/-- What a phrase reads at a place. -/
theorem laid_of_readAt {a : Place} {found : Found} (h : (Pattern.phrase phrase).readAt a = some found) :
    ∃ stretch rest, a.after = stretch ++ rest ∧ Laid IsGap (words phrase) stretch ∧
      isWord? a.before.head? = false ∧ isWord? rest.head? = false ∧ found.size = stretch.length := by
  obtain ⟨hfirst, hreads⟩ := reads_of_readAt h
  obtain ⟨stretch, rest, he, hlaid, hbefore, hafter, hlast⟩ := (reads_phrase_iff ..).mp hreads
  refine ⟨stretch, rest, he, hlaid, hbefore, hafter, ?_⟩
  unfold Stretch.size Stretch.stop Stretch.start
  rw [hlast, hfirst]
  show (stretch.reverse ++ a.before).length - a.before.length = _
  rw [List.length_append, List.length_reverse, Nat.add_sub_cancel]

section

variable (f : Stretch → List Char) (hne : ∀ stretch, Laid IsGap (words phrase) stretch → stretch ≠ [])
include hne

theorem replaceFrom_phrase_nil (before : List Char) : (Pattern.phrase phrase).replaceFrom f 0 before [] = [] := by
  cases hread : (Pattern.phrase phrase).readAt ⟨before, []⟩ with
  | none => rw [replaceFrom, hread]
  | some found =>
    obtain ⟨stretch, rest, he, hlaid, -⟩ := laid_of_readAt hread
    exact absurd (List.append_eq_nil_iff.mp he.symm).1 (hne stretch hlaid)

/-- A character is kept, or a stretch is replaced in which the phrase stands. -/
theorem replaceFrom_phrase (before : List Char) (c : Char) (after : List Char) :
    (Pattern.phrase phrase).replaceFrom f 0 before (c :: after) =
      c :: (Pattern.phrase phrase).replaceFrom f 0 (c :: before) after ∨
    ∃ stretch rest found, c :: after = stretch ++ rest ∧ Laid IsGap (words phrase) stretch ∧
      isWord? before.head? = false ∧ isWord? rest.head? = false ∧ found.size = stretch.length ∧
      (Pattern.phrase phrase).replaceFrom f 0 before (c :: after) =
        f found ++ (Pattern.phrase phrase).replaceFrom f 0 (stretch.reverse ++ before) rest := by
  cases hread : (Pattern.phrase phrase).readAt ⟨before, c :: after⟩ with
  | none =>
    left
    rw [replaceFrom, hread]
  | some found =>
    obtain ⟨stretch, rest, he, hlaid, hbefore, hafter, hsize⟩ := laid_of_readAt hread
    refine .inr ⟨stretch, rest, found.toStretch, he, hlaid, hbefore, hafter, hsize, ?_⟩
    dsimp only at he
    rw [he] at hread ⊢
    exact replaceFrom_of_readAt f (hne stretch hlaid) hread hsize

end

end Pattern

end Outfitter.Text
