import Outfitter.Proofs.Text.Ends
import Outfitter.Proofs.Text.Phrase

/-!
What patterns for given words spell.

A pattern for given characters spells these and nothing else (`spells_exactly`); one of several alternatives spells
what any of them does (`spells_any`). Words that begin and end with word characters are read between edges of words
where no word character touches them (`reads_whole_iff`).
-/

namespace Outfitter.Text.Pattern

variable {p : Pattern} {ps : List Pattern} {a b : Place}

theorem blind_exactly (text : String) : (exactly text).Blind := by
  refine blind_all fun p hp => ?_
  obtain ⟨c, -, rfl⟩ := List.mem_map.mp hp
  exact trivial

theorem spells_exactly (text : String) (word : List Char) : (exactly text).Spells word ↔ word = text.toList := by
  unfold exactly
  induction text.toList generalizing word with
  | nil =>
    constructor
    · exact And.left
    · exact fun h => ⟨h, fun _ => rfl⟩
  | cons c text ih =>
    rw [List.map_cons, spells_all_cons]
    constructor
    · rintro ⟨_, v, ⟨d, hd, rfl⟩, hv, rfl⟩
      rw [beq_iff_eq.mp hd, (ih v).mp hv]
      rfl
    · rintro rfl
      exact ⟨[c], text, ⟨c, beq_self_eq_true c, rfl⟩, (ih text).mpr rfl, rfl⟩

theorem blind_any (h : ∀ p ∈ ps, p.Blind) : (any ps).Blind := by
  induction ps with
  | nil => exact fun _ _ => rfl
  | cons p ps ih =>
    obtain ⟨hp, hps⟩ := List.forall_mem_cons.mp h
    cases ps with
    | nil => exact hp
    | cons q qs => exact ⟨hp, ih hps⟩

/-- One of some alternatives is read. -/
theorem reads_any : (any ps).Reads a b ↔ ∃ p ∈ ps, p.Reads a b := by
  induction ps with
  | nil =>
    constructor
    · rintro ⟨-, h⟩
      cases h
    · rintro ⟨p, hp, -⟩
      cases hp
  | cons p ps ih =>
    cases ps with
    | nil => simp [any]
    | cons q qs =>
      show p.Reads a b ∨ (any (q :: qs)).Reads a b ↔ _
      rw [ih]
      simp

theorem spells_any (word : List Char) : (any ps).Spells word ↔ ∃ p ∈ ps, p.Spells word := by
  induction ps with
  | nil =>
    constructor
    · rintro ⟨-, h⟩
      cases h (Place.start [])
    · rintro ⟨p, hp, -⟩
      cases hp
  | cons p ps ih =>
    cases ps with
    | nil => simp [any]
    | cons q qs =>
      show p.Spells word ∨ (any (q :: qs)).Spells word ↔ _
      rw [ih]
      simp

theorem blind_optional (h : p.Blind) : (optional p).Blind :=
  ⟨h, fun _ _ => rfl⟩

theorem spells_optional (word : List Char) : (optional p).Spells word ↔ p.Spells word ∨ word = [] := by
  show p.Spells word ∨ (word = [] ∧ ∀ _, true = true) ↔ _
  simp

/-- A part of a pattern that asks nothing about places is read where a word that it spells stands. -/
theorem reads_exactly (text : String) :
    (exactly text).Reads a b ↔ ∃ rest, a.after = text.toList ++ rest ∧ b = a.past text.toList rest := by
  rw [reads_iff_of_blind (blind_exactly text)]
  constructor
  · rintro ⟨word, rest, he, hword, rfl⟩
    obtain rfl := (spells_exactly ..).mp hword
    exact ⟨rest, he, rfl⟩
  · rintro ⟨rest, he, rfl⟩
    exact ⟨_, rest, he, (spells_exactly ..).mpr rfl, rfl⟩

/-! ### whole words -/

/-- Word characters stand at both ends of the word. -/
structure Worded (word : List Char) : Prop where
  first : ∃ c ∈ word.head?, isWord c = true
  last : ∃ c ∈ word.getLast?, isWord c = true

instance (word : List Char) : Decidable (Worded word) :=
  decidable_of_iff (word.head?.any isWord = true ∧ word.getLast?.any isWord = true) <| by
    rw [Option.any_eq_true, Option.any_eq_true]
    exact ⟨fun h => ⟨h.1, h.2⟩, fun h => ⟨h.first, h.last⟩⟩

theorem Worded.ne_nil {word : List Char} (h : Worded word) : word ≠ [] := by
  rintro rfl
  obtain ⟨c, hc, -⟩ := h.first
  cases hc

theorem Worded.append {u w : List Char} (hu : Worded u) (hw : Worded w) (v : List Char) : Worded (u ++ v ++ w) := by
  obtain ⟨c, hc, hcword⟩ := hu.first
  obtain ⟨d, hd, hdword⟩ := hw.last
  refine ⟨⟨c, ?_, hcword⟩, d, ?_, hdword⟩
  · rw [List.append_assoc, List.head?_append_of_ne_nil _ hu.ne_nil]
    exact hc
  · rw [List.getLast?_append_of_ne_nil _ hw.ne_nil]
    exact hd

/-- The word stands in the text, and no word character touches it. -/
def Stands (word text : List Char) : Prop :=
  ∃ before after, text = before ++ word ++ after ∧ isWord? before.getLast? = false ∧ isWord? after.head? = false

theorem Stands.trans {word inner text : List Char} (h : Stands word inner) (hinner : Stands inner text) :
    Stands word text := by
  obtain ⟨before, after, rfl, hbefore, hafter⟩ := h
  obtain ⟨front, back, rfl, hfront, hback⟩ := hinner
  exact ⟨front ++ before, after ++ back, by simp, isWord?_getLast?_append hfront hbefore,
    isWord?_head?_append hafter hback⟩

theorem reads_whole : (whole p).Reads a b ↔ a.atWordEdge = true ∧ p.Reads a b ∧ b.atWordEdge = true := by
  constructor
  · rintro ⟨_, ⟨rfl, ha⟩, _, hp, rfl, hb⟩
    exact ⟨ha, hp, hb⟩
  · rintro ⟨ha, hp, hb⟩
    exact ⟨a, ⟨rfl, ha⟩, b, hp, rfl, hb⟩

theorem begins_whole {P : Char → Prop} (h : p.Begins P) : (whole p).Begins P :=
  (h.seq _).look_seq _

/-- Between edges of words, a word is read where no word character touches it. -/
theorem reads_whole_iff (hblind : p.Blind) (hwords : ∀ word, p.Spells word → Worded word) :
    (whole p).Reads a b ↔ ∃ word rest, a.after = word ++ rest ∧ p.Spells word ∧ isWord? a.before.head? = false ∧
      isWord? rest.head? = false ∧ b = a.past word rest := by
  have hends : ∀ {word rest : List Char}, Worded word → a.after = word ++ rest →
      isWord? a.after.head? = true ∧ isWord? (a.past word rest).before.head? = true := by
    intro word rest hword he
    obtain ⟨c, hc, hcword⟩ := hword.first
    obtain ⟨d, hd, hdword⟩ := hword.last
    constructor
    · rw [he, List.head?_append_of_ne_nil _ hword.ne_nil, Option.mem_def.mp hc]
      exact hcword
    · show isWord? (word.reverse ++ a.before).head? = true
      rw [List.head?_append_of_ne_nil _ (by simpa using hword.ne_nil), List.head?_reverse, Option.mem_def.mp hd]
      exact hdword
  constructor
  · rintro ⟨place, ⟨rfl, ha⟩, m, hp, rfl, hb⟩
    obtain ⟨word, rest, he, hword, rfl⟩ := (reads_iff_of_blind hblind ..).mp hp
    obtain ⟨hfirst, hlast⟩ := hends (hwords word hword) he
    refine ⟨word, rest, he, hword, ?_, ?_, rfl⟩
    · simpa [Place.atWordEdge, hfirst] using ha
    · show isWord? (place.past word rest).after.head? = false
      simpa [Place.atWordEdge, hlast] using hb
  · rintro ⟨word, rest, he, hword, hbefore, hafter, rfl⟩
    obtain ⟨hfirst, hlast⟩ := hends (hwords word hword) he
    refine ⟨a, ⟨rfl, ?_⟩, _, (reads_iff_of_blind hblind ..).mpr ⟨word, rest, he, hword, rfl⟩, rfl, ?_⟩
    · simp [Place.atWordEdge, hfirst, hbefore]
    · have hrest : isWord? (a.past word rest).after.head? = false := hafter
      simp [Place.atWordEdge, hlast, hrest]

/-- **Between edges of words, a pattern is found where one of its words stands.** -/
theorem foundIn_whole_iff_stands (hblind : p.Blind) (hwords : ∀ word, p.Spells word → Worded word)
    (text : List Char) : (whole p).foundIn text = true ↔ ∃ word, p.Spells word ∧ Stands word text := by
  rw [foundIn_iff]
  constructor
  · rintro ⟨a, rfl, b, hreads⟩
    obtain ⟨word, rest, he, hword, hbefore, hafter, -⟩ := (reads_whole_iff hblind hwords).mp hreads
    refine ⟨word, hword, a.before.reverse, rest, ?_, ?_, hafter⟩
    · rw [Place.text, he, List.append_assoc]
    · rwa [List.getLast?_reverse]
  · rintro ⟨word, hword, before, after, rfl, hbefore, hafter⟩
    refine ⟨⟨before.reverse, word ++ after⟩, by simp [Place.text], _,
      (reads_whole_iff hblind hwords).mpr ⟨word, after, rfl, hword, ?_, hafter, rfl⟩⟩
    rwa [List.head?_reverse]

end Outfitter.Text.Pattern
