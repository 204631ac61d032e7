import Outfitter.Proofs.Text.Cased
import Outfitter.Proofs.Text.Parts
import Outfitter.Proofs.Text.Sweep

/-!
The spans in which a phrase is found.

A search passes through a text from the left, so what it finds are the leftmost spans that the pattern reads
(`leftmost_searchAll`). A pattern may read several spans from one place, and the search prefers one of them. A phrase
leaves no choice: where its first word begins decides where its last one ends (`Laid.unique`). So the leftmost spans
of a phrase are one list only, and it is the list that the search finds (`spans_phrase_iff_leftmost`).
-/

namespace Outfitter.Text

/-! ### spans from the left -/

/-- The spans are taken from the left: the first that begins at `start` or behind it, then the first that begins
where that one has ended or behind it, until there is none. -/
inductive Leftmost (S : Nat → Nat → Prop) : (start : Nat) → List (Nat × Nat) → Prop where
  | none {start : Nat} (h : ∀ i j, S i j → i < start) : Leftmost S start []
  | next {start i j : Nat} {rest : List (Nat × Nat)} (hstart : start ≤ i) (hspan : S i j)
      (hfirst : ∀ k l, S k l → k < i → k < start) (hrest : Leftmost S j rest) : Leftmost S start ((i, j) :: rest)

namespace Leftmost

variable {S : Nat → Nat → Prop} {start : Nat} {spans spans' : List (Nat × Nat)}

/-- No span begins at the first place, so the spans behind it are those that are taken. -/
theorem of_succ (hnone : ∀ j, ¬ S start j) (h : Leftmost S (start + 1) spans) : Leftmost S start spans := by
  have hbehind : ∀ {i j : Nat}, S i j → i < start + 1 → i < start := by
    intro i j hspan hi
    refine Nat.lt_of_le_of_ne (Nat.le_of_lt_succ hi) ?_
    rintro rfl
    exact hnone j hspan
  cases h with
  | none h => exact .none fun i j hspan => hbehind hspan (h i j hspan)
  | next hstart hspan hfirst hrest =>
    exact .next (Nat.le_of_succ_le hstart) hspan (fun k l hk hlt => hbehind hk (hfirst k l hk hlt)) hrest

/-- **There is one way to take the spans** if a span is known by its beginning. -/
theorem unique (hends : ∀ i j j', S i j → S i j' → j = j') (h : Leftmost S start spans)
    (h' : Leftmost S start spans') : spans = spans' := by
  induction h generalizing spans' with
  | none hnone =>
    cases h' with
    | none => rfl
    | next hstart hspan => exact absurd (hnone _ _ hspan) (Nat.not_lt.mpr hstart)
  | @next start i j rest hstart hspan hfirst hrest ih =>
    cases h' with
    | none hnone => exact absurd (hnone _ _ hspan) (Nat.not_lt.mpr hstart)
    | @next _ i' j' rest' hstart' hspan' hfirst' hrest' =>
      -- neither of the two spans begins before the other
      have hle : i ≤ i' := Nat.le_of_not_lt fun hlt =>
        absurd (hfirst i' j' hspan' hlt) (Nat.not_lt.mpr hstart')
      have hge : i' ≤ i := Nat.le_of_not_lt fun hlt => absurd (hfirst' i j hspan hlt) (Nat.not_lt.mpr hstart)
      obtain rfl : i = i' := Nat.le_antisymm hle hge
      obtain rfl : j = j' := hends i j j' hspan hspan'
      rw [ih hrest']

end Leftmost

/-! ### the spans of a search -/

/-- A place is known by the text and its index. -/
theorem Place.eq_of_index {before text : List Char} {a : Place} (htext : a.text = before.reverse ++ text)
    (hindex : a.index = before.length) : a = ⟨before, text⟩ := by
  cases a with
  | mk front back =>
    have hlength : front.reverse.length = before.reverse.length := by simpa [Place.index] using hindex
    have htext : front.reverse ++ back = before.reverse ++ text := htext
    obtain ⟨hfront, rfl⟩ := List.append_inj htext hlength
    obtain rfl := List.reverse_injective hfront
    rfl

namespace Pattern

variable {p : Pattern} {f : Stretch → List Char} {before text out : List Char} {found : List Found} {i j : Nat}

/-- The pattern reads the text from one index to the other. -/
def ReadsAt (p : Pattern) (text : List Char) (i j : Nat) : Prop :=
  ∃ a b : Place, a.text = text ∧ p.Reads a b ∧ a.index = i ∧ b.index = j

/-- Where the preferred reading is none there is none. -/
theorem not_readsAt (h : p.readAt ⟨before, text⟩ = none) (j : Nat) :
    ¬ p.ReadsAt (before.reverse ++ text) before.length j := by
  rintro ⟨a, b, htext, hreads, hindex, -⟩
  obtain rfl := Place.eq_of_index htext hindex
  have hread := (isSome_readAt p _).mpr ⟨b, hreads⟩
  rw [h] at hread
  cases hread

/-- The spans of the stretches found. -/
def spans (found : List Found) : List (Nat × Nat) :=
  found.map fun s => (s.start, s.stop)

theorem Sweeps.leftmost (h : p.Sweeps f before text found out) :
    Leftmost (p.ReadsAt (before.reverse ++ text)) before.length (spans found) := by
  induction h with
  | @done before hnone =>
    refine .of_succ (not_readsAt hnone) (.none ?_)
    rintro _ _ ⟨a, b, htext, -, rfl, -⟩
    have hle := a.index_le
    rw [htext, List.append_nil, List.length_reverse] at hle
    exact Nat.lt_succ_of_le hle
  | @kept before rest out c found hnone _ ih =>
    refine .of_succ (not_readsAt hnone) ?_
    simpa using ih
  | @taken before word rest out s found hne hread hfirst hlast _ ih =>
    obtain ⟨hstart, hstop⟩ := size_of_past hfirst hlast
    have hreads := (reads_of_readAt hread).2
    simp only [Place.index] at hstart hstop
    refine .next (Nat.le_of_eq hstart.symm) ⟨s.first, s.last, ?_, ?_, rfl, rfl⟩ (fun _ _ _ hlt => ?_) ?_
    · rw [hfirst]
      rfl
    · rwa [hfirst]
    · rwa [hstart] at hlt
    · have hlength : s.stop = (word.reverse ++ before).length := by
        rw [hstop, List.length_append, List.length_reverse, Nat.add_comm]
      have htext : (word.reverse ++ before).reverse ++ rest = before.reverse ++ (word ++ rest) := by simp
      rw [hlength, ← htext]
      exact ih

/-- **A search finds leftmost spans that the pattern reads**, one after the other. -/
theorem leftmost_searchAll (h : p.Consumes) (text : List Char) :
    Leftmost (p.ReadsAt text) 0 (spans (p.searchAll text)) :=
  (sweeps_searchAll h (fun _ => []) text).leftmost

end Pattern

/-! ### the spans of a phrase -/

section

variable {ws : List (List Char)} {text stretch stretch' rest rest' : List Char} {i j : Nat}

/-- The words stand in the text from one index to the other, one after the other and with such gaps, and no word
character touches them. -/
def SpreadAt (gap : List Char → Prop) (ws : List (List Char)) (text : List Char) (i j : Nat) : Prop :=
  ∃ before stretch after, text = before ++ stretch ++ after ∧ Laid gap ws stretch ∧
    isWord? before.getLast? = false ∧ isWord? after.head? = false ∧ i = before.length ∧
    j = before.length + stretch.length

/-- **Words are laid out from a place in one way only.** -/
theorem Laid.unique (h : Laid IsGap ws stretch) (h' : Laid IsGap ws stretch')
    (hws : ∀ w ∈ ws, w ≠ [] ∧ ∀ c ∈ w, isBlank (foldCase c) = false) (he : stretch ++ rest = stretch' ++ rest') :
    stretch = stretch' := by
  have hlength : ∀ {w word : List Char}, word.map foldCase = w.map foldCase → word.length = w.length := by
    intro w word h
    simpa using congrArg List.length h
  induction h generalizing stretch' with
  | none =>
    cases h'
    rfl
  | last hword =>
    obtain _ | hword' := h'
    exact (List.append_inj he ((hlength hword).trans (hlength hword').symm)).1
  | @more w v word between inner ws hword hgap hlaid ih =>
    obtain _ | _ | @⟨_, _, word', between', inner', _, hword', hgap', hlaid'⟩ := h'
    simp only [List.append_assoc] at he
    obtain ⟨rfl, hbehind⟩ := List.append_inj he ((hlength hword).trans (hlength hword').symm)
    -- the gap goes up to the first character of the next word
    have hws := fun u hu => hws u (List.mem_cons_of_mem w hu)
    obtain ⟨c, front, rfl, hc⟩ := hlaid.exists_first (hws v (List.mem_cons_self ..))
    obtain ⟨d, front', rfl, hd⟩ := hlaid'.exists_first (hws v (List.mem_cons_self ..))
    obtain ⟨rfl, hinner⟩ := eq_of_blank_before hgap.2 hgap'.2 hc hd hbehind
    rw [ih hlaid' hws hinner]

/-- Where words stand is known by where they begin. -/
theorem SpreadAt.unique (hws : Solid ws) {j' : Nat} (h : SpreadAt IsGap ws text i j)
    (h' : SpreadAt IsGap ws text i j') : j = j' := by
  obtain ⟨before, stretch, after, rfl, hlaid, -, -, rfl, rfl⟩ := h
  obtain ⟨before', stretch', after', he, hlaid', -, -, hi, rfl⟩ := h'
  rw [List.append_assoc, List.append_assoc] at he
  obtain ⟨hbefore, hrest⟩ := List.append_inj he hi
  rw [hlaid.unique hlaid' hws.each hrest, hbefore]

end

namespace Pattern

variable {phrase text : List Char} {i j : Nat}

/-- A phrase is read where its words stand. -/
theorem readsAt_phrase_iff :
    (Pattern.phrase phrase).ReadsAt text i j ↔ SpreadAt IsGap (words phrase) text i j := by
  constructor
  · rintro ⟨a, b, rfl, hreads, rfl, rfl⟩
    obtain ⟨stretch, rest, he, hlaid, hbefore, hafter, rfl⟩ := (reads_phrase_iff a b).mp hreads
    refine ⟨a.before.reverse, stretch, rest, ?_, hlaid, ?_, hafter, ?_, ?_⟩
    · rw [Place.text, he, List.append_assoc]
    · rw [List.getLast?_reverse]
      exact hbefore
    · simp [Place.index]
    · simp [Place.index, Place.past, Nat.add_comm]
  · rintro ⟨before, stretch, after, rfl, hlaid, hbefore, hafter, rfl, rfl⟩
    refine ⟨⟨before.reverse, stretch ++ after⟩, _, by simp [Place.text],
      (reads_phrase_iff _ _).mpr ⟨stretch, after, rfl, hlaid, ?_, hafter, rfl⟩, ?_, ?_⟩
    · rw [List.head?_reverse]
      exact hbefore
    · simp [Place.index]
    · simp [Place.index, Place.past, Nat.add_comm]

/-- Words in which there are characters are not read without any. -/
theorem consumes_phrase (hws : Solid (words phrase)) : (Pattern.phrase phrase).Consumes := by
  intro a ha
  obtain ⟨stretch, rest, -, hlaid, -, -, hb⟩ := (reads_phrase_iff a a).mp ha
  obtain ⟨⟨c, inner, rfl, -⟩, -⟩ := hlaid.boundary hws
  have hlength := congrArg Place.index hb
  simp only [Place.index, Place.past, List.length_append, List.length_reverse, List.length_cons] at hlength
  omega

/-- **A search for a phrase** finds the leftmost spans in which its words stand, with nothing but blanks between any
two of them and no word character before or behind them: these spans, all of them, and no others. -/
theorem spans_phrase_iff_leftmost (phrase text : List Char) (hwords : words phrase ≠ []) (found : List (Nat × Nat)) :
    spans ((Pattern.phrase phrase).searchAll text) = found ↔
      Leftmost (SpreadAt IsGap (words phrase) text) 0 found := by
  have hws : Solid (words phrase) := solid_of_words_ne_nil hwords
  have hsearch := leftmost_searchAll (consumes_phrase hws) text
  have hspans : (Pattern.phrase phrase).ReadsAt text = SpreadAt IsGap (words phrase) text := by
    funext i j
    exact propext readsAt_phrase_iff
  rw [hspans] at hsearch
  constructor
  · rintro rfl
    exact hsearch
  · exact hsearch.unique fun _ _ _ h h' => h.unique hws h'

/-- The signs of a phrase stand for themselves, the blanks between its words for any, and a letter behind it hides
it. -/
theorem spans_phrase_of_signs :
    words "c++ (m)".toList ≠ [] ∧
      Leftmost (SpreadAt IsGap (words "c++ (m)".toList) "C++ \t(M), c++ (m)s-c++ (m)".toList) 0 [(0, 8), (19, 26)] :=
  ⟨by decide, (spans_phrase_iff_leftmost _ _ (by decide) _).mp (by decide +kernel)⟩

end Pattern

end Outfitter.Text
