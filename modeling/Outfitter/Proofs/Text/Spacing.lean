import Mathlib.Data.List.Forall2
import Outfitter.Proofs.Text.Phrase

/-!
Texts in which the same phrases stand.

Two characters are `Alike` if no phrase tells them apart: the same words are laid out in texts that are alike
character by character (`Laid.alike`, `Spread.alike`). Texts that differ by the gaps between their words only
(`Spaced`) have the same phrases with other gaps (`Spread.spaced`); so a phrase stands in a text exactly if it stands
with single spaces in the collapsed text (`spread_collapse`).
-/

namespace Outfitter.Text

/-- A related list falls into two as the first one does. -/
theorem exists_append_of_forall₂ {α β : Type} {R : α → β → Prop} {u v : List α} {other : List β}
    (h : List.Forall₂ R (u ++ v) other) :
    ∃ u' v', other = u' ++ v' ∧ List.Forall₂ R u u' ∧ List.Forall₂ R v v' := by
  induction u generalizing other with
  | nil => exact ⟨[], other, rfl, .nil, h⟩
  | cons a u ih =>
    obtain ⟨b, rest, hab, hrest, rfl⟩ := List.forall₂_cons_left_iff.mp h
    obtain ⟨u', v', rfl, hu, hv⟩ := ih hrest
    exact ⟨b :: u', v', rfl, .cons hab hu, hv⟩

/-! ### characters that count alike -/

/-- The characters count alike in phrases: both are blanks, or they are the same up to case. -/
structure Alike (c d : Char) : Prop where
  word : isWord d = isWord c
  blank : isBlank d = isBlank c
  letter : isBlank c = false → foldCase d = foldCase c

theorem Alike.refl (c : Char) : Alike c c :=
  ⟨rfl, rfl, fun _ => rfl⟩

theorem Alike.symm {c d : Char} (h : Alike c d) : Alike d c :=
  ⟨h.word.symm, h.blank.symm, fun hd => (h.letter (h.blank ▸ hd)).symm⟩

theorem alike_of_blank {c d : Char} (hc : isBlank c = true) (hd : isBlank d = true) : Alike c d where
  word := by rw [isWord_blank hc, isWord_blank hd]
  blank := by rw [hc, hd]
  letter h := by rw [hc] at h; cases h

section

variable {text other : List Char}

theorem isWord?_head?_of_alike (h : List.Forall₂ Alike text other) : isWord? other.head? = isWord? text.head? := by
  cases h with
  | nil => rfl
  | cons hcd => exact hcd.word

theorem isWord?_getLast?_of_alike (h : List.Forall₂ Alike text other) :
    isWord? other.getLast? = isWord? text.getLast? := by
  have hreverse := isWord?_head?_of_alike (List.forall₂_reverse_iff.mpr h)
  simpa using hreverse

theorem blank_of_alike (h : List.Forall₂ Alike text other) (hblank : Blank text) : Blank other := by
  induction h with
  | nil => exact nofun
  | cons hcd _ ih =>
    obtain ⟨hc, hrest⟩ := List.forall_mem_cons.mp hblank
    exact List.forall_mem_cons.mpr ⟨hcd.blank.trans hc, ih hrest⟩

theorem map_foldCase_of_alike (h : List.Forall₂ Alike text other) (hsolid : ∀ c ∈ text, isBlank c = false) :
    other.map foldCase = text.map foldCase := by
  induction h with
  | nil => rfl
  | cons hcd _ ih =>
    obtain ⟨hc, hrest⟩ := List.forall_mem_cons.mp hsolid
    rw [List.map_cons, List.map_cons, hcd.letter hc, ih hrest]

theorem isGap_of_alike (h : List.Forall₂ Alike text other) (hgap : IsGap text) : IsGap other := by
  refine ⟨?_, blank_of_alike h hgap.2⟩
  rintro rfl
  exact hgap.1 (List.forall₂_nil_right_iff.mp h)

variable {ws : List (List Char)}

/-- Words without blanks are laid out as before in a stretch that is alike. -/
theorem Laid.alike (hlaid : Laid IsGap ws text) (hws : ∀ w ∈ ws, w ≠ [] ∧ ∀ c ∈ w, isBlank (foldCase c) = false)
    (h : List.Forall₂ Alike text other) : Laid IsGap ws other := by
  have hword : ∀ {w word word' : List Char}, w ∈ ws → word.map foldCase = w.map foldCase →
      List.Forall₂ Alike word word' → word'.map foldCase = w.map foldCase := by
    intro w word word' hw he ha
    rw [map_foldCase_of_alike ha (solid_of_same (hws w hw) he).2, he]
  induction hlaid generalizing other with
  | none =>
    obtain rfl := List.forall₂_nil_left_iff.mp h
    exact .none
  | last he => exact .last (hword (by simp) he h)
  | more he hgap hrest ih =>
    obtain ⟨front, rest, rfl, hfront, hrest'⟩ := exists_append_of_forall₂ h
    obtain ⟨word, between, rfl, hword', hbetween⟩ := exists_append_of_forall₂ hfront
    refine .more (hword (by simp) he hword') (isGap_of_alike hbetween hgap) ?_
    exact ih (fun w hw => hws w (List.mem_cons_of_mem _ hw)) hrest' fun hw => hword (List.mem_cons_of_mem _ hw)

/-- **The same phrases stand in texts that are alike.** -/
theorem Spread.alike (hspread : Spread IsGap ws text)
    (hws : ∀ w ∈ ws, w ≠ [] ∧ ∀ c ∈ w, isBlank (foldCase c) = false) (h : List.Forall₂ Alike text other) :
    Spread IsGap ws other := by
  obtain ⟨before, stretch, after, rfl, hlaid, hbefore, hafter⟩ := hspread
  obtain ⟨front, after', rfl, hfront, hafter'⟩ := exists_append_of_forall₂ h
  obtain ⟨before', stretch', rfl, hbefore', hstretch⟩ := exists_append_of_forall₂ hfront
  refine ⟨before', stretch', after', rfl, hlaid.alike hws hstretch, ?_, ?_⟩
  · rw [isWord?_getLast?_of_alike hbefore', hbefore]
  · rw [isWord?_head?_of_alike hafter', hafter]

end

/-! ### other gaps between words -/

/-- The texts differ by what stands between their words only: a gap of one kind in the first is one of another kind
in the second. -/
inductive Spaced (G H : List Char → Prop) : List Char → List Char → Prop where
  | done : Spaced G H [] []
  | kept {c : Char} {rest other : List Char} (hc : isBlank c = false) (h : Spaced G H rest other) :
      Spaced G H (c :: rest) (c :: other)
  | gap {between between' : List Char} {c : Char} {rest other : List Char} (hG : G between) (hH : H between')
      (hgap : IsGap between) (hgap' : IsGap between') (hc : isBlank c = false)
      (h : Spaced G H (c :: rest) (c :: other)) : Spaced G H (between ++ c :: rest) (between' ++ c :: other)

section

variable {G H : List Char → Prop} {text other : List Char}

theorem Spaced.symm (h : Spaced G H text other) : Spaced H G other text := by
  induction h with
  | done => exact .done
  | kept hc _ ih => exact .kept hc ih
  | gap hG hH hgap hgap' hc _ ih => exact .gap hH hG hgap' hgap hc ih

theorem Spaced.nil_iff (h : Spaced G H text other) : other = [] ↔ text = [] := by
  cases h <;> simp

theorem IsGap.exists_first {between : List Char} (h : IsGap between) :
    ∃ b rest, between = b :: rest ∧ isBlank b = true := by
  obtain ⟨b, rest, rfl⟩ := List.exists_cons_of_ne_nil h.1
  exact ⟨b, rest, rfl, h.2 b (List.mem_cons_self ..)⟩

/-- Blanks before a character that is none are all that stand there. -/
theorem eq_of_blank_before {front front' rest rest' : List Char} {c d : Char} (hfront : Blank front)
    (hfront' : Blank front') (hc : isBlank c = false) (hd : isBlank d = false)
    (h : front ++ c :: rest = front' ++ d :: rest') : front = front' ∧ c :: rest = d :: rest' := by
  obtain ⟨inner, rfl, he⟩ := Pattern.blank_before hfront hd h
  cases inner with
  | nil => exact ⟨by simp, he⟩
  | cons e inner =>
    obtain ⟨rfl, -⟩ := List.cons.inj he
    cases hc.symm.trans (hfront' c (by simp))

/-- What stands behind a gap stands behind one in the other text. -/
theorem Spaced.exists_gap {between rest : List Char} {c : Char} (hgap : IsGap between) (hc : isBlank c = false)
    (h : Spaced G H (between ++ c :: rest) other) : ∃ between' rest', other = between' ++ c :: rest' ∧ H between' ∧
      Spaced G H (c :: rest) (c :: rest') := by
  generalize htext : between ++ c :: rest = text at h
  cases h with
  | done => simp at htext
  | kept hd =>
    obtain ⟨b, between, rfl, hb⟩ := hgap.exists_first
    obtain ⟨rfl, -⟩ := List.cons.inj htext
    cases hd.symm.trans hb
  | gap _ hH hgap₁ _ hd hrest =>
    obtain ⟨rfl, he⟩ := eq_of_blank_before hgap.2 hgap₁.2 hc hd htext
    obtain ⟨rfl, rfl⟩ := List.cons.inj he
    exact ⟨_, _, rfl, hH, hrest⟩

/-- The other text begins as the first one does, if that does not begin with a gap. -/
theorem Spaced.exists_rest {c : Char} {rest : List Char} (hc : isBlank c = false) (h : Spaced G H (c :: rest) other) :
    ∃ rest', other = c :: rest' ∧ Spaced G H (c :: rest) (c :: rest') := by
  generalize htext : c :: rest = text at h ⊢
  cases h with
  | done => cases htext
  | kept hd h =>
    obtain ⟨rfl, rfl⟩ := List.cons.inj htext
    exact ⟨_, rfl, .kept hd h⟩
  | gap _ _ hgap =>
    obtain ⟨b, between, rfl, hb⟩ := hgap.exists_first
    obtain ⟨rfl, -⟩ := List.cons.inj htext
    cases hc.symm.trans hb

/-- Where a character stands that is no blank the other text has it, too. -/
theorem Spaced.split {front back : List Char} {c : Char} (hc : isBlank c = false)
    (h : Spaced G H (front ++ c :: back) other) : ∃ front' back', other = front' ++ c :: back' ∧
      Spaced G H (front ++ [c]) (front' ++ [c]) ∧ Spaced G H back back' ∧ (front' = [] ↔ front = []) ∧
      isWord? front'.getLast? = isWord? front.getLast? := by
  generalize htext : front ++ c :: back = text at h
  induction h generalizing front with
  | done => simp at htext
  | @kept d rest other hd h ih =>
    cases front with
    | nil =>
      obtain ⟨rfl, rfl⟩ := List.cons.inj htext
      exact ⟨[], other, rfl, .kept hc .done, h, Iff.rfl, rfl⟩
    | cons b front =>
      obtain ⟨rfl, rfl⟩ := List.cons.inj htext
      obtain ⟨front', back', rfl, hfront, hback, hnil, hword⟩ := ih rfl
      refine ⟨b :: front', back', rfl, .kept hd hfront, hback, by simp, ?_⟩
      by_cases hempty : front = []
      · rw [hempty, hnil.mpr hempty]
      · have hempty' : front' ≠ [] := fun h => hempty (hnil.mp h)
        rw [List.getLast?_cons_of_ne_nil hempty, List.getLast?_cons_of_ne_nil hempty', hword]
  | @gap between between' d rest other hG hH hgap hgap' hd h ih =>
    obtain ⟨inner, rfl, he⟩ := Pattern.blank_before hgap.2 hc htext.symm
    obtain ⟨front', back', hother, hfront, hback, hnil, hword⟩ := ih he.symm
    have hfirst : Spaced G H (between ++ (inner ++ [c])) (between' ++ (front' ++ [c])) := by
      -- the part up to the character begins as the whole does
      cases inner with
      | nil =>
        rw [hnil.mpr rfl]
        exact .gap hG hH hgap hgap' hc (.kept hc .done)
      | cons e inner =>
        obtain ⟨e', front', rfl⟩ := List.exists_cons_of_ne_nil fun h => by simpa using hnil.mp h
        obtain rfl := (List.cons.inj he).1
        obtain rfl := (List.cons.inj hother).1
        exact .gap hG hH hgap hgap' hd hfront
    rw [← List.append_assoc, ← List.append_assoc] at hfirst
    refine ⟨between' ++ front', back', by simp [hother], hfirst, hback, ?_, ?_⟩
    · simp [hgap.1, hgap'.1]
    · rw [Pattern.isWord?_getLast?_of_blank hgap.2, Pattern.isWord?_getLast?_of_blank hgap'.2, hword]

/-- Where no blank stands nothing differs. -/
theorem Spaced.eq_of_solid (h : Spaced G H text other) (hsolid : ∀ c ∈ text, isBlank c = false) : other = text := by
  induction h with
  | done => rfl
  | kept _ _ ih => rw [ih fun d hd => hsolid d (List.mem_cons_of_mem _ hd)]
  | gap _ _ hgap =>
    obtain ⟨b, between, rfl, hb⟩ := hgap.exists_first
    cases (hsolid b (by simp)).symm.trans hb

/-- Words are laid out with gaps of the other kind. -/
theorem Laid.spaced {ws : List (List Char)} (hlaid : Laid G ws text) (hG : ∀ between, G between → IsGap between)
    (hws : ∀ w ∈ ws, w ≠ [] ∧ ∀ c ∈ w, isBlank (foldCase c) = false) (h : Spaced G H text other) :
    Laid H ws other := by
  induction hlaid generalizing other with
  | none =>
    rw [h.nil_iff.mpr rfl]
    exact .none
  | last he => exact .last (h.eq_of_solid (solid_of_same (hws _ (List.mem_singleton.mpr rfl)) he).2 ▸ he)
  | @more w v word between rest ws he hgap hrest ih =>
    obtain ⟨hne, hsolid⟩ := solid_of_same (hws w (List.mem_cons_self ..)) he
    have hws := fun u hu => hws u (List.mem_cons_of_mem w hu)
    obtain ⟨c, inner, rfl, hc⟩ := hrest.exists_first (hws v (List.mem_cons_self ..))
    obtain ⟨front, d, rfl⟩ := (List.eq_nil_or_concat' word).resolve_left hne
    -- the word ends where its last character stands in the other text, too
    have hsplit : front ++ [d] ++ between ++ c :: inner = front ++ d :: (between ++ c :: inner) := by simp
    rw [hsplit] at h
    obtain ⟨front', back', rfl, hfront, hback, -, -⟩ := h.split (hsolid d (by simp))
    obtain ⟨between', rest', rfl, hgap', hrest'⟩ := hback.exists_gap (hG _ hgap) hc
    have hword := hfront.eq_of_solid hsolid
    obtain rfl : front' = front := List.append_cancel_right hword
    have hother : front' ++ d :: (between' ++ c :: rest') = front' ++ [d] ++ between' ++ c :: rest' := by simp
    rw [hother]
    exact .more he hgap' (ih hws hrest')

/-- **Phrases stand with gaps of the other kind** in the other text. -/
theorem Spread.spaced {ws : List (List Char)} (hspread : Spread G ws text) (hG : ∀ between, G between → IsGap between)
    (hws : Solid ws) (h : Spaced G H text other) : Spread H ws other := by
  obtain ⟨before, stretch, after, rfl, hlaid, hbefore, hafter⟩ := hspread
  obtain ⟨⟨c, inner, rfl, hc⟩, front, d, hlast, hd⟩ := hlaid.boundary hws
  rw [hlast] at h hlaid
  have hsplit : before ++ (front ++ [d]) ++ after = (before ++ front) ++ d :: after := by simp
  rw [hsplit] at h
  obtain ⟨front', after', rfl, hfront, hback, -, -⟩ := h.split hd
  have hsplit : before ++ front ++ [d] = before ++ c :: inner := by rw [List.append_assoc, ← hlast]
  rw [hsplit] at hfront
  obtain ⟨before', inner', hother, -, hinner, -, hword⟩ := hfront.split hc
  refine ⟨before', c :: inner', after', ?_, ?_, hword.trans hbefore, ?_⟩
  · rw [← hother]
    simp
  · exact Laid.spaced (hlast ▸ hlaid) hG hws.each (.kept hc hinner)
  · cases hback with
    | done => rfl
    | kept => exact hafter
    | gap _ _ _ hgap' =>
      obtain ⟨b, between, rfl, hb⟩ := hgap'.exists_first
      exact isWord_blank hb

end

/-- In the empty text there are no words. -/
theorem not_spread_nil {gap : List Char → Prop} {ws : List (List Char)} (hws : Solid ws) : ¬ Spread gap ws [] := by
  rintro ⟨before, stretch, after, he, hlaid, -⟩
  obtain ⟨⟨c, rest, rfl, -⟩, -⟩ := hlaid.boundary hws
  simp at he

/-! ### blanks at the ends -/

/-- **Blanks at the ends of a text** make no difference to the phrases in it. -/
theorem spread_between {gap : List Char → Prop} {ws : List (List Char)} (hws : Solid ws) {pre post : List Char}
    (hpre : Blank pre) (hpost : Blank post) (text : List Char) :
    Spread gap ws (pre ++ text ++ post) ↔ Spread gap ws text := by
  constructor
  · rintro ⟨before, stretch, after, he, hlaid, hbefore, hafter⟩
    obtain ⟨⟨c, inner, hfirst, hc⟩, front, d, hlast, hd⟩ := hlaid.boundary hws
    obtain ⟨before, rfl, h₁⟩ : ∃ b, before = pre ++ b ∧ text ++ post = b ++ (stretch ++ after) := by
      rw [hfirst] at he ⊢
      exact Pattern.blank_before hpre hc (by simpa using he)
    obtain ⟨after, rfl, rfl⟩ : ∃ a, after = a ++ post ∧ text = before ++ stretch ++ a := by
      rw [hlast] at h₁ ⊢
      have hend : text ++ post = (before ++ front) ++ [d] ++ after := by simpa using h₁
      obtain ⟨a, h₂, h₃⟩ := Pattern.blank_after hpost hd hend
      exact ⟨a, h₂, by simpa using h₃⟩
    rw [Pattern.isWord?_getLast?_of_blank hpre] at hbefore
    rw [Pattern.isWord?_head?_of_blank hpost] at hafter
    exact ⟨before, stretch, after, rfl, hlaid, hbefore, hafter⟩
  · rintro ⟨before, stretch, after, rfl, hlaid, hbefore, hafter⟩
    refine ⟨pre ++ before, stretch, after ++ post, by simp, hlaid, ?_, ?_⟩
    · rwa [Pattern.isWord?_getLast?_of_blank hpre]
    · rwa [Pattern.isWord?_head?_of_blank hpost]

theorem spread_trim {gap : List Char → Prop} {ws : List (List Char)} (hws : Solid ws) (text : List Char) :
    Spread gap ws (trim text) ↔ Spread gap ws text := by
  obtain ⟨pre, post, hpre, hpost, he⟩ := exists_trim text
  generalize trim text = inner at he ⊢
  rw [he, spread_between hws hpre hpost]

/-! ### one space between words -/

/-- One space. -/
def IsSpace (between : List Char) : Prop :=
  between = [' ']

theorem isGap_of_isSpace {between : List Char} (h : IsSpace between) : IsGap between := by
  subst h
  refine ⟨by simp, fun c hc => ?_⟩
  rw [List.mem_singleton.mp hc]
  rfl

/-- Words laid out with single spaces are laid out with blanks between them. -/
theorem Laid.isGap {ws : List (List Char)} {stretch : List Char} (h : Laid IsSpace ws stretch) :
    Laid IsGap ws stretch := by
  induction h with
  | none => exact .none
  | last h => exact .last h
  | more h hgap _ ih => exact .more h (isGap_of_isSpace hgap) ih

theorem Spread.isGap {ws : List (List Char)} {text : List Char} (h : Spread IsSpace ws text) :
    Spread IsGap ws text := by
  obtain ⟨before, stretch, after, he, hlaid, hbefore, hafter⟩ := h
  exact ⟨before, stretch, after, he, hlaid.isGap, hbefore, hafter⟩

/-- A word goes on in front of the words behind it. -/
theorem wordsFrom_concat (c : Char) {word : List Char} (hne : word ≠ []) (text : List Char) :
    ∃ w ws, wordsFrom word text = w :: ws ∧ wordsFrom (word ++ [c]) text = (c :: w) :: ws := by
  induction text generalizing word with
  | nil => exact ⟨word.reverse, [], by simp [wordsFrom, hne], by simp [wordsFrom]⟩
  | cons d text ih =>
    by_cases hd : isBlank d = true
    · exact ⟨word.reverse, wordsFrom [] text, by simp [wordsFrom, hd, hne], by simp [wordsFrom, hd]⟩
    · obtain ⟨w, ws, h, h'⟩ := ih (List.cons_ne_nil d word)
      refine ⟨w, ws, ?_, ?_⟩
      · rw [wordsFrom, if_neg hd, h]
      · rw [wordsFrom, if_neg hd, ← List.cons_append, h']

/-- A character before a word is the first of the word. -/
theorem collapse_cons_cons {c d : Char} (hc : isBlank c = false) (hd : isBlank d = false) (rest : List Char) :
    collapse (c :: d :: rest) = c :: collapse (d :: rest) := by
  obtain ⟨w, ws, h, h'⟩ := wordsFrom_concat c (List.cons_ne_nil d []) rest
  have hfront : words (c :: d :: rest) = (c :: w) :: ws := by simpa [words, wordsFrom, hc, hd] using h'
  have hback : words (d :: rest) = w :: ws := by simpa [words, wordsFrom, hd] using h
  unfold collapse
  rw [hfront, hback]
  cases ws with
  | nil => rfl
  | cons v vs => rfl

/-- A character before a blank is a word by itself. -/
theorem collapse_cons_blank {c d : Char} (hc : isBlank c = false) (hd : isBlank d = true) (rest : List Char) :
    collapse (c :: d :: rest) = if collapse rest = [] then [c] else c :: ' ' :: collapse rest := by
  have hwords : words (c :: d :: rest) = [c] :: words rest := by simp [words, wordsFrom, hc, hd]
  unfold collapse
  rw [hwords]
  cases hrest : words rest with
  | nil => rfl
  | cons w ws =>
    have hne := (mem_words (hrest ▸ List.mem_cons_self .. : w ∈ words rest)).1
    obtain ⟨e, w, rfl⟩ := List.exists_cons_of_ne_nil hne
    cases ws <;> rfl

theorem collapse_singleton {c : Char} (hc : isBlank c = false) : collapse [c] = [c] := by
  simp [collapse, words, wordsFrom, hc, List.intercalate]

theorem collapse_cons_of_blank {c : Char} (hc : isBlank c = true) (rest : List Char) :
    collapse (c :: rest) = collapse rest := by
  simp [collapse, words, wordsFrom, hc]

/-- The other text is the inner part of the first one, with single spaces for the gaps in it. -/
def Collapses (text collapsed : List Char) : Prop :=
  ∃ pre inner post, text = pre ++ inner ++ post ∧ Blank pre ∧ Blank post ∧
    (∀ c ∈ inner.head?, isBlank c = false) ∧ Spaced IsGap IsSpace inner collapsed

namespace Collapses

variable {c d : Char} {text collapsed : List Char}

theorem blank (hc : isBlank c = true) (h : Collapses text collapsed) : Collapses (c :: text) collapsed := by
  obtain ⟨pre, inner, post, rfl, hpre, hpost, hfirst, hspaced⟩ := h
  exact ⟨c :: pre, inner, post, rfl, List.forall_mem_cons.mpr ⟨hc, hpre⟩, hpost, hfirst, hspaced⟩

/-- Behind the last character there are blanks only. -/
theorem last (hc : isBlank c = false) (h : Collapses text []) : Collapses (c :: text) [c] := by
  obtain ⟨pre, inner, post, rfl, hpre, hpost, -, hspaced⟩ := h
  obtain rfl := hspaced.symm.nil_iff.mpr rfl
  refine ⟨[], [c], pre ++ post, by simp, nofun, ?_, by simpa using hc, .kept hc .done⟩
  exact List.forall_mem_append.mpr ⟨hpre, hpost⟩

/-- The character before a character that is no blank goes on in front of the inner part. -/
theorem letter (hc : isBlank c = false) (hd : isBlank d = false) (h : Collapses (d :: text) collapsed) :
    Collapses (c :: d :: text) (c :: collapsed) := by
  obtain ⟨pre, inner, post, htext, hpre, hpost, -, hspaced⟩ := h
  obtain rfl : pre = [] := by
    cases pre with
    | nil => rfl
    | cons b pre =>
      obtain ⟨rfl, -⟩ := List.cons.inj htext
      cases hd.symm.trans (hpre d (by simp))
  exact ⟨[], c :: inner, post, by simp [htext], nofun, hpost, by simpa using hc, .kept hc hspaced⟩

/-- The character before a blank stands before a gap, if there is more. -/
theorem gap (hc : isBlank c = false) (hd : isBlank d = true) (hmore : collapsed ≠ [])
    (h : Collapses (d :: text) collapsed) : Collapses (c :: d :: text) (c :: ' ' :: collapsed) := by
  obtain ⟨pre, inner, post, htext, hpre, hpost, hfirst, hspaced⟩ := h
  obtain ⟨e, inner, rfl⟩ := List.exists_cons_of_ne_nil fun h => hmore (hspaced.nil_iff.mpr h)
  have he : isBlank e = false := hfirst e rfl
  have hgap : IsGap pre := by
    refine ⟨?_, hpre⟩
    rintro rfl
    obtain ⟨rfl, -⟩ := List.cons.inj htext
    cases hd.symm.trans he
  have hspace : IsSpace [' '] := rfl
  obtain ⟨other, rfl, hspaced⟩ := hspaced.exists_rest he
  exact ⟨[], c :: (pre ++ e :: inner), post, by simp [htext], nofun, hpost, by simpa using hc,
    .kept hc (.gap hgap hspace hgap (isGap_of_isSpace hspace) he hspaced)⟩

end Collapses

/-- **Collapsed, a text differs from its inner part by its gaps only.** -/
theorem collapses_collapse (text : List Char) : Collapses text (collapse text) := by
  induction text with
  | nil => exact ⟨[], [], [], rfl, nofun, nofun, nofun, .done⟩
  | cons c text ih =>
    by_cases hc : isBlank c = true
    · rw [collapse_cons_of_blank hc]
      exact ih.blank hc
    · have hc : isBlank c = false := Bool.eq_false_iff.mpr hc
      cases text with
      | nil =>
        rw [collapse_singleton hc]
        exact ih.last hc
      | cons d text =>
        by_cases hd : isBlank d = true
        · rw [collapse_cons_blank hc hd, ← collapse_cons_of_blank hd]
          split
          · rename_i hnone
            rw [hnone] at ih
            exact ih.last hc
          · rename_i hmore
            exact ih.gap hc hd hmore
        · have hd : isBlank d = false := Bool.eq_false_iff.mpr hd
          rw [collapse_cons_cons hc hd]
          exact ih.letter hc hd

/-- **Collapsing a text makes the gaps of its phrases single spaces.** -/
theorem spread_collapse {ws : List (List Char)} (hws : Solid ws) (text : List Char) :
    Spread IsSpace ws (collapse text) ↔ Spread IsGap ws text := by
  obtain ⟨pre, inner, post, htext, hpre, hpost, -, hspaced⟩ := collapses_collapse text
  generalize collapse text = collapsed at hspaced ⊢
  rw [htext, spread_between hws hpre hpost]
  constructor
  · exact fun h => h.spaced (fun _ => isGap_of_isSpace) hws hspaced.symm
  · exact fun h => h.spaced (fun _ => id) hws hspaced

end Outfitter.Text
