import Outfitter.Proofs.Text.Clean
import Outfitter.Proofs.Text.Reads

/-!
Texts in which all that a pattern spells is replaced.

`Pattern.Rewrites` relates a text to what becomes of it, character by character. The pattern spells nothing in
the result any more if the replacement brings none of its words (`free_of_rewrites`), and replacing again
changes nothing (`replaceAll_of_free`, `replaceAll_of_rewrites`).
-/

namespace Outfitter.Text

namespace Pattern

variable {p q : Pattern} {replacement text out : List Char}

/-! ### readings of patterns that ask nothing about places -/

/-- A pattern reads some word that it spells, if one stands there. -/
theorem readAt_cases (h : p.Blind) (a : Place) :
    (p.readAt a = none ∧ ∀ word, p.Spells word → ¬ word <+: a.after) ∨
      ∃ word rest found, a.after = word ++ rest ∧ p.Spells word ∧ p.readAt a = some found ∧
        found.size = word.length := by
  cases hread : p.readAt a with
  | none =>
    refine .inl ⟨rfl, fun word hword hbegins => ?_⟩
    obtain ⟨rest, hrest⟩ := hbegins
    have hreads : p.Reads a (a.past word rest) :=
      (reads_iff_of_blind h ..).mpr ⟨word, rest, hrest.symm, hword, rfl⟩
    have hsome := (isSome_readAt p a).mpr ⟨_, hreads⟩
    rw [hread] at hsome
    cases hsome
  | some found =>
    obtain ⟨r, hr, rfl⟩ := Option.map_eq_some_iff.mp hread
    obtain ⟨word, rest, hafter, hword, hplace⟩ := (reads_iff_of_blind h ..).mp
      ((mem_readings p ⟨a, []⟩ r.place).mp ⟨r, List.mem_of_head? hr, rfl⟩)
    refine .inr ⟨word, rest, _, hafter, hword, rfl, ?_⟩
    show r.place.before.length - a.before.length = word.length
    rw [hplace]
    show (word.reverse ++ a.before).length - a.before.length = word.length
    rw [List.length_append, List.length_reverse]
    omega

/-- What has been read is passed. -/
theorem replaceFrom_append (f : Stretch → List Char) (word before rest : List Char) :
    p.replaceFrom f word.length before (word ++ rest) = p.replaceFrom f 0 (word.reverse ++ before) rest := by
  induction word generalizing before with
  | nil => rfl
  | cons c word ih =>
    rw [List.cons_append, List.length_cons, replaceFrom, ih]
    simp

/-- A word that is read is replaced, and what stands behind it is rewritten in turn. -/
theorem replaceFrom_of_readAt (f : Stretch → List Char) {found : Found} {word before rest : List Char}
    (hne : word ≠ []) (hread : p.readAt ⟨before, word ++ rest⟩ = some found) (hsize : found.size = word.length) :
    p.replaceFrom f 0 before (word ++ rest) =
      f found.toStretch ++ p.replaceFrom f 0 (word.reverse ++ before) rest := by
  obtain ⟨c, word, rfl⟩ := List.exists_cons_of_ne_nil hne
  have hpositive : ¬ found.size = 0 := by
    rw [hsize]
    exact Nat.succ_ne_zero _
  have hpassed : found.size - 1 = word.length := by
    rw [hsize]
    rfl
  rw [List.cons_append] at hread ⊢
  rw [replaceFrom, hread]
  dsimp only
  rw [if_neg hpositive, hpassed, replaceFrom_append]
  simp

section

variable (h : p.Blind) (hne : ∀ word, p.Spells word → word ≠ [])
include h hne

theorem replaceFrom_nil (before : List Char) : p.replaceFrom (fun _ => replacement) 0 before [] = [] := by
  rcases readAt_cases h ⟨before, []⟩ with ⟨hread, -⟩ | ⟨word, rest, -, hafter, hword, -⟩
  · rw [replaceFrom, hread]
  · exact absurd (List.append_eq_nil_iff.mp hafter.symm).1 (hne word hword)

/-- A character is kept if no word begins with it; else a word is replaced. -/
theorem replaceFrom_cons (replacement before : List Char) (c : Char) (after : List Char) :
    ((∀ word, p.Spells word → ¬ word <+: c :: after) ∧
      p.replaceFrom (fun _ => replacement) 0 before (c :: after) =
        c :: p.replaceFrom (fun _ => replacement) 0 (c :: before) after) ∨
    ∃ word rest, c :: after = word ++ rest ∧ p.Spells word ∧
      p.replaceFrom (fun _ => replacement) 0 before (c :: after) =
        replacement ++ p.replaceFrom (fun _ => replacement) 0 (word.reverse ++ before) rest := by
  rcases readAt_cases h ⟨before, c :: after⟩ with ⟨hread, hnone⟩ | ⟨word, rest, found, hafter, hword, hread, hsize⟩
  · refine .inl ⟨hnone, ?_⟩
    rw [replaceFrom, hread]
  · refine .inr ⟨word, rest, hafter, hword, ?_⟩
    dsimp only at hafter
    rw [hafter] at hread ⊢
    exact replaceFrom_of_readAt _ (hne word hword) hread hsize

end

/-! ### what becomes of a text -/

/-- What becomes of a text when the words of a pattern in it are replaced, from left to right. -/
inductive Rewrites (p : Pattern) (replacement : List Char) : List Char → List Char → Prop where
  | done : Rewrites p replacement [] []
  | kept {c : Char} {rest out : List Char} (hnone : ∀ word, p.Spells word → ¬ word <+: c :: rest)
      (h : Rewrites p replacement rest out) : Rewrites p replacement (c :: rest) (c :: out)
  | replaced {word rest out : List Char} (hword : p.Spells word) (h : Rewrites p replacement rest out) :
      Rewrites p replacement (word ++ rest) (replacement ++ out)

theorem rewrites_replaceFrom (h : p.Blind) (hne : ∀ word, p.Spells word → word ≠ []) (before text : List Char) :
    p.Rewrites replacement text (p.replaceFrom (fun _ => replacement) 0 before text) := by
  -- the text becomes shorter by a character or by a word
  induction hlength : text.length using Nat.strongRecOn generalizing before text with
  | ind n ih =>
    cases text with
    | nil =>
      rw [replaceFrom_nil h hne]
      exact .done
    | cons c after =>
      rcases replaceFrom_cons h hne replacement before c after with
        ⟨hnone, he⟩ | ⟨word, rest, hafter, hword, he⟩
      · rw [he]
        exact .kept hnone (ih after.length (by rw [← hlength]; exact Nat.lt_succ_self _) _ _ rfl)
      · have hpositive := List.length_pos_iff.mpr (hne word hword)
        have htotal := congrArg List.length hafter
        rw [List.length_append] at htotal
        rw [he, hafter]
        exact .replaced hword (ih rest.length (by omega) _ _ rfl)

theorem rewrites_replaceAll (h : p.Blind) (hne : ∀ word, p.Spells word → word ≠ []) (text : List Char) :
    p.Rewrites replacement text (p.replaceAll (fun _ => replacement) text) :=
  rewrites_replaceFrom h hne [] text

/-- Nothing but the replacement is new. -/
theorem Rewrites.mem (h : p.Rewrites replacement text out) {c : Char} (hc : c ∈ out) :
    c ∈ text ∨ c ∈ replacement := by
  induction h with
  | done => exact absurd hc List.not_mem_nil
  | kept _ _ ih =>
    rcases List.mem_cons.mp hc with rfl | hc
    · exact .inl (List.mem_cons_self ..)
    · exact (ih hc).imp_left (List.mem_cons_of_mem _)
  | replaced _ _ ih =>
    rcases List.mem_append.mp hc with hc | hc
    · exact .inr hc
    · exact (ih hc).imp_left (List.mem_append_right _)

theorem Rewrites.eq_nil (h : p.Rewrites replacement text out) (hne : replacement ≠ []) (ho : out = []) :
    text = [] := by
  cases h with
  | done => rfl
  | kept => cases ho
  | replaced => exact absurd (List.append_eq_nil_iff.mp ho).1 hne

theorem Rewrites.last (h : p.Rewrites replacement text out) (hne : replacement ≠ []) {c : Char}
    (hc : out.getLast? = some c) : text.getLast? = some c ∨ replacement.getLast? = some c := by
  -- the last character is that of the last part that is not empty
  have hparts : ∀ {parts rest : List Char}, (parts ++ rest).getLast? = some c →
      rest.getLast? = some c ∨ rest = [] ∧ parts.getLast? = some c := by
    intro parts rest hlast
    rw [List.getLast?_append] at hlast
    exact (Option.or_eq_some_iff.mp hlast).imp_right (.imp_left List.getLast?_eq_none_iff.mp)
  have hbehind : ∀ {parts rest : List Char}, rest.getLast? = some c → (parts ++ rest).getLast? = some c := by
    intro parts rest hlast
    rw [List.getLast?_append, hlast]
    rfl
  induction h with
  | done => cases hc
  | @kept d rest out _ h ih =>
    rcases @hparts [d] out hc with hlast | ⟨hnil, hlast⟩
    · exact (ih hlast).imp_left (@hbehind [d] rest)
    · rw [h.eq_nil hne hnil]
      exact .inl hlast
  | @replaced word rest out _ h ih =>
    rcases hparts hc with hlast | ⟨-, hlast⟩
    · exact (ih hlast).imp_left hbehind
    · exact .inr hlast

/-- No blank comes to the ends of a text if the replacement has none there. -/
theorem Rewrites.trimmed (h : p.Rewrites replacement text out) (hne : replacement ≠ [])
    (hr : Trimmed replacement) (ht : Trimmed text) : Trimmed out := by
  constructor
  · obtain ⟨r, rest, rfl⟩ := List.exists_cons_of_ne_nil hne
    cases h with
    | done => exact nofun
    | kept => exact ht.first
    | replaced => exact hr.first
  · intro c hc
    rcases h.last hne hc with hlast | hlast
    · exact ht.last c hlast
    · exact hr.last c hlast

/-! ### words that are not there -/

/-- No word of the pattern stands in the text. -/
def Free (p : Pattern) (text : List Char) : Prop :=
  ∀ word, p.Spells word → ¬ word <:+: text

/-- The replacement can be no part of a word of the pattern, unless the word begins with it. -/
def Apart (p : Pattern) (replacement : List Char) : Prop :=
  ∃ c rest, replacement = c :: rest ∧ ∀ word, p.Spells word → word ≠ [] ∧ c ∉ word.tail

/-- A word that goes on in what becomes of a text went on in the text. -/
theorem Rewrites.isPrefix (h : p.Rewrites replacement text out) {c : Char} {rest word : List Char}
    (hr : replacement = c :: rest) (hc : c ∉ word) (hword : word <+: out) : word <+: text := by
  induction h generalizing word with
  | done => exact hword
  | kept _ _ ih =>
    cases word with
    | nil => exact List.nil_prefix
    | cons d word =>
      obtain ⟨rfl, hrest⟩ := List.cons_prefix_cons.mp hword
      exact List.cons_prefix_cons.mpr ⟨rfl, ih (fun hmem => hc (List.mem_cons_of_mem _ hmem)) hrest⟩
  | replaced =>
    cases word with
    | nil => exact List.nil_prefix
    | cons d word =>
      rw [hr, List.cons_append] at hword
      obtain ⟨rfl, -⟩ := List.cons_prefix_cons.mp hword
      exact absurd (List.mem_cons_self ..) hc

/-- A word that begins with a kept character stood in the text. -/
theorem Rewrites.isPrefix_kept (h : p.Rewrites replacement text out) (hq : q.Apart replacement) {c : Char}
    {word : List Char} (hspells : q.Spells word) (hword : word <+: c :: out) : word <+: c :: text := by
  obtain ⟨r, rest, hr, hapart⟩ := hq
  obtain ⟨hne, htail⟩ := hapart word hspells
  obtain ⟨d, word, rfl⟩ := List.exists_cons_of_ne_nil hne
  obtain ⟨rfl, hrest⟩ := List.cons_prefix_cons.mp hword
  exact List.cons_prefix_cons.mpr ⟨rfl, h.isPrefix hr htail hrest⟩

/-- Characters with which no word begins bring no word. -/
theorem Free.append (h : p.Free text) {front : List Char}
    (hfront : ∀ word, p.Spells word → ∀ c ∈ word.head?, c ∉ front) (hne : ∀ word, p.Spells word → word ≠ []) :
    p.Free (front ++ text) := by
  induction front with
  | nil => exact h
  | cons c front ih =>
    have hrest := ih fun word hword d hd hmem => hfront word hword d hd (List.mem_cons_of_mem _ hmem)
    intro word hword hinfix
    rcases List.infix_cons_iff.mp hinfix with hbegins | hinfix
    · obtain ⟨d, word, rfl⟩ := List.exists_cons_of_ne_nil (hne _ hword)
      obtain ⟨rfl, -⟩ := List.cons_prefix_cons.mp hbegins
      exact hfront _ hword d rfl (List.mem_cons_self ..)
    · exact hrest word hword hinfix

/-- **No word is left**, if no word begins with a character of the replacement and none was there that is not
replaced. -/
theorem free_of_rewrites (h : p.Rewrites replacement text out) (hq : q.Apart replacement)
    (hfront : ∀ word, q.Spells word → ∀ c ∈ word.head?, c ∉ replacement)
    (hwords : (∀ word, q.Spells word → p.Spells word) ∨ q.Free text) : q.Free out := by
  have hne : ∀ word, q.Spells word → word ≠ [] := by
    obtain ⟨_, _, _, hapart⟩ := hq
    exact fun word hword => (hapart word hword).1
  induction h with
  | done =>
    intro word hword hinfix
    exact hne word hword (List.infix_nil.mp hinfix)
  | @kept c rest out hnone h ih =>
    intro word hword hinfix
    rcases List.infix_cons_iff.mp hinfix with hbegins | hinfix
    · have hstood := h.isPrefix_kept hq hword hbegins
      rcases hwords with hwords | hfree
      · exact hnone word (hwords word hword) hstood
      · exact hfree word hword hstood.isInfix
    · refine ih (hwords.imp_right fun hfree => ?_) word hword hinfix
      exact fun w hw hin => hfree w hw (hin.trans (List.suffix_cons c rest).isInfix)
  | @replaced word rest out _ h ih =>
    refine (ih (hwords.imp_right fun hfree => ?_)).append hfront hne
    exact fun w hw hin => hfree w hw (hin.trans (List.suffix_append word rest).isInfix)

/-! ### replacing again -/

section

variable (h : p.Blind) (hne : ∀ word, p.Spells word → word ≠ [])
include h hne

/-- Nothing is replaced in a text without the words. -/
theorem replaceAll_of_free (hfree : p.Free text) : p.replaceAll (fun _ => replacement) text = text := by
  have hfrom : ∀ before, p.replaceFrom (fun _ => replacement) 0 before text = text := by
    induction text with
    | nil => exact replaceFrom_nil h hne
    | cons c text ih =>
      intro before
      rcases replaceFrom_cons h hne replacement before c text with ⟨-, he⟩ | ⟨word, rest, hafter, hword, -⟩
      · rw [he, ih fun word hword hin => hfree word hword (hin.trans (List.suffix_cons c text).isInfix)]
      · exact absurd ⟨[], rest, by rw [hafter]; rfl⟩ (hfree word hword)
  exact hfrom []

/-- **Replacing again changes nothing** if the replacement is the only word that stands where it was put. -/
theorem replaceAll_of_rewrites (hapart : p.Apart replacement) (hspells : p.Spells replacement)
    (honly : ∀ word rest, p.Spells word → word <+: replacement ++ rest → word = replacement)
    (hout : p.Rewrites replacement text out) : p.replaceAll (fun _ => replacement) out = out := by
  have hfrom : ∀ before, p.replaceFrom (fun _ => replacement) 0 before out = out := by
    induction hout with
    | done => exact replaceFrom_nil h hne
    | @kept c rest out hnone hout ih =>
      intro before
      rcases replaceFrom_cons h hne replacement before c out with ⟨-, he⟩ | ⟨word, rest, hafter, hword, -⟩
      · rw [he, ih]
      · have hbegins : word <+: c :: out := ⟨rest, hafter.symm⟩
        exact absurd (hout.isPrefix_kept hapart hword hbegins) (hnone word hword)
    | @replaced word rest out _ hout ih =>
      intro before
      obtain ⟨r, inner, hr, -⟩ := hapart
      have hstart : replacement ++ out = r :: (inner ++ out) := by
        rw [hr]
        rfl
      rcases replaceFrom_cons h hne replacement before r (inner ++ out) with
        ⟨hnone, -⟩ | ⟨word, rest, hafter, hword, he⟩
      · exact absurd ⟨out, hstart⟩ (hnone replacement hspells)
      · obtain rfl := honly word out hword ⟨rest, by rw [hstart, hafter]⟩
        have hrest : out = rest := List.append_cancel_left (hstart.trans hafter)
        rw [hstart, he, ← hrest, ih, ← hstart]
  exact hfrom []

end

end Pattern

end Outfitter.Text
