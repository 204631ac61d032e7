import Mathlib.Data.List.Chain
import Outfitter.Proofs.Text.Phrase
import Outfitter.Taxonomy.Dimension

/-!
Texts of which stretches have been taken out.

A `Mask` tells of a text which characters of it are still shown, and which stretches are shown as spaces. Taking
out phrases, one after the other, leaves a mask that `Fits`: every taken stretch holds a phrase in itself, and it
stands beside characters that are kept and no word characters (`fits_replaceAll`). So the words of a phrase that is
found in what is shown stand in the text, with blanks between them or with other phrases (`Fits.spread`).
-/

namespace Outfitter.Taxonomy

open Text

/-- A character that is kept, or a stretch that has been taken out. -/
inductive Segment where
  | kept (c : Char)
  | taken (stretch : List Char)

namespace Segment

def text : Segment → List Char
  | kept c => [c]
  | taken stretch => stretch

/-- The character, or as many spaces as the stretch has characters. -/
def shown : Segment → List Char
  | kept c => [c]
  | taken stretch => List.replicate stretch.length ' '

/-- The character, or what stands for the stretch. -/
def display (f : List Char → List Char) : Segment → List Char
  | kept c => [c]
  | taken stretch => f stretch

/-- Only characters that are no word characters stand beside a taken stretch. -/
def Beside : Segment → Segment → Prop
  | kept _, kept _ => True
  | kept c, taken _ => isWord c = false
  | taken _, kept c => isWord c = false
  | taken _, taken _ => False

end Segment

/-- The segments of a text. -/
abbrev Mask :=
  List Segment

namespace Mask

open Segment Scan

variable {P : List Char → Prop} {phrase : List Char} {ws : List (List Char)} {m : Mask}

/-- The text that is masked. -/
def text (m : Mask) : List Char :=
  m.flatMap Segment.text

/-- What is shown of it. -/
def shown (m : Mask) : List Char :=
  m.flatMap Segment.shown

@[simp] theorem text_nil : text [] = [] := rfl

@[simp] theorem shown_nil : shown [] = [] := rfl

@[simp] theorem text_cons (s : Segment) (m : Mask) : text (s :: m) = s.text ++ text m := rfl

@[simp] theorem shown_cons (s : Segment) (m : Mask) : shown (s :: m) = s.shown ++ shown m := rfl

@[simp] theorem text_append (m n : Mask) : text (m ++ n) = text m ++ text n :=
  List.flatMap_append

@[simp] theorem shown_append (m n : Mask) : shown (m ++ n) = shown m ++ shown n :=
  List.flatMap_append

/-- What is shown of it, if this stands for the taken stretches. -/
def display (f : List Char → List Char) (m : Mask) : List Char :=
  m.flatMap (Segment.display f)

@[simp] theorem display_nil (f : List Char → List Char) : display f [] = [] := rfl

@[simp] theorem display_cons (f : List Char → List Char) (s : Segment) (m : Mask) :
    display f (s :: m) = s.display f ++ display f m := rfl

@[simp] theorem display_append (f : List Char → List Char) (m n : Mask) :
    display f (m ++ n) = display f m ++ display f n :=
  List.flatMap_append

theorem shown_eq_display : shown = display fun stretch => List.replicate stretch.length ' ' := by
  funext m
  refine congrArg (m.flatMap ·) (funext fun s => ?_)
  cases s <;> rfl

theorem length_text (m : Mask) : (text m).length = (shown m).length := by
  induction m with
  | nil => rfl
  | cons s m ih => cases s <;> simp [Segment.text, Segment.shown, ih]

/-- A text of which everything is shown. -/
def clear (text : List Char) : Mask :=
  text.map kept

theorem not_taken_clear (text stretch : List Char) : taken stretch ∉ clear text := by
  intro h
  obtain ⟨c, -, he⟩ := List.mem_map.mp h
  cases he

/-- Where nothing is taken out the text itself is shown. -/
theorem text_eq_display (f : List Char → List Char) (h : ∀ stretch, taken stretch ∉ m) : text m = display f m := by
  induction m with
  | nil => rfl
  | cons s m ih =>
    have hrest := ih fun stretch hmem => h stretch (List.mem_cons_of_mem _ hmem)
    cases s with
    | kept c => exact congrArg (c :: ·) hrest
    | taken stretch => exact absurd (List.mem_cons_self ..) (h stretch)

theorem text_eq_shown (h : ∀ stretch, taken stretch ∉ m) : text m = shown m := by
  rw [shown_eq_display]
  exact text_eq_display _ h

theorem shown_clear (text : List Char) : shown (clear text) = text := by
  induction text with
  | nil => rfl
  | cons c text ih => exact congrArg (c :: ·) ih

theorem text_clear (t : List Char) : text (clear t) = t :=
  (text_eq_shown (not_taken_clear t)).trans (shown_clear t)

/-- A taken stretch is shown as blanks. -/
theorem blank_replicate (n : Nat) : Blank (List.replicate n ' ') := fun c hc => by
  rw [List.eq_of_mem_replicate hc]
  rfl

theorem blank_shown_taken (stretch : List Char) : Blank (taken stretch).shown :=
  blank_replicate stretch.length

/-! ### where the mask can be parted -/

section

variable {f : List Char → List Char}

/-- A character that is shown and is no blank is one of the segments, if blanks stand for what is taken. -/
theorem exists_kept_of_display (hf : ∀ stretch, Blank (f stretch)) {c : Char} {before after : List Char}
    (hc : isBlank c = false) (h : display f m = before ++ c :: after) :
    ∃ m₁ m₂, m = m₁ ++ kept c :: m₂ ∧ display f m₁ = before ∧ display f m₂ = after := by
  induction m generalizing before with
  | nil => exact absurd h.symm (by simp)
  | cons s m ih =>
    cases s with
    | kept d =>
      cases before with
      | nil =>
        obtain ⟨rfl, he⟩ : d = c ∧ display f m = after := List.cons.inj h
        exact ⟨[], m, rfl, rfl, he⟩
      | cons b before =>
        obtain ⟨rfl, he⟩ : d = b ∧ display f m = before ++ c :: after := List.cons.inj h
        obtain ⟨m₁, m₂, rfl, rfl, rfl⟩ := ih he
        exact ⟨kept d :: m₁, m₂, rfl, rfl, rfl⟩
    | taken stretch =>
      obtain ⟨inner, rfl, he⟩ := Pattern.blank_before (hf stretch) hc h
      obtain ⟨m₁, m₂, rfl, rfl, rfl⟩ := ih he
      exact ⟨taken stretch :: m₁, m₂, rfl, rfl, rfl⟩

/-- A stretch that is shown, and ends with a character that is no blank, is shown by some of the segments. -/
theorem exists_front_of_display (hf : ∀ stretch, Blank (f stretch)) {c : Char} {word after : List Char}
    (hc : isBlank c = false) (h : display f m = word ++ [c] ++ after) :
    ∃ m₁ m₂, m = (m₁ ++ [kept c]) ++ m₂ ∧ display f (m₁ ++ [kept c]) = word ++ [c] ∧ display f m₂ = after := by
  obtain ⟨m₁, m₂, rfl, rfl, rfl⟩ := exists_kept_of_display hf hc (h.trans (List.append_assoc ..))
  exact ⟨m₁, m₂, by simp, by simp [Segment.display], rfl⟩

end

theorem exists_kept {c : Char} {before after : List Char} (hc : isBlank c = false)
    (h : shown m = before ++ c :: after) :
    ∃ m₁ m₂, m = m₁ ++ kept c :: m₂ ∧ shown m₁ = before ∧ shown m₂ = after := by
  rw [shown_eq_display] at h ⊢
  exact exists_kept_of_display (fun _ => blank_replicate _) hc h

theorem exists_front {c : Char} {word after : List Char} (hc : isBlank c = false)
    (h : shown m = word ++ [c] ++ after) :
    ∃ m₁ m₂, m = (m₁ ++ [kept c]) ++ m₂ ∧ shown (m₁ ++ [kept c]) = word ++ [c] ∧ shown m₂ = after := by
  rw [shown_eq_display] at h ⊢
  exact exists_front_of_display (fun _ => blank_replicate _) hc h

/-! ### masks that fit -/

/-- Some phrase of those that are meant is found in the text. -/
def Names (P : List Char → Prop) (text : List Char) : Prop :=
  ∃ phrase, P phrase ∧ (Pattern.phrase phrase).foundIn text = true

/-- Each taken stretch has a phrase in it, and no word characters stand beside it. -/
structure Fits (P : List Char → Prop) (m : Mask) : Prop where
  beside : m.IsChain Beside
  named : ∀ stretch, taken stretch ∈ m → Names P stretch

theorem fits_clear (P : List Char → Prop) (text : List Char) : Fits P (clear text) := by
  refine ⟨?_, fun stretch h => absurd h (not_taken_clear text stretch)⟩
  induction text with
  | nil => exact .nil
  | cons c text ih =>
    refine List.isChain_cons.mpr ⟨fun s hs => ?_, ih⟩
    obtain ⟨d, -, rfl⟩ := List.mem_map.mp (List.mem_of_head? hs)
    trivial

theorem Fits.mono {Q : List Char → Prop} (h : Fits P m) (hmono : ∀ phrase, P phrase → Q phrase) : Fits Q m :=
  ⟨h.beside, fun stretch hs => (h.named stretch hs).imp fun phrase hp => ⟨hmono phrase hp.1, hp.2⟩⟩

theorem Fits.part {n : Mask} (h : Fits P m) (hn : n <:+: m) : Fits P n where
  beside := List.IsChain.infix h.beside hn
  named stretch hs := h.named stretch (hn.mem hs)

/-- What stands before a taken stretch ends with no word character. -/
theorem last_of_beside {stretch : List Char} (h : (m ++ [taken stretch]).IsChain Beside) :
    isWord? (text m).getLast? = false := by
  obtain rfl | ⟨n, s, rfl⟩ := List.eq_nil_or_concat' m
  · rfl
  · have hbeside := (List.isChain_append.mp h).2.2 s (by simp) _ rfl
    cases s with
    | kept c =>
      rw [text_append, text_cons, text_nil, List.append_nil, Segment.text, List.getLast?_concat]
      exact hbeside
    | taken other => cases hbeside

theorem head_of_beside {stretch : List Char} (h : (taken stretch :: m).IsChain Beside) :
    isWord? (text m).head? = false := by
  cases m with
  | nil => rfl
  | cons s m =>
    have hbeside := (List.isChain_cons.mp h).1 s rfl
    cases s with
    | kept c => exact hbeside
    | taken other => cases hbeside

/-- A phrase in a taken stretch is found in the text. -/
theorem foundIn_text {stretch : List Char} (hm : m.IsChain Beside) (hs : taken stretch ∈ m)
    (h : (Pattern.phrase phrase).foundIn stretch = true) : (Pattern.phrase phrase).foundIn (text m) = true := by
  obtain ⟨m₁, m₂, rfl⟩ := List.append_of_mem hs
  obtain ⟨before, row, after, rfl, hlaid, hbefore, hafter⟩ := (Pattern.foundIn_phrase_iff _).mp h
  have hsplit := List.isChain_split.mp hm
  refine (Pattern.foundIn_phrase_iff _).mpr ⟨text m₁ ++ before, row, after ++ text m₂, ?_, hlaid,
    isWord?_getLast?_append (last_of_beside hsplit.1) hbefore,
    isWord?_head?_append hafter (head_of_beside hsplit.2)⟩
  simp [Segment.text]

theorem Fits.names_text {stretch : List Char} (h : Fits P m) (hs : taken stretch ∈ m) : Names P (text m) :=
  (h.named stretch hs).imp fun _ hp => ⟨hp.1, foundIn_text h.beside hs hp.2⟩

/-- Beside a word character that is kept nothing has been taken out. -/
theorem getLast?_display (f : List Char → List Char) {c : Char} (h : (m ++ [kept c]).IsChain Beside)
    (hc : isWord c = true) : (text m).getLast? = (display f m).getLast? := by
  obtain rfl | ⟨n, s, rfl⟩ := List.eq_nil_or_concat' m
  · rfl
  · have hbeside := (List.isChain_append.mp h).2.2 s (by simp) _ rfl
    cases s with
    | kept d => simp [Segment.text, Segment.display]
    | taken stretch => cases hc.symm.trans hbeside

theorem head?_display (f : List Char → List Char) {c : Char} (h : (kept c :: m).IsChain Beside)
    (hc : isWord c = true) : (text m).head? = (display f m).head? := by
  cases m with
  | nil => rfl
  | cons s m =>
    have hbeside := (List.isChain_cons.mp h).1 s rfl
    cases s with
    | kept d => rfl
    | taken stretch => cases hc.symm.trans hbeside

theorem getLast?_text {c : Char} (h : (m ++ [kept c]).IsChain Beside) (hc : isWord c = true) :
    (text m).getLast? = (shown m).getLast? := by
  rw [shown_eq_display]
  exact getLast?_display _ h hc

theorem head?_text {c : Char} (h : (kept c :: m).IsChain Beside) (hc : isWord c = true) :
    (text m).head? = (shown m).head? := by
  rw [shown_eq_display]
  exact head?_display _ h hc

/-! ### taking out phrases -/

/-- The segments in which a phrase is shown have a phrase in them. -/
theorem names_of_shown (hm : Fits P m) (hp : P phrase) (h : Laid IsGap (words phrase) (shown m)) :
    Names P (text m) := by
  by_cases htaken : ∃ stretch, taken stretch ∈ m
  · obtain ⟨stretch, hs⟩ := htaken
    exact hm.names_text hs
  · rw [text_eq_shown fun stretch hs => htaken ⟨stretch, hs⟩]
    exact ⟨phrase, hp, (Pattern.foundIn_phrase_iff _).mpr ⟨[], shown m, [], by simp, h, rfl, rfl⟩⟩

/-- Segments can be taken out together if they begin and end with word characters, and none touches them. -/
theorem beside_take {m₁ mw m₂ : Mask} {c d : Char} (h : (m₁ ++ mw ++ m₂).IsChain Beside)
    (hc : mw.head? = some (kept c)) (hcword : isWord c = true) (hd : mw.getLast? = some (kept d))
    (hdword : isWord d = true) (hbefore : ∀ b, m₁.getLast? = some (kept b) → isWord b = false)
    (hafter : ∀ a, m₂.head? = some (kept a) → isWord a = false) (stretch : List Char) :
    (m₁ ++ taken stretch :: m₂).IsChain Beside := by
  obtain ⟨hfront, hback, hlast⟩ := List.isChain_append.mp h
  obtain ⟨hchain, -, hfirst⟩ := List.isChain_append.mp hfront
  refine List.isChain_append.mpr ⟨hchain, List.isChain_cons.mpr ⟨fun s hs => ?_, hback⟩, fun s hs t ht => ?_⟩
  · have hbeside : (kept d).Beside s := by
      refine hlast _ ?_ s hs
      rw [List.getLast?_append, hd]
      rfl
    cases s with
    | kept a => exact hafter a hs
    | taken other => cases hdword.symm.trans hbeside
  · obtain rfl := Option.some.inj ht
    have hbeside : s.Beside (kept c) := hfirst s hs _ hc
    cases s with
    | kept b => exact hbefore b hs
    | taken other => cases hcword.symm.trans hbeside

/-- The segments in which a phrase is shown can be taken out, if no word character touches them. -/
theorem fits_take {m₁ mw m₂ : Mask} {c d : Char} (hp : P phrase) (h : Fits P (m₁ ++ mw ++ m₂))
    (hlaid : Laid IsGap (words phrase) (shown mw)) (hc : mw.head? = some (kept c)) (hcword : isWord c = true)
    (hd : mw.getLast? = some (kept d)) (hdword : isWord d = true)
    (hbefore : ∀ b, m₁.getLast? = some (kept b) → isWord b = false) (hafter : isWord? (shown m₂).head? = false) :
    Fits P (m₁ ++ taken (text mw) :: m₂) := by
  have hnames : Names P (text mw) := names_of_shown (h.part ⟨m₁, m₂, rfl⟩) hp hlaid
  refine ⟨beside_take h.beside hc hcword hd hdword hbefore (fun a ha => ?_) _, fun stretch hs => ?_⟩
  · obtain ⟨m₃, rfl⟩ := List.head?_eq_some_iff.mp ha
    exact hafter
  · rcases List.mem_append.mp hs with hs | hs
    · exact h.named stretch (by simp [hs])
    rcases List.mem_cons.mp hs with he | hs
    · exact Segment.taken.inj he ▸ hnames
    · exact h.named stretch (by simp [hs])

section

variable (hws : Lettered (words phrase))
include hws

/-- Blanks are passed. -/
theorem replaceFrom_blanks {front : List Char} (hfront : Blank front) (before rest : List Char) :
    (Pattern.phrase phrase).replaceFrom spaces 0 before (front ++ rest) =
      front ++ (Pattern.phrase phrase).replaceFrom spaces 0 (front.reverse ++ before) rest := by
  induction front generalizing before with
  | nil => rfl
  | cons c front ih =>
    rcases Pattern.replaceFrom_phrase spaces (fun _ h => h.ne_nil hws) before c (front ++ rest) with
      he | ⟨stretch, after, -, hstretch, hlaid, -⟩
    · rw [List.cons_append, he, ih (fun d hd => hfront d (List.mem_cons_of_mem _ hd))]
      simp
    · -- a phrase does not begin with a blank
      obtain ⟨⟨d, inner, rfl, hd⟩, -⟩ := hlaid.ends hws
      obtain ⟨rfl, -⟩ := List.cons.inj hstretch
      cases hd.symm.trans (isWord_blank (hfront c (List.mem_cons_self ..)))

/-- What is shown when a phrase has been replaced is shown by a mask that takes it out. -/
theorem fits_replaceFrom (hp : P phrase) (m₁ m : Mask) (before : List Char) (hm : Fits P (m₁ ++ m))
    (hbefore : ∀ c, m₁.getLast? = some (kept c) → before.head? = some c) :
    ∃ m', text m' = text m ∧
      shown m' = (Pattern.phrase phrase).replaceFrom spaces 0 before (shown m) ∧ Fits P (m₁ ++ m') := by
  -- a segment is passed, or some segments are taken out together
  induction hlength : m.length using Nat.strongRecOn generalizing m m₁ before with
  | ind n ih =>
    cases m with
    | nil => exact ⟨[], rfl, (Pattern.replaceFrom_phrase_nil _ (fun _ h => h.ne_nil hws) _).symm, hm⟩
    | cons s m =>
      have hnext := ih m.length (by rw [← hlength]; exact Nat.lt_succ_self _)
      cases s with
      | taken stretch =>
        obtain ⟨m', htext, hshown, hfits⟩ := hnext (m₁ ++ [taken stretch]) m
          ((taken stretch).shown.reverse ++ before) (by simpa using hm) (by simp) rfl
        refine ⟨taken stretch :: m', congrArg (stretch ++ ·) htext, ?_, by simpa using hfits⟩
        rw [shown_cons, shown_cons, hshown, replaceFrom_blanks hws (blank_shown_taken stretch)]
      | kept c =>
        rcases Pattern.replaceFrom_phrase spaces (fun _ h => h.ne_nil hws) before c (shown m) with
          he | ⟨stretch, rest, found, hstretch, hlaid, hfirst, hlast, hsize, he⟩
        · obtain ⟨m', htext, hshown, hfits⟩ := hnext (m₁ ++ [kept c]) m (c :: before) (by simpa using hm)
            (by simp) rfl
          refine ⟨kept c :: m', congrArg (c :: ·) htext, ?_, by simpa using hfits⟩
          exact (congrArg (c :: ·) hshown).trans he.symm
        · obtain ⟨⟨c', inner, hinner, hcword⟩, front, d, rfl, hdword⟩ := hlaid.ends hws
          obtain rfl : c = c' := (List.cons.inj (hstretch.trans (congrArg (· ++ rest) hinner))).1
          obtain ⟨n₁, m₂, hparts, hword, rfl⟩ :=
            exists_front (m := kept c :: m) (not_blank_of_isWord hdword) hstretch
          have hhead : (n₁ ++ [kept d]).head? = some (kept c) := by
            have hsame : (n₁ ++ [kept d] ++ m₂).head? = (n₁ ++ [kept d]).head? :=
              List.head?_append_of_ne_nil _ (by simp)
            rw [← hsame, ← hparts]
            rfl
          rw [hparts] at hm hlength ⊢
          rw [← List.append_assoc] at hm
          generalize hmw : n₁ ++ [kept d] = mw at *
          have htaken : Fits P (m₁ ++ taken (text mw) :: m₂) := by
            refine fits_take hp hm (hword ▸ hlaid) hhead hcword (by simp [← hmw]) hdword (fun b hb => ?_) hlast
            rw [hbefore b hb] at hfirst
            exact hfirst
          obtain ⟨m', htext, hshown, hfits⟩ := ih m₂.length (by rw [← hlength, ← hmw]; simp; omega)
            (m₁ ++ [taken (text mw)]) m₂ ((front ++ [d]).reverse ++ before) (by simpa using htaken) (by simp) rfl
          refine ⟨taken (text mw) :: m', ?_, ?_, by simpa using hfits⟩
          · rw [text_cons, text_append, htext]
            rfl
          · have hspaces : spaces found = (taken (text mw)).shown := by
              unfold Scan.spaces
              rw [hsize, ← hword, ← length_text]
              rfl
            rw [shown_cons, hshown, ← hspaces, ← he, ← hparts]
            rfl

/-- What is shown when a phrase has been blanked out is shown by a mask that fits. -/
theorem fits_replaceAll (hp : P phrase) (hm : Fits P m) : ∃ m', text m' = text m ∧
    shown m' = (Pattern.phrase phrase).replaceAll spaces (shown m) ∧ Fits P m' :=
  fits_replaceFrom hws hp [] m [] hm nofun

end

/-! ### phrases that are shown -/

/-- Blanks, or a stretch with one of the phrases in it that are meant. -/
def Parted (P : List Char → Prop) (between : List Char) : Prop :=
  IsGap between ∨ Names P between

/-- Where no blank is shown nothing is taken out but what is shown itself. -/
theorem text_of_solid_display {f : List Char → List Char} (hf : ∀ stretch, f stretch = stretch ∨ ' ' ∈ f stretch)
    (h : ∀ c ∈ display f m, isBlank c = false) : text m = display f m := by
  induction m with
  | nil => rfl
  | cons s m ih =>
    have hrest := ih fun c hc => h c (by simp [hc])
    cases s with
    | kept c => exact congrArg (c :: ·) hrest
    | taken stretch =>
      rcases hf stretch with hsame | hspace
      · rw [text_cons, display_cons, hrest]
        exact congrArg (· ++ _) hsame.symm
      · cases h ' ' (List.mem_append_left _ hspace)

theorem text_of_solid (h : ∀ c ∈ shown m, isBlank c = false) : text m = shown m := by
  rw [shown_eq_display] at h ⊢
  refine text_of_solid_display (fun stretch => ?_) h
  cases stretch with
  | nil => exact .inl rfl
  | cons c stretch => exact .inr (by simp [List.replicate_succ])

/-- Words that are shown with blanks between them stand in the text, parted. -/
theorem laid_text (hm : Fits P m) (hws : ∀ w ∈ ws, w ≠ [] ∧ ∀ c ∈ w, isBlank (foldCase c) = false)
    (h : Laid IsGap ws (shown m)) : Laid (Parted P) ws (text m) := by
  generalize hshown : shown m = stretch at h
  induction h generalizing m with
  | none =>
    have htext : text m = [] := List.eq_nil_of_length_eq_zero (by rw [length_text, hshown]; rfl)
    rw [htext]
    exact .none
  | @last w word h =>
    have hsolid := (solid_of_same (hws w (List.mem_cons_self ..)) h).2
    rw [text_of_solid (hshown ▸ hsolid), hshown]
    exact .last h
  | @more w v word between rest ws h hgap hrest ih =>
    obtain ⟨hne, hsolid⟩ := solid_of_same (hws w (List.mem_cons_self ..)) h
    have hws := fun u hu => hws u (List.mem_cons_of_mem w hu)
    obtain ⟨c, inner, rfl, hc⟩ := hrest.exists_first (hws v (List.mem_cons_self ..))
    obtain ⟨front, d, rfl⟩ := (List.eq_nil_or_concat' word).resolve_left hne
    -- the word, what stands between, and the other words are shown by segments of their own
    obtain ⟨m₁, m₂, rfl, hword, hback⟩ := exists_front (hsolid d (by simp)) (hshown.trans (List.append_assoc ..))
    obtain ⟨g, k, rfl, rfl, hk⟩ := exists_kept hc hback
    have hfits := fun {n : Mask} (hn : n <:+: m₁ ++ [kept d] ++ (g ++ kept c :: k)) => hm.part hn
    have htext : text (m₁ ++ [kept d]) = front ++ [d] := (text_of_solid (hword ▸ hsolid)).trans hword
    rw [text_append, htext, text_append, ← List.append_assoc]
    refine .more h ?_ (ih (hfits ⟨m₁ ++ [kept d] ++ g, [], by simp⟩) hws (congrArg (c :: ·) hk))
    by_cases htaken : ∃ stretch, taken stretch ∈ g
    · obtain ⟨stretch, hs⟩ := htaken
      exact .inr ((hfits ⟨m₁ ++ [kept d], kept c :: k, by simp⟩).names_text hs)
    · rw [text_eq_shown fun stretch hs => htaken ⟨stretch, hs⟩]
      exact .inl hgap

/-- **The words of a phrase that is shown stand in the text**, and no word character touches them. -/
theorem Fits.spread (hm : Fits P m) (hws : Lettered ws) (h : Spread IsGap ws (shown m)) :
    Spread (Parted P) ws (text m) := by
  obtain ⟨before, stretch, after, hshown, hlaid, hbefore, hafter⟩ := h
  obtain ⟨⟨c, inner, rfl, hc⟩, front, d, hlast, hd⟩ := hlaid.ends hws
  rw [hlast, ← List.append_assoc] at hshown
  obtain ⟨n, m₂, rfl, hn, rfl⟩ := exists_front (not_blank_of_isWord hd) hshown
  rw [List.append_assoc, ← hlast] at hn
  obtain ⟨m₁, k, hparts, rfl, hk⟩ := exists_kept (not_blank_of_isWord hc) hn
  rw [hparts] at hm ⊢
  refine ⟨text m₁, text (kept c :: k), text m₂, by simp, ?_, ?_, ?_⟩
  · exact laid_text (hm.part ⟨m₁, m₂, rfl⟩) hws.solid (by rw [shown_cons, hk]; exact hlaid)
  · rw [getLast?_text (hm.part ⟨[], k ++ m₂, by simp⟩).beside hc]
    exact hbefore
  · rw [head?_text (hm.part ⟨n, [], by rw [← hparts]; simp⟩).beside hd]
    exact hafter

end Mask

end Outfitter.Taxonomy
