import Outfitter.Proofs.Message.Numbers
import Outfitter.Proofs.Taxonomy.Mask

/-!
Which letters of a message are sizes.

The rules for letter sizes are tried one after the other, each in a text in which all that those before it have read
is one space. A `Mask` tells which stretches these are: each of them names an earlier size wherever it stands
(`exists_mask`). So a plain size is read where its word stands in the message, where the message is its letter, or
where the letter stands behind the word size with blanks between them, or with a stretch in which an earlier size is
read (`said_of_sizes`): "size xs s" is small, too.
-/

namespace Outfitter.Message

open Text Taxonomy Taxonomy.Mask Taxonomy.Segment

/-! ### rules in turn -/

/-- What is left of a text when some rules have been tried. -/
def leftBy (rules : List SizeRule) (text : List Char) : List Char :=
  (rules.foldl SizeScan.look ⟨[], text⟩).remaining

theorem foldl_look_keeps {rules : List SizeRule} {s : SizeScan} {size : String} (h : size ∈ s.found) :
    size ∈ (rules.foldl SizeScan.look s).found := by
  induction rules generalizing s with
  | nil => exact h
  | cons rule rules ih =>
    refine ih ?_
    unfold SizeScan.look
    split
    · exact List.mem_append_left _ h
    · exact h

/-- A size is found if its rule finds something in what those before it have left. -/
theorem mem_letterSizes_iff {before after : List SizeRule} {rule : SizeRule}
    (hrules : sizeRules = before ++ rule :: after) (text : List Char) :
    rule.size ∈ letterSizes text ↔ rule.pattern.foundIn (leftBy before text) = true := by
  have hnodup : (sizeRules.map SizeRule.size).Nodup := by decide
  rw [hrules, List.map_append, List.map_cons] at hnodup
  obtain ⟨-, hcons, hapart⟩ := List.nodup_append.mp hnodup
  have hscan : letterSizes text =
      (after.foldl SizeScan.look ((before.foldl SizeScan.look ⟨[], text⟩).look rule)).found := by
    unfold letterSizes
    rw [hrules, List.foldl_append, List.foldl_cons]
  rw [hscan]
  unfold leftBy
  generalize hs : before.foldl SizeScan.look ⟨[], text⟩ = s
  constructor
  · intro h
    rcases foldl_look_found h with h | h
    · unfold SizeScan.look at h
      split at h
      · assumption
      · rw [← hs] at h
        have hbefore := (foldl_look_found h).resolve_left List.not_mem_nil
        exact absurd rfl (hapart _ hbefore _ (List.mem_cons_self ..))
    · exact absurd h (List.nodup_cons.mp hcons).1
  · intro h
    refine foldl_look_keeps ?_
    unfold SizeScan.look
    rw [if_pos h]
    simp

theorem leftBy_of_none {rules : List SizeRule} {text : List Char}
    (h : ∀ rule ∈ rules, rule.pattern.foundIn text = false) : leftBy rules text = text := by
  have hscan : rules.foldl SizeScan.look ⟨[], text⟩ = ⟨[], text⟩ := by
    induction rules with
    | nil => rfl
    | cons rule rules ih =>
      obtain ⟨hrule, hrules⟩ := List.forall_mem_cons.mp h
      have hsame : SizeScan.look ⟨[], text⟩ rule = ⟨[], text⟩ := if_neg (by simp [hrule])
      rw [List.foldl_cons, hsame, ih hrules]
  unfold leftBy
  rw [hscan]

/-- Where a rule finds something in the text itself, it or one before it reads a size. -/
theorem exists_size_of_found {rules after : List SizeRule} (hrules : sizeRules = rules ++ after) {text : List Char}
    {rule : SizeRule} (hmem : rule ∈ rules) (hfound : rule.pattern.foundIn text = true) :
    ∃ rule ∈ rules, rule.size ∈ letterSizes text := by
  -- the first one of those that do sees the text as it is
  obtain ⟨first, hfirst⟩ : ∃ first, rules.find? (fun rule => rule.pattern.foundIn text) = some first :=
    Option.isSome_iff_exists.mp (List.find?_isSome.mpr ⟨rule, hmem, hfound⟩)
  obtain ⟨hfinds, before, rest, rfl, hnone⟩ := List.find?_eq_some_iff_append.mp hfirst
  have hparts : sizeRules = before ++ first :: (rest ++ after) := by simp [hrules]
  refine ⟨first, by simp, (mem_letterSizes_iff hparts text).mpr ?_⟩
  rw [leftBy_of_none fun r hr => by simpa using hnone r hr]
  exact hfinds

/-! ### plain sizes -/

/-- A size with the word and the letter that name it. -/
structure Plain where
  size : String
  word : String
  letter : Char
  deriving DecidableEq

namespace Plain

def all : List Plain :=
  [⟨"S", "small", 's'⟩, ⟨"M", "medium", 'm'⟩, ⟨"L", "large", 'l'⟩]

def rule (p : Plain) : SizeRule :=
  ⟨p.size, plainSize p.word (String.singleton p.letter)⟩

/-- The rules that are tried before that of the size. -/
def earlier (p : Plain) : List SizeRule :=
  sizeRules.takeWhile fun rule => rule.size != p.size

theorem sizeRules_eq {p : Plain} (h : p ∈ all) : ∃ later, sizeRules = p.earlier ++ p.rule :: later := by
  simp only [all, List.mem_cons, List.not_mem_nil, or_false] at h
  rcases h with rfl | rfl | rfl
  · exact ⟨_, rfl⟩
  · exact ⟨_, rfl⟩
  · exact ⟨_, rfl⟩

/-- What the size is read from: its word stands in the text, or the text is its letter, or the letter stands behind
the word size with such a gap between them. -/
def Said (gap : List Char → Prop) (p : Plain) (text : List Char) : Prop :=
  Pattern.Stands p.word.toList text ∨ text = [p.letter] ∨
    ∃ between, gap between ∧ Pattern.Stands ("size".toList ++ between ++ [p.letter]) text

/-- Blanks, or a stretch in which a size is read that is looked for earlier. -/
def Parted (p : Plain) (between : List Char) : Prop :=
  IsGap between ∨ ∃ rule ∈ p.earlier, rule.size ∈ letterSizes between

/-- The word, or the word size and the letter. -/
def named (p : Plain) : Pattern :=
  Pattern.any [Pattern.exactly p.word,
    Pattern.all [Pattern.exactly "size", Pattern.blanks 1, Pattern.exactly (String.singleton p.letter)]]

end Plain

/-! ### whole words -/

/-- The text is one of the letters, perhaps with a line break behind it. -/
def Lone (text : List Char) : Prop :=
  ∃ p ∈ Plain.all, text = [p.letter] ∨ text = [p.letter, '\n']

/-- In a text that is more than a letter the pattern reads the words of another one that stand there. -/
structure Wordy (p words : Pattern) : Prop where
  blind : words.Blind
  worded : ∀ word, words.Spells word → Pattern.Worded word
  begins : p.Begins fun c => isWord c = true
  of_whole : ∀ a b, (Pattern.whole words).Reads a b → p.Reads a b
  whole : ∀ a b, p.Reads a b → (Pattern.whole words).Reads a b ∨ Lone a.text

/-- The words for an extra size. -/
def extraWords (size short shorter : String) : Pattern :=
  Pattern.any [extra size, Pattern.exactly short, Pattern.exactly shorter]

theorem begins_exactly_of_worded {text : String} (h : Pattern.Worded text.toList) :
    (Pattern.exactly text).Begins fun c => isWord c = true := by
  obtain ⟨c, hc, hword⟩ := h.first
  obtain ⟨rest, he⟩ := List.head?_eq_some_iff.mp hc
  exact Pattern.begins_exactly he hword

theorem wordy_extra (size short shorter : String) (hsize : Pattern.Worded size.toList)
    (hshort : Pattern.Worded short.toList) (hshorter : Pattern.Worded shorter.toList) :
    Wordy (Pattern.whole (extraWords size short shorter)) (extraWords size short shorter) where
  blind := by
    refine Pattern.blind_any fun p hp => ?_
    simp only [List.mem_cons, List.not_mem_nil, or_false] at hp
    rcases hp with rfl | rfl | rfl
    · exact ⟨trivial, Pattern.blind_optional trivial, Pattern.blind_exactly _⟩
    · exact Pattern.blind_exactly _
    · exact Pattern.blind_exactly _
  worded word hword := by
    obtain ⟨p, hp, hspells⟩ := (Pattern.spells_any word).mp hword
    simp only [List.mem_cons, List.not_mem_nil, or_false] at hp
    rcases hp with rfl | rfl | rfl
    · obtain ⟨u, _, ⟨hu, hleast, -⟩, ⟨v, w, -, hw, rfl⟩, rfl⟩ := hspells
      rw [(Pattern.spells_exactly ..).mp hw]
      have hx : Pattern.Worded u := by
        have hall : ∀ c ∈ u, isWord c = true := by
          intro c hc
          rw [beq_iff_eq.mp (hu c hc)]
          rfl
        have hne : u ≠ [] := List.length_pos_iff.mp hleast
        exact ⟨⟨_, List.head?_eq_some_head hne, hall _ (List.head_mem hne)⟩,
          _, List.getLast?_eq_some_getLast hne, hall _ (List.getLast_mem hne)⟩
      rw [← List.append_assoc]
      exact hx.append hsize v
    · rwa [(Pattern.spells_exactly ..).mp hspells]
    · rwa [(Pattern.spells_exactly ..).mp hspells]
  begins := by
    refine Pattern.begins_whole (Pattern.begins_any fun p hp => ?_)
    simp only [List.mem_cons, List.not_mem_nil, or_false] at hp
    rcases hp with rfl | rfl | rfl
    · refine .seq (Pattern.begins_run (fun c hc => ?_) (by decide) _) _
      rw [beq_iff_eq.mp hc]
      rfl
    · exact begins_exactly_of_worded hshort
    · exact begins_exactly_of_worded hshorter
  of_whole _ _ := id
  whole _ _ := .inl

namespace Plain

variable {p : Plain}

theorem worded_of_all (h : p ∈ all) : Pattern.Worded p.word.toList ∧ isWord p.letter = true := by
  have hall : ∀ p ∈ all, Pattern.Worded p.word.toList ∧ isWord p.letter = true := by decide
  exact hall p h

theorem spells_named (p : Plain) (word : List Char) : p.named.Spells word ↔
    word = p.word.toList ∨ ∃ between, IsGap between ∧ word = "size".toList ++ between ++ [p.letter] := by
  unfold named
  rw [Pattern.spells_any]
  constructor
  · rintro ⟨q, hq, hspells⟩
    simp only [List.mem_cons, List.not_mem_nil, or_false] at hq
    rcases hq with rfl | rfl
    · exact .inl ((Pattern.spells_exactly ..).mp hspells)
    · obtain ⟨u, _, hu, ⟨v, w, hv, hw, rfl⟩, rfl⟩ := hspells
      rw [(Pattern.spells_exactly ..).mp hu, (Pattern.spells_exactly ..).mp hw]
      exact .inr ⟨v, (Pattern.spells_blanks v).mp hv, by simp⟩
  · rintro (rfl | ⟨between, hgap, rfl⟩)
    · exact ⟨_, by simp, (Pattern.spells_exactly ..).mpr rfl⟩
    · refine ⟨_, List.mem_cons_of_mem _ (List.mem_singleton.mpr rfl), _, between ++ [p.letter],
        (Pattern.spells_exactly ..).mpr rfl, ⟨between, [p.letter], (Pattern.spells_blanks _).mpr hgap,
        (Pattern.spells_exactly ..).mpr (by simp), rfl⟩, by simp⟩

/-- The text is the letter. -/
def lone (p : Plain) : Pattern :=
  Pattern.all [Pattern.look Place.atStart, Pattern.exactly (String.singleton p.letter), Pattern.look Place.atEnd]

theorem reads_lone {a b : Place} :
    p.lone.Reads a b ↔ a.before = [] ∧ b = a.past [p.letter] b.after ∧
      (a.after = [p.letter] ∧ b.after = [] ∨ a.after = [p.letter, '\n'] ∧ b.after = ['\n']) := by
  constructor
  · rintro ⟨_, ⟨rfl, hstart⟩, _, hletter, rfl, hend⟩
    obtain ⟨rest, he, rfl⟩ := (Pattern.reads_exactly _).mp hletter
    refine ⟨List.isEmpty_iff.mp hstart, by simp [Place.past], ?_⟩
    simp only [Place.atEnd, Place.past, Bool.or_eq_true, List.isEmpty_iff, beq_iff_eq] at hend
    rcases hend with rfl | rfl
    · exact .inl ⟨by simpa using he, rfl⟩
    · exact .inr ⟨by simpa using he, rfl⟩
  · rintro ⟨hstart, hb, hend⟩
    refine ⟨a, ⟨rfl, List.isEmpty_iff.mpr hstart⟩, b, (Pattern.reads_exactly _).mpr ⟨b.after, ?_, ?_⟩, rfl, ?_⟩
    · rcases hend with ⟨ha, hb'⟩ | ⟨ha, hb'⟩ <;> simp [ha, hb']
    · simpa using hb
    · rcases hend with ⟨-, hb'⟩ | ⟨-, hb'⟩ <;> simp [Place.atEnd, hb']

theorem reads_rule {a b : Place} :
    p.rule.pattern.Reads a b ↔ (Pattern.whole p.named).Reads a b ∨ p.lone.Reads a b := by
  unfold rule plainSize named lone
  simp only [Pattern.reads_any, Pattern.reads_whole, List.mem_cons, List.not_mem_nil, or_false, exists_eq_or_imp,
    exists_eq_left]
  tauto

theorem wordy_rule (h : p ∈ all) : Wordy p.rule.pattern p.named where
  blind := by
    refine Pattern.blind_any fun q hq => ?_
    simp only [List.mem_cons, List.not_mem_nil, or_false] at hq
    rcases hq with rfl | rfl
    · exact Pattern.blind_exactly _
    · exact ⟨Pattern.blind_exactly _, trivial, Pattern.blind_exactly _⟩
  worded word hword := by
    obtain ⟨hw, hletter⟩ := worded_of_all h
    rcases (spells_named p word).mp hword with rfl | ⟨between, -, rfl⟩
    · exact hw
    · exact Pattern.Worded.append (by decide) ⟨⟨_, rfl, hletter⟩, _, rfl, hletter⟩ between
  begins := by
    obtain ⟨hw, hletter⟩ := worded_of_all h
    have hletter : Pattern.Worded (String.singleton p.letter).toList := by
      rw [String.toList_singleton]
      exact ⟨⟨_, rfl, hletter⟩, _, rfl, hletter⟩
    refine Pattern.begins_any fun q hq => ?_
    simp only [List.mem_cons, List.not_mem_nil, or_false] at hq
    rcases hq with rfl | rfl | rfl
    · exact Pattern.begins_whole (begins_exactly_of_worded hw)
    · exact .look_seq (.seq (begins_exactly_of_worded hletter) _) _
    · exact Pattern.begins_whole (.seq (begins_exactly_of_worded (by decide)) _)
  of_whole a b hreads := reads_rule.mpr (.inl hreads)
  whole a b hreads := by
    rcases reads_rule.mp hreads with hwhole | hlone
    · exact .inl hwhole
    · obtain ⟨hstart, -, hend⟩ := reads_lone.mp hlone
      refine .inr ⟨p, h, ?_⟩
      simp only [Place.text, hstart, List.reverse_nil, List.nil_append]
      exact hend.imp And.left And.left

end Plain

/-- **Every rule reads words** that stand in the text, unless the text is but a letter. -/
theorem exists_wordy : ∀ rule ∈ sizeRules, ∃ words, Wordy rule.pattern words := by
  intro rule hrule
  have hplain : ∀ p ∈ Plain.all, ∃ words, Wordy p.rule.pattern words := fun p hp => ⟨_, Plain.wordy_rule hp⟩
  simp only [sizeRules, List.mem_cons, List.not_mem_nil, or_false] at hrule
  rcases hrule with rfl | rfl | rfl | rfl | rfl
  · exact ⟨_, wordy_extra "small" "xxs" "xs" (by decide) (by decide) (by decide)⟩
  · exact ⟨_, wordy_extra "large" "xxl" "xl" (by decide) (by decide) (by decide)⟩
  · exact hplain ⟨"S", "small", 's'⟩ (by decide)
  · exact hplain ⟨"M", "medium", 'm'⟩ (by decide)
  · exact hplain ⟨"L", "large", 'l'⟩ (by decide)

/-! ### what is read and made one space -/

/-- Wherever the stretch stands, one of the rules finds something. -/
def NamesSize (rules : List SizeRule) (stretch : List Char) : Prop :=
  ∃ rule ∈ rules, ∀ text, Pattern.Stands stretch text → rule.pattern.foundIn text = true

theorem NamesSize.of_stands {rules : List SizeRule} {inner stretch : List Char} (h : NamesSize rules inner)
    (hinner : Pattern.Stands inner stretch) : NamesSize rules stretch := by
  obtain ⟨rule, hrule, hfound⟩ := h
  exact ⟨rule, hrule, fun text htext => hfound text (hinner.trans htext)⟩

/-- What is shown of a text if each taken stretch is one space. -/
abbrev thin (m : Mask) : List Char :=
  Mask.display (fun _ => [' ']) m

theorem blank_space : ∀ stretch : List Char, Blank ((fun _ => [' ']) stretch) := by
  intro _ c hc
  rw [List.mem_singleton.mp hc]
  rfl

theorem thin_eq_nil {m : Mask} (h : thin m = []) : m = [] := by
  cases m with
  | nil => rfl
  | cons s m => cases s <;> cases h

theorem solid_of_all {text : List Char} (h : text.all (fun c => !isBlank c) = true) :
    ∀ c ∈ text, isBlank c = false := by
  simpa using h

/-- Where no space is shown nothing has been taken. -/
theorem text_of_thin {m : Mask} (h : ∀ c ∈ thin m, isBlank c = false) : Mask.text m = thin m :=
  text_of_solid_display (fun _ => .inr (List.mem_singleton.mpr rfl)) h

/-- Each taken stretch names one of the sizes, and no word characters stand beside it. -/
structure Concealing (rules : List SizeRule) (m : Mask) : Prop where
  beside : m.IsChain Beside
  named : ∀ stretch, taken stretch ∈ m → NamesSize rules stretch

section

variable {rules : List SizeRule} {rule : SizeRule} {words : Pattern} {m m₁ m₂ mw : Mask}

theorem Concealing.part {n : Mask} (h : Concealing rules m) (hn : n <:+: m) : Concealing rules n where
  beside := List.IsChain.infix h.beside hn
  named stretch hs := h.named stretch (hn.mem hs)

theorem Concealing.mono {more : List SizeRule} (h : Concealing rules m) (hsub : ∀ rule ∈ rules, rule ∈ more) :
    Concealing more m :=
  ⟨h.beside, fun stretch hs => (h.named stretch hs).imp fun rule hr => ⟨hsub rule hr.1, hr.2⟩⟩

/-- A taken stretch stands in the text. -/
theorem stands_of_taken {stretch : List Char} (h : m.IsChain Beside) (hs : taken stretch ∈ m) :
    Pattern.Stands stretch (Mask.text m) := by
  obtain ⟨m₁, m₂, rfl⟩ := List.append_of_mem hs
  have hsplit := List.isChain_split.mp h
  exact ⟨Mask.text m₁, Mask.text m₂, by simp [Segment.text], last_of_beside hsplit.1, head_of_beside hsplit.2⟩

/-- Segments from which something has been taken name one of the sizes. -/
theorem Concealing.named_text {stretch : List Char} (h : Concealing rules m) (hs : taken stretch ∈ m) :
    NamesSize rules (Mask.text m) :=
  (h.named stretch hs).of_stands (stands_of_taken h.beside hs)

/-- Segments in which a word of a rule is shown name one of the sizes. -/
theorem named_of_word (h : Concealing rules m) (hrule : rule ∈ rules) (hwords : Wordy rule.pattern words)
    (hword : words.Spells (thin m)) : NamesSize rules (Mask.text m) := by
  by_cases htaken : ∃ stretch, taken stretch ∈ m
  · obtain ⟨stretch, hs⟩ := htaken
    exact h.named_text hs
  · rw [text_eq_display (fun _ => [' ']) fun stretch hs => htaken ⟨stretch, hs⟩]
    refine ⟨rule, hrule, fun text hstands => ?_⟩
    have hfound := (Pattern.foundIn_whole_iff_stands hwords.blind hwords.worded text).mpr ⟨_, hword, hstands⟩
    obtain ⟨a, ha, b, hreads⟩ := (Pattern.foundIn_iff _ _).mp hfound
    exact (Pattern.foundIn_iff _ _).mpr ⟨a, ha, b, hwords.of_whole a b hreads⟩

/-- A stretch that is shown, and begins and ends with word characters, is shown by segments of its own. -/
theorem exists_segments {word rest : List Char} (hword : Pattern.Worded word) (h : thin m = word ++ rest) :
    ∃ mw m₂ c d, m = mw ++ m₂ ∧ thin mw = word ∧ thin m₂ = rest ∧ mw.head? = some (kept c) ∧ isWord c = true ∧
      mw.getLast? = some (kept d) ∧ isWord d = true := by
  obtain ⟨d, hd, hdword⟩ := hword.last
  obtain ⟨front, rfl⟩ := List.getLast?_eq_some_iff.mp hd
  obtain ⟨c, hc, hcword⟩ := hword.first
  obtain ⟨n, m₂, rfl, hn, rfl⟩ := exists_front_of_display blank_space (not_blank_of_isWord hdword) h
  refine ⟨n ++ [kept d], m₂, c, d, rfl, hn, rfl, ?_, hcword, by simp, hdword⟩
  -- the first segment is shown as a word character
  rw [← hn] at hc
  cases n with
  | nil =>
    obtain rfl := Option.some.inj hc
    rfl
  | cons s n =>
    cases s with
    | kept e =>
      obtain rfl := Option.some.inj hc
      rfl
    | taken stretch =>
      obtain rfl := Option.some.inj hc
      cases hcword

/-- Segments in which a word of a rule is shown are taken out together. -/
theorem Concealing.take (h : Concealing rules (m₁ ++ mw ++ m₂)) (hrule : rule ∈ rules)
    (hwords : Wordy rule.pattern words) (hword : words.Spells (thin mw)) {c d : Char}
    (hc : mw.head? = some (kept c)) (hcword : isWord c = true) (hd : mw.getLast? = some (kept d))
    (hdword : isWord d = true) (hbefore : ∀ b, m₁.getLast? = some (kept b) → isWord b = false)
    (hafter : ∀ a, m₂.head? = some (kept a) → isWord a = false) :
    Concealing rules (m₁ ++ [taken (Mask.text mw)] ++ m₂) := by
  rw [List.append_assoc, List.singleton_append]
  refine ⟨beside_take h.beside hc hcword hd hdword hbefore hafter _, fun stretch hs => ?_⟩
  rcases List.mem_append.mp hs with hs | hs
  · exact h.named stretch (by simp [hs])
  rcases List.mem_cons.mp hs with he | hs
  · rw [Segment.taken.inj he]
    exact named_of_word (h.part ⟨m₁, m₂, rfl⟩) hrule hwords hword
  · exact h.named stretch (by simp [hs])

/-- **What a rule reads is taken out**, and each stretch taken of the text still names a size. -/
theorem exists_mask_of_sweeps (hrule : rule ∈ rules) (hwords : Wordy rule.pattern words) {before shown out : List Char}
    {found : List Pattern.Found} (h : rule.pattern.Sweeps (fun _ => [' ']) before shown found out)
    (hlone : ¬ Lone (before.reverse ++ shown)) (hshown : thin m = shown) (hm : Concealing rules (m₁ ++ m))
    (hbefore : ∀ c, m₁.getLast? = some (kept c) → before.head? = some c) :
    ∃ m', Mask.text m' = Mask.text m ∧ thin m' = out ∧ Concealing rules (m₁ ++ m') := by
  induction h generalizing m m₁ with
  | done =>
    rw [thin_eq_nil hshown] at hm ⊢
    exact ⟨[], rfl, rfl, hm⟩
  | @kept before rest out c found _ _ ih =>
    cases m with
    | nil => cases hshown
    | cons s m =>
      have hlone : ¬ Lone ((c :: before).reverse ++ rest) := by simpa using hlone
      have hm : Concealing rules (m₁ ++ [s] ++ m) := by simpa using hm
      have hnext := fun hrest : thin m = rest => ih hlone hrest hm
      cases s with
      | kept d =>
        obtain ⟨rfl, hrest⟩ : d = c ∧ thin m = rest := List.cons.inj hshown
        obtain ⟨m', htext, hthin, hfits⟩ := hnext hrest (by simp)
        exact ⟨Segment.kept d :: m', congrArg (d :: ·) htext, congrArg (d :: ·) hthin, by simpa using hfits⟩
      | taken stretch =>
        obtain ⟨rfl, hrest⟩ : ' ' = c ∧ thin m = rest := List.cons.inj hshown
        obtain ⟨m', htext, hthin, hfits⟩ := hnext hrest (by simp)
        exact ⟨Segment.taken stretch :: m', congrArg (stretch ++ ·) htext, congrArg (' ' :: ·) hthin,
          by simpa using hfits⟩
  | @taken before word rest out s found _ hread hfirst hlast _ ih =>
    obtain ⟨-, hreads⟩ := Pattern.reads_of_readAt hread
    have hwhole := (hwords.whole _ _ hreads).resolve_right hlone
    obtain ⟨word', rest', he, hspells, hleft, hright, hend⟩ :=
      (Pattern.reads_whole_iff hwords.blind hwords.worded).mp hwhole
    obtain ⟨rfl, rfl⟩ : word' = word ∧ rest' = rest := by
      rw [hlast] at hend
      have hrest : rest = rest' := congrArg Place.after hend
      exact ⟨List.append_cancel_right (hrest ▸ he).symm, hrest.symm⟩
    obtain ⟨mw, m₂, c, d, rfl, hthin, rfl, hc, hcword, hd, hdword⟩ := exists_segments (hwords.worded _ hspells) hshown
    rw [← List.append_assoc] at hm
    have htaken : Concealing rules (m₁ ++ [taken (Mask.text mw)] ++ m₂) := by
      refine hm.take hrule hwords (hthin ▸ hspells) hc hcword hd hdword (fun b hb => ?_) fun a ha => ?_
      · have hhead := hbefore b hb
        dsimp only at hleft
        rwa [hhead] at hleft
      · obtain ⟨m₃, rfl⟩ := List.head?_eq_some_iff.mp ha
        exact hright
    have hlone : ¬ Lone ((word'.reverse ++ before).reverse ++ thin m₂) := by simpa using hlone
    obtain ⟨m', htext, hout, hfits⟩ := ih hlone rfl htaken (by simp)
    exact ⟨taken (Mask.text mw) :: m', by simp [Segment.text, htext], congrArg (' ' :: ·) hout, by simpa using hfits⟩

end

/-! ### what is left of a text -/

/-- A text that is shown as a letter is that letter. -/
theorem lone_of_thin {m : Mask} (h : Lone (thin m)) : Lone (Mask.text m) := by
  have htaken : ∀ stretch, taken stretch ∉ m := by
    intro stretch hs
    have hspace : ' ' ∈ thin m := List.mem_flatMap.mpr ⟨_, hs, List.mem_singleton.mpr rfl⟩
    have hletters : ∀ p ∈ Plain.all, ' ' ∉ [p.letter, '\n'] := by decide
    obtain ⟨p, hp, he | he⟩ := h
    · rw [he] at hspace
      exact hletters p hp (by simp_all)
    · rw [he] at hspace
      exact hletters p hp hspace
  rwa [text_eq_display _ htaken]

/-- **What some rules leave of a text** is shown by a mask in which each taken stretch names one of their sizes. -/
theorem exists_mask {rules : List SizeRule} (hrules : ∀ rule ∈ rules, rule ∈ sizeRules) {text : List Char}
    (hlone : ¬ Lone text) : ∃ m, Mask.text m = text ∧ thin m = leftBy rules text ∧ Concealing rules m := by
  -- rule by rule, in their order
  induction rules using List.reverseRecOn with
  | nil =>
    refine ⟨clear text, text_clear text, ?_, (fits_clear (fun _ => False) text).beside, fun stretch hs => ?_⟩
    · exact (text_eq_display _ (not_taken_clear text)).symm.trans (text_clear text)
    · exact absurd hs (not_taken_clear text stretch)
  | append_singleton rules rule ih =>
    obtain ⟨m, rfl, hthin, hm⟩ := ih fun r hr => hrules r (List.mem_append_left _ hr)
    have hm : Concealing (rules ++ [rule]) m := hm.mono fun r hr => List.mem_append_left _ hr
    have hleft : leftBy (rules ++ [rule]) (Mask.text m) = if rule.pattern.foundIn (thin m) then
        rule.pattern.replaceAll (fun _ => [' ']) (thin m) else thin m := by
      rw [hthin]
      unfold leftBy
      rw [List.foldl_append, List.foldl_cons, List.foldl_nil, SizeScan.look]
      split <;> rfl
    rw [hleft]
    split
    · obtain ⟨words, hwords⟩ := exists_wordy rule (hrules rule (by simp))
      have hsweeps := Pattern.sweeps_searchAll hwords.begins.consumes (fun _ => [' ']) (thin m)
      have hmem : rule ∈ rules ++ [rule] := by simp
      have hm : Concealing (rules ++ [rule]) ([] ++ m) := hm
      exact exists_mask_of_sweeps hmem hwords hsweeps (fun h => hlone (lone_of_thin h)) rfl hm nofun
    · exact ⟨m, rfl, rfl, hm⟩

/-- A word that is shown stands in the text, with what has been taken inside it. -/
theorem exists_stands {word : List Char} {m : Mask} (hword : Pattern.Worded word) (hbeside : m.IsChain Beside)
    (h : Pattern.Stands word (thin m)) :
    ∃ mw, mw <:+: m ∧ thin mw = word ∧ Pattern.Stands (Mask.text mw) (Mask.text m) := by
  obtain ⟨before, after, hshown, hbefore, hafter⟩ := h
  -- the segments before the word end where its first character is kept
  obtain ⟨c, hc, hcword⟩ := hword.first
  obtain ⟨rest, rfl⟩ := List.head?_eq_some_iff.mp hc
  rw [List.append_assoc] at hshown
  obtain ⟨m₁, n, rfl, rfl, hn⟩ := exists_kept_of_display blank_space (not_blank_of_isWord hcword) hshown
  have hrest : thin (kept c :: n) = c :: rest ++ after := congrArg (c :: ·) hn
  obtain ⟨mw, m₂, _, d, hparts, hthin, rfl, hc', -, hd, hdword⟩ := exists_segments hword hrest
  rw [hparts] at hbeside ⊢
  obtain ⟨inner, rfl⟩ := List.head?_eq_some_iff.mp hc'
  obtain ⟨front, hfront⟩ := List.getLast?_eq_some_iff.mp hd
  refine ⟨_, ⟨m₁, m₂, by simp⟩, hthin, Mask.text m₁, Mask.text m₂, by simp, ?_, ?_⟩
  · have hfirst := (List.cons.inj hparts).1
    rw [← hfirst] at hbeside
    have hends : (m₁ ++ [kept c]).IsChain Beside := List.IsChain.infix hbeside ⟨[], inner ++ m₂, by simp⟩
    rw [getLast?_display (fun _ => [' ']) hends hcword]
    exact hbefore
  · rw [hfront] at hbeside
    have hbegins : (kept d :: m₂).IsChain Beside := List.IsChain.infix hbeside ⟨m₁ ++ front, [], by simp⟩
    rw [head?_display (fun _ => [' ']) hbegins hdword]
    exact hafter

namespace Plain

variable {p : Plain} {text : List Char}

/-- Between the word size and a letter that are shown there are blanks in the text, or an earlier size. -/
theorem parted_of_blank (h : p ∈ all) {m : Mask} (hm : Concealing p.earlier m) (hgap : IsGap (thin m)) :
    p.Parted (Mask.text m) := by
  by_cases htaken : ∃ stretch, taken stretch ∈ m
  · obtain ⟨stretch, hs⟩ := htaken
    obtain ⟨rule, hrule, hfound⟩ := hm.named_text hs
    obtain ⟨later, hrules⟩ := sizeRules_eq h
    exact .inr (exists_size_of_found hrules hrule (hfound _ ⟨[], [], by simp, rfl, rfl⟩))
  · rw [text_eq_display _ fun stretch hs => htaken ⟨stretch, hs⟩]
    exact .inl hgap

/-- **What is shown of a text says no more than the text.** -/
theorem said_of_shown (h : p ∈ all) {m : Mask} (hm : Concealing p.earlier m) {word : List Char}
    (hword : p.named.Spells word) (hstands : Pattern.Stands word (thin m)) : p.Said p.Parted (Mask.text m) := by
  obtain ⟨mw, hinfix, rfl, hinto⟩ := exists_stands ((wordy_rule h).worded word hword) hm.beside hstands
  rcases (spells_named p _).mp hword with hthin | ⟨between, hgap, hthin⟩
  · have hsolid : ∀ p ∈ all, p.word.toList.all (fun c => !isBlank c) = true := by decide
    rw [text_of_thin (hthin ▸ solid_of_all (hsolid p h)), hthin] at hinto
    exact .inl hinto
  · -- the word size, what stands between, and the letter are shown by segments of their own
    have hsize : thin mw = "siz".toList ++ ['e'] ++ (between ++ [p.letter]) := by
      rw [hthin, List.append_assoc]
      rfl
    have hletter := not_blank_of_isWord (worded_of_all h).2
    obtain ⟨m₁, m₂, rfl, hm₁, hm₂⟩ := exists_front_of_display blank_space (by decide) hsize
    obtain ⟨g, k, rfl, rfl, hk⟩ := exists_kept_of_display blank_space hletter hm₂
    obtain rfl := thin_eq_nil hk
    have htext : Mask.text (m₁ ++ [kept 'e']) = "size".toList := by
      have hsolid : ∀ c ∈ "siz".toList ++ ['e'], isBlank c = false := solid_of_all (by decide)
      exact (text_of_thin fun c hc => hsolid c (hm₁ ▸ hc)).trans hm₁
    have hg : Concealing p.earlier g := (hm.part hinfix).part ⟨m₁ ++ [kept 'e'], [kept p.letter], by simp⟩
    refine .inr (.inr ⟨Mask.text g, parted_of_blank h hg hgap, ?_⟩)
    rw [text_append, htext, text_append] at hinto
    simpa [Segment.text] using hinto

theorem foundIn_lone (htext : Trimmed text) : p.lone.foundIn text = true ↔ text = [p.letter] := by
  rw [Pattern.foundIn_iff]
  constructor
  · rintro ⟨a, rfl, b, hreads⟩
    obtain ⟨hstart, -, ⟨ha, -⟩ | ⟨ha, -⟩⟩ := reads_lone.mp hreads
    · simp [Place.text, hstart, ha]
    · -- a trimmed text does not end with a line break
      have hlast := htext.last '\n' (by simp [Place.text, hstart, ha])
      cases hlast
  · rintro rfl
    exact ⟨⟨[], [p.letter]⟩, rfl, ⟨[p.letter], []⟩, reads_lone.mpr ⟨rfl, rfl, .inl ⟨rfl, rfl⟩⟩⟩

theorem foundIn_rule (p : Plain) (text : List Char) : p.rule.pattern.foundIn text = true ↔
    (Pattern.whole p.named).foundIn text = true ∨ p.lone.foundIn text = true := by
  simp only [Pattern.foundIn_iff, reads_rule, exists_or, and_or_left]

/-- In a text as it is a plain size is found where it is said. -/
theorem foundIn_rule_iff (h : p ∈ all) (htext : Trimmed text) :
    p.rule.pattern.foundIn text = true ↔ p.Said IsGap text := by
  have hwords := wordy_rule h
  rw [foundIn_rule, foundIn_lone htext, Pattern.foundIn_whole_iff_stands hwords.blind hwords.worded]
  simp only [spells_named, or_and_right, exists_or, exists_eq_left]
  unfold Said
  constructor
  · rintro ((hword | ⟨_, ⟨between, hgap, rfl⟩, hstands⟩) | hletter)
    · exact .inl hword
    · exact .inr (.inr ⟨between, hgap, hstands⟩)
    · exact .inr (.inl hletter)
  · rintro (hword | hletter | ⟨between, hgap, hstands⟩)
    · exact .inl (.inl hword)
    · exact .inr hletter
    · exact .inl (.inr ⟨_, ⟨between, hgap, rfl⟩, hstands⟩)

theorem mem_sizes_iff (h : p ∈ all) (text : List Char) :
    p.size ∈ sizes text ↔ p.rule.pattern.foundIn (leftBy p.earlier text) = true := by
  obtain ⟨later, hrules⟩ := sizeRules_eq h
  have hletter : p.size ∈ sizes text ↔ p.size ∈ letterSizes text := by
    refine mem_firsts.trans (or_iff_left fun hnumber => ?_)
    obtain ⟨c, hc, hnot⟩ := exists_letter (List.mem_map_of_mem (hrules ▸ by simp : p.rule ∈ sizeRules))
    obtain ⟨before, after, hdigits, -⟩ := number_of_numericSizes hnumber
    cases hnot.symm.trans (hdigits.digits c hc)
  rw [hletter]
  exact mem_letterSizes_iff hrules text

/-- **Letters that are sizes.** In a cleaned text a small, medium or large size is read only where its word stands,
or where the text is its letter, or where the letter stands behind the word size with blanks between them, or with a
stretch in which a size is read that is looked for earlier. If no such size is read in the text, it is read exactly
where its word stands, where the text is its letter, or where the letter stands behind the word size and blanks. -/
theorem said_of_sizes (h : p ∈ all) (hclean : clean text = text) :
    (p.size ∈ sizes text → p.Said p.Parted text) ∧
    ((∀ rule ∈ p.earlier, rule.size ∉ sizes text) → (p.size ∈ sizes text ↔ p.Said IsGap text)) := by
  have htrimmed : Trimmed text := hclean ▸ trimmed_clean text
  constructor
  · intro hsize
    by_cases hlone : Lone text
    · obtain ⟨q, hq, rfl | rfl⟩ := hlone
      · have hletters : ∀ p ∈ all, ∀ q ∈ all, p.size ∈ sizes [q.letter] → [q.letter] = [p.letter] := by decide +kernel
        exact .inr (.inl (hletters p h q hq hsize))
      · cases htrimmed.last '\n' rfl
    · obtain ⟨later, hrules⟩ := sizeRules_eq h
      have hsub : ∀ rule ∈ p.earlier, rule ∈ sizeRules := fun rule hr => hrules ▸ List.mem_append_left _ hr
      obtain ⟨m, rfl, hthin, hm⟩ := exists_mask hsub hlone
      have hfound := (mem_sizes_iff h _).mp hsize
      rw [← hthin, Pattern.foundIn_iff] at hfound
      obtain ⟨a, ha, b, hreads⟩ := hfound
      have hwords := wordy_rule h
      have hwhole := (hwords.whole a b hreads).resolve_right fun hlone' => hlone (lone_of_thin (ha ▸ hlone'))
      obtain ⟨word, hspells, hstands⟩ := (Pattern.foundIn_whole_iff_stands hwords.blind hwords.worded _).mp
        ((Pattern.foundIn_iff _ _).mpr ⟨a, ha, b, hwhole⟩)
      exact said_of_shown h hm hspells hstands
  · intro hnone
    obtain ⟨later, hrules⟩ := sizeRules_eq h
    have hleft : leftBy p.earlier text = text := by
      refine leftBy_of_none fun rule hr => ?_
      by_contra hfound
      obtain ⟨other, hother, hsize⟩ := exists_size_of_found hrules hr (by simpa using hfound)
      exact hnone other hother (mem_firsts.mpr (.inl hsize))
    rw [mem_sizes_iff h, hleft, foundIn_rule_iff h htrimmed]

/-- A small size that is read across another one. -/
theorem said_of_sizes_of_extra : clean "size xs s".toList = "size xs s".toList ∧ "S" ∈ sizes "size xs s".toList ∧
    Said (Parted ⟨"S", "small", 's'⟩) ⟨"S", "small", 's'⟩ "size xs s".toList ∧
    ¬ Said IsGap ⟨"S", "small", 's'⟩ "size xs s".toList := by
  have hclean : clean "size xs s".toList = "size xs s".toList := by decide +kernel
  have hsize : "S" ∈ sizes "size xs s".toList := by decide +kernel
  refine ⟨hclean, hsize, (said_of_sizes (p := ⟨"S", "small", 's'⟩) (by decide) hclean).1 hsize, ?_⟩
  rw [← foundIn_rule_iff (by decide) (hclean ▸ trimmed_clean _)]
  decide +kernel

end Plain

end Outfitter.Message
