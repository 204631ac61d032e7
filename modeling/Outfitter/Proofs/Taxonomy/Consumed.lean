import Outfitter.Proofs.Taxonomy.Found
import Outfitter.Proofs.Text.Spacing
import Outfitter.Proofs.Text.Spans

/-!
What a scan takes out of a text.

The phrases of a dimension are looked for one after the other, each in what those before it have left. A phrase
that stands in the text still stands there when its turn comes, or an earlier one has blanked out some of its
characters (`exists_blanks`). So no phrase is missed unless another one has taken of it (`misses_nothing`).
-/

namespace Outfitter.Taxonomy

open Text

/-! ### one phrase -/

/-- The character is kept, or a space stands in its place. -/
def Fades (c d : Char) : Prop :=
  d = c ∨ d = ' '

namespace Entry

variable {e : Entry} {text shown : List Char} {i j : Nat}

/-- The phrase stands in the text between two indices. -/
def StandsAt (e : Entry) (text : List Char) (i j : Nat) : Prop :=
  ∃ a b : Place, a.text = text ∧ e.pattern.Reads a b ∧ a.index = i ∧ b.index = j

theorem standsAt_iff : e.StandsAt text i j ↔ SpreadAt IsGap (words e.phrase.toList) text i j :=
  Pattern.readsAt_phrase_iff

/-- A lettered phrase begins with a character that is no blank. -/
theorem StandsAt.first (h : e.StandsAt text i j) (hws : Lettered (words e.phrase.toList)) :
    i < j ∧ ∃ c, text[i]? = some c ∧ isBlank c = false := by
  obtain ⟨before, stretch, after, rfl, hlaid, -, -, rfl, rfl⟩ := standsAt_iff.mp h
  obtain ⟨⟨c, rest, rfl, hc⟩, -⟩ := hlaid.ends hws
  refine ⟨by simp, c, ?_, not_blank_of_isWord hc⟩
  simp

/-- **A phrase still stands in a text** in which characters have faded, if none of those that count for it have. -/
theorem StandsAt.faded (h : e.StandsAt text i j) (hws : Lettered (words e.phrase.toList))
    (hfades : List.Forall₂ Fades text shown)
    (hkept : ∀ k, i ≤ k → k < j → ∀ c, text[k]? = some c → isBlank c = false → shown[k]? = some c) :
    e.StandsAt shown i j := by
  obtain ⟨before, stretch, after, rfl, hlaid, hbefore, hafter, rfl, rfl⟩ := standsAt_iff.mp h
  obtain ⟨front, after', rfl, hfront, hafter'⟩ := exists_append_of_forall₂ hfades
  obtain ⟨before', stretch', rfl, hbefore', hstretch⟩ := exists_append_of_forall₂ hfront
  have hlength := hbefore'.length_eq
  have hsize := hstretch.length_eq
  -- a space is no word character, so none comes to stand beside the phrase
  have hword : ∀ {c d : Char}, Fades c d → isWord c = false → isWord d = false := by
    rintro c d (rfl | rfl) hc
    · exact hc
    · exact isWord_blank rfl
  have hhead : ∀ {u v : List Char}, List.Forall₂ Fades u v → isWord? u.head? = false → isWord? v.head? = false := by
    intro u v huv hu
    cases huv with
    | nil => rfl
    | cons hcd => exact hword hcd hu
  have halike : List.Forall₂ Alike stretch stretch' := by
    refine List.forall₂_iff_get.mpr ⟨hsize, fun k hk hk' => ?_⟩
    simp only [List.get_eq_getElem]
    cases hblank : isBlank stretch[k] with
    | true =>
      have hfade : Fades stretch[k] stretch'[k] := by simpa using (List.forall₂_iff_get.mp hstretch).2 k hk hk'
      rcases hfade with hsame | hspace
      · exact alike_of_blank hblank (by rw [hsame, hblank])
      · exact alike_of_blank hblank (by rw [hspace]; rfl)
    | false =>
      have hinner : ∀ {u v w : List Char} (h : k < v.length), (u ++ v ++ w)[u.length + k]? = some v[k] := by
        intro u v w h
        rw [List.append_assoc, List.getElem?_append_right (Nat.le_add_right ..), Nat.add_sub_cancel_left,
          List.getElem?_append_left h, List.getElem?_eq_getElem h]
      have hsame := hkept (before.length + k) (by omega) (by omega) stretch[k] (hinner hk) hblank
      rw [hlength, hinner hk'] at hsame
      rw [Option.some.inj hsame]
      exact .refl _
  refine standsAt_iff.mpr ⟨before', stretch', after', rfl, hlaid.alike hws.solid halike, ?_, hhead hafter' hafter,
    by omega, by omega⟩
  rw [← List.head?_reverse] at hbefore ⊢
  exact hhead (List.forall₂_reverse_iff.mpr hbefore') hbefore

theorem consumes (hws : Lettered (words e.phrase.toList)) : e.pattern.Consumes :=
  Pattern.consumes_phrase hws.isSolid

end Entry

/-! ### one look -/

namespace Scan

variable {p : Pattern} {before text out : List Char} {found : List Pattern.Found}

/-- One of the stretches covers the position. -/
def Covers (found : List Pattern.Found) (k : Nat) : Prop :=
  ∃ s ∈ found, s.start ≤ k ∧ k < s.stop

/-- What a pattern takes is blanked out, and all else is kept. -/
theorem blanked_or_kept (h : p.Sweeps spaces before text found out) (k : Nat) :
    (Covers found (before.length + k) ∧ out[k]? = some ' ') ∨
      (¬ Covers found (before.length + k) ∧ out[k]? = text[k]?) := by
  induction h generalizing k with
  | done =>
    right
    simp [Covers]
  | @kept before rest out c found _ hrest ih =>
    cases k with
    | zero =>
      refine .inr ⟨?_, by simp⟩
      rintro ⟨s, hs, hstart, -⟩
      have := hrest.start_le hs
      simp only [List.length_cons] at this
      omega
    | succ k =>
      have hindex : before.length + (k + 1) = (c :: before).length + k := by
        simp only [List.length_cons]
        omega
      rw [hindex]
      exact ih k
  | @taken before word rest out s found _ _ hfirst hlast hrest ih =>
    obtain ⟨hstart, hstop⟩ := Pattern.size_of_past hfirst hlast
    simp only [Place.index] at hstart hstop
    have hspaces : (spaces s.toStretch).length = word.length := by
      simp [spaces, Stretch.size, hstart, hstop]
    by_cases hk : k < word.length
    · refine .inl ⟨⟨s, by simp, by omega, by omega⟩, ?_⟩
      rw [List.getElem?_append_left (by omega)]
      unfold spaces at hspaces ⊢
      rw [List.length_replicate] at hspaces
      rw [List.getElem?_replicate, if_pos (by omega)]
    · have hcovers : Covers (s :: found) (before.length + k) ↔ Covers found (before.length + k) := by
        constructor
        · rintro ⟨t, ht, hle, hlt⟩
          rcases List.mem_cons.mp ht with rfl | ht
          · omega
          · exact ⟨t, ht, hle, hlt⟩
        · rintro ⟨t, ht, hle, hlt⟩
          exact ⟨t, List.mem_cons_of_mem _ ht, hle, hlt⟩
      have hindex : (word.reverse ++ before).length + (k - word.length) = before.length + k := by
        simp only [List.length_append, List.length_reverse]
        omega
      rw [hcovers, List.getElem?_append_right (by omega), List.getElem?_append_right (by omega), hspaces, ← hindex]
      exact ih _

theorem length_of_sweeps (h : p.Sweeps spaces before text found out) : out.length = text.length := by
  induction h with
  | done => rfl
  | kept _ _ ih => simp [ih]
  | taken _ _ hfirst hlast _ ih =>
    obtain ⟨hstart, hstop⟩ := Pattern.size_of_past hfirst hlast
    simp [spaces, Stretch.size, hstart, hstop, ih]

theorem eq_of_sweeps_nil (h : p.Sweeps spaces before text [] out) : out = text := by
  generalize hfound : ([] : List Pattern.Found) = found at h
  induction h with
  | done => rfl
  | kept _ _ ih => rw [ih hfound]
  | taken => cases hfound

variable {e : Entry}

/-- To look for a phrase is to pass through what remains. -/
theorem sweeps_look (hws : Lettered (words e.phrase.toList)) (s : Scan) :
    e.pattern.Sweeps spaces [] s.remaining (e.pattern.searchAll s.remaining) (s.look e).remaining := by
  have hsweeps := Pattern.sweeps_searchAll (Entry.consumes hws) spaces s.remaining
  unfold look
  split
  · exact hsweeps
  · rename_i hnone
    have hnil : e.pattern.searchAll s.remaining = [] := by
      refine List.eq_nil_iff_forall_not_mem.mpr fun found hfound => hnone ?_
      obtain ⟨a, ha, hread⟩ := Pattern.exists_readAt_of_searchAllFrom hfound
      exact (Pattern.foundIn_iff _ _).mpr ⟨a, ha, _, (Pattern.reads_of_readAt hread).2⟩
    rw [hnil] at hsweeps ⊢
    rwa [eq_of_sweeps_nil hsweeps] at hsweeps

theorem look_remaining (hws : Lettered (words e.phrase.toList)) (s : Scan) (k : Nat) :
    (Covers (e.pattern.searchAll s.remaining) k ∧ (s.look e).remaining[k]? = some ' ') ∨
      (¬ Covers (e.pattern.searchAll s.remaining) k ∧ (s.look e).remaining[k]? = s.remaining[k]?) := by
  simpa using blanked_or_kept (sweeps_look hws s) k

/-- A phrase that is found is a hit. -/
theorem look_hit (s : Scan) {f : Pattern.Found} (h : f ∈ e.pattern.searchAll s.remaining) :
    e.token ∈ (s.look e).hits := by
  obtain ⟨a, ha, hread⟩ := Pattern.exists_readAt_of_searchAllFrom h
  have hfound : e.pattern.foundIn s.remaining = true :=
    (Pattern.foundIn_iff _ _).mpr ⟨a, ha, _, (Pattern.reads_of_readAt hread).2⟩
  unfold look
  rw [if_pos hfound]
  dsimp only
  split
  · assumption
  · simp

theorem look_keeps (s : Scan) (e : Entry) {token : String} (h : token ∈ s.hits) : token ∈ (s.look e).hits := by
  unfold look
  split
  · dsimp only
    split
    · exact h
    · simp [h]
  · exact h

theorem nodup_look {s : Scan} (h : s.hits.Nodup) (e : Entry) : (s.look e).hits.Nodup := by
  unfold look
  split
  · dsimp only
    split
    · exact h
    · rename_i hnew
      refine List.nodup_append.mpr ⟨h, List.pairwise_singleton _ _, fun token ht other ho => ?_⟩
      rw [List.mem_singleton.mp ho]
      rintro rfl
      exact hnew ht
  · exact h

end Scan

/-! ### all phrases -/

namespace Dimension

variable {d : Dimension} {text : List Char} {e : Entry} {i j k m n : Nat}

/-- The scan of a text when so many phrases have been looked for. -/
def scanned (d : Dimension) (text : List Char) (n : Nat) : Scan :=
  (d.entries.take n).foldl Scan.look ⟨[], text⟩

theorem scanned_succ (h : d.entries[n]? = some e) : d.scanned text (n + 1) = (d.scanned text n).look e := by
  unfold scanned
  rw [List.take_add_one, h, Option.toList_some, List.foldl_append]
  rfl

theorem scan_eq_scanned (d : Dimension) (text : List Char) : d.scan text = d.scanned text d.entries.length := by
  unfold scanned
  rw [List.take_length]
  rfl

/-- A fact about the scan that every look preserves holds from then on. -/
theorem scanned_induction {P : Scan → Prop} (hstep : ∀ s, ∀ e ∈ d.entries, P s → P (s.look e)) (hle : m ≤ n)
    (hn : n ≤ d.entries.length) (h : P (d.scanned text m)) : P (d.scanned text n) := by
  induction n, hle using Nat.le_induction with
  | base => exact h
  | succ n hle ih =>
    have hget : d.entries[n]? = some d.entries[n] := List.getElem?_eq_getElem (by omega)
    rw [scanned_succ hget]
    exact hstep _ _ (List.getElem_mem _) (ih (by omega))

/-- The phrase with this number is found at the position when its turn comes, and blanks it out. -/
def Blanks (d : Dimension) (text : List Char) (m k : Nat) : Prop :=
  ∃ f, d.entries[m]? = some f ∧ Scan.Covers (f.pattern.searchAll (d.scanned text m).remaining) k

theorem length_of_blanks (h : d.Blanks text m k) : m < d.entries.length := by
  obtain ⟨f, hf, -⟩ := h
  exact (List.getElem?_eq_some_iff.mp hf).1

/-- What has been blanked out remains so. -/
theorem blank_of_blanks (h : d.Blanks text m k) : (d.scan text).remaining[k]? = some ' ' := by
  have hm := length_of_blanks h
  obtain ⟨f, hf, hcovers⟩ := h
  rw [scan_eq_scanned]
  refine scanned_induction (P := fun s => s.remaining[k]? = some ' ') ?_ (Nat.succ_le_of_lt hm) (Nat.le_refl _) ?_
  · intro s e he hs
    rcases Scan.look_remaining (lettered_of_entries he) s k with ⟨-, hblank⟩ | ⟨-, hsame⟩
    · exact hblank
    · rw [hsame, hs]
  · rw [scanned_succ hf]
    have hmem := List.mem_of_getElem? hf
    rcases Scan.look_remaining (lettered_of_entries hmem) (d.scanned text m) k with ⟨-, hblank⟩ | ⟨hnot, -⟩
    · exact hblank
    · exact absurd hcovers hnot

/-- The token of a phrase that blanks something out is found. -/
theorem hit_of_blanks (h : d.Blanks text m k) : ∃ f, d.entries[m]? = some f ∧ f.token ∈ (d.scan text).hits ∧
    ∃ s ∈ f.pattern.searchAll (d.scanned text m).remaining, s.start ≤ k ∧ k < s.stop := by
  have hm := length_of_blanks h
  obtain ⟨f, hf, s, hs, hk⟩ := h
  refine ⟨f, hf, ?_, s, hs, hk⟩
  rw [scan_eq_scanned]
  refine scanned_induction (P := fun s => f.token ∈ s.hits) (fun s e _ => Scan.look_keeps s e)
    (Nat.succ_le_of_lt hm) (Nat.le_refl _) ?_
  rw [scanned_succ hf]
  exact Scan.look_hit _ hs

/-- A character is as it was, or one of the phrases before has blanked it out. -/
theorem kept_or_blanks (text : List Char) (hn : n ≤ d.entries.length) (k : Nat) :
    (d.scanned text n).remaining[k]? = text[k]? ∨
      (d.scanned text n).remaining[k]? = some ' ' ∧ ∃ m < n, d.Blanks text m k := by
  induction n with
  | zero => exact .inl rfl
  | succ n ih =>
    have hget : d.entries[n]? = some d.entries[n] := List.getElem?_eq_getElem (by omega)
    rw [scanned_succ hget]
    rcases Scan.look_remaining (lettered_of_entries (List.getElem_mem _)) (d.scanned text n) k with
      ⟨hcovers, hblank⟩ | ⟨-, hsame⟩
    · exact .inr ⟨hblank, n, Nat.lt_succ_self n, _, hget, hcovers⟩
    · rw [hsame]
      refine (ih (by omega)).imp_right (And.imp_right ?_)
      rintro ⟨m, hm, hblanks⟩
      exact ⟨m, Nat.lt_succ_of_lt hm, hblanks⟩

theorem length_scanned (hn : n ≤ d.entries.length) : (d.scanned text n).remaining.length = text.length := by
  refine scanned_induction (P := fun s => s.remaining.length = text.length) ?_ (Nat.zero_le n) hn rfl
  intro s e he hs
  rw [← hs]
  exact Scan.length_of_sweeps (Scan.sweeps_look (lettered_of_entries he) s)

theorem fades_scanned (hn : n ≤ d.entries.length) : List.Forall₂ Fades text (d.scanned text n).remaining := by
  refine List.forall₂_iff_get.mpr ⟨(length_scanned hn).symm, fun k hk hk' => ?_⟩
  simp only [List.get_eq_getElem]
  have h := kept_or_blanks text hn k
  rw [List.getElem?_eq_getElem hk, List.getElem?_eq_getElem hk'] at h
  exact h.imp Option.some.inj fun h => Option.some.inj h.1

/-- **A phrase that stands in the text is blanked out somewhere**, by itself or by one before it. -/
theorem exists_blanks (hn : d.entries[n]? = some e) (h : e.StandsAt text i j) :
    ∃ m ≤ n, ∃ k, i ≤ k ∧ k < j ∧ (∃ c, text[k]? = some c ∧ isBlank c = false) ∧ d.Blanks text m k := by
  have hws := lettered_of_entries (List.mem_of_getElem? hn)
  have hle : n ≤ d.entries.length := Nat.le_of_lt (List.getElem?_eq_some_iff.mp hn).1
  by_cases htouched : ∃ m < n, ∃ k, i ≤ k ∧ k < j ∧ (∃ c, text[k]? = some c ∧ isBlank c = false) ∧ d.Blanks text m k
  · obtain ⟨m, hm, hk⟩ := htouched
    exact ⟨m, Nat.le_of_lt hm, hk⟩
  · -- untouched, it still stands there, and is found at its first character
    obtain ⟨hij, hfirst⟩ := h.first hws
    have hstands : e.StandsAt (d.scanned text n).remaining i j := by
      refine h.faded hws (fades_scanned hle) fun k hik hkj c hc hblank => ?_
      rcases kept_or_blanks text hle k with hsame | ⟨-, m, hm, hblanks⟩
      · rw [hsame, hc]
      · exact absurd ⟨m, hm, k, hik, hkj, ⟨c, hc, hblank⟩, hblanks⟩ htouched
    obtain ⟨a, b, ha, hreads, rfl, -⟩ := hstands
    refine ⟨n, Nat.le_refl n, a.index, Nat.le_refl _, hij, hfirst, e, hn, ?_⟩
    have hcovering := Pattern.exists_covering (Entry.consumes hws) hreads
    rwa [ha] at hcovering

/-- **A scan misses nothing but what is taken.** What remains of a text has its length and differs from it only by
spaces, and no token is found twice. Of every phrase that stands in the text some character that is no blank has
been blanked out. A token that is not found has phrases in the text only where another token has been found by a
phrase that is looked for earlier: each of them shares a position with a stretch that this one blanks out. -/
theorem misses_nothing (d : Dimension) (text : List Char) :
    (d.scan text).remaining.length = text.length ∧
    (∀ k : Nat, (d.scan text).remaining[k]? = text[k]? ∨ (d.scan text).remaining[k]? = some ' ') ∧
    (d.scan text).hits.Nodup ∧
    (∀ e ∈ d.entries, ∀ i j, e.StandsAt text i j → ∃ k, i ≤ k ∧ k < j ∧
      (∃ c, text[k]? = some c ∧ isBlank c = false) ∧ (d.scan text).remaining[k]? = some ' ') ∧
    ∀ n, ∀ e : Entry, d.entries[n]? = some e → e.token ∉ (d.scan text).hits → ∀ i j, e.StandsAt text i j →
      ∃ m, ∃ f : Entry, m < n ∧ d.entries[m]? = some f ∧ f.token ≠ e.token ∧
        ∃ s ∈ f.pattern.searchAll (d.scanned text m).remaining,
          (∀ k, s.start ≤ k → k < s.stop → (d.scan text).remaining[k]? = some ' ') ∧
          ∃ k, i ≤ k ∧ k < j ∧ s.start ≤ k ∧ k < s.stop := by
  have hlast := scan_eq_scanned d text
  refine ⟨?_, fun k => ?_, ?_, ?_, ?_⟩
  · rw [hlast]
    exact length_scanned (Nat.le_refl _)
  · rw [hlast]
    exact (kept_or_blanks text (Nat.le_refl _) k).imp_right And.left
  · rw [hlast]
    exact scanned_induction (P := fun s => s.hits.Nodup) (fun _ e _ hs => Scan.nodup_look hs e) (Nat.zero_le _)
      (Nat.le_refl _) List.nodup_nil
  · intro e he i j hstands
    obtain ⟨n, hn⟩ := List.mem_iff_getElem?.mp he
    obtain ⟨m, -, k, hik, hkj, hk, hblanks⟩ := exists_blanks hn hstands
    exact ⟨k, hik, hkj, hk, blank_of_blanks hblanks⟩
  · intro n e hn hmissed i j hstands
    obtain ⟨m, hm, k, hik, hkj, -, hblanks⟩ := exists_blanks hn hstands
    obtain ⟨f, hf, hhit, s, hs, hstart, hstop⟩ := hit_of_blanks hblanks
    have hother : f.token ≠ e.token := fun hsame => hmissed (hsame ▸ hhit)
    have hne : m ≠ n := by
      rintro rfl
      rw [hf] at hn
      exact hother (congrArg Entry.token (Option.some.inj hn))
    exact ⟨m, f, by omega, hf, hother, s, hs, fun k hstart hstop => blank_of_blanks ⟨f, hf, s, hs, hstart, hstop⟩,
      k, hik, hkj, hstart, hstop⟩

/-- The blue of "pastel blue" has been taken by the longer phrase. -/
example : (Dimension.colors.scan "a pastel blue top".toList).hits = ["pastel-blue"] ∧
    (Dimension.colors.scan "a pastel blue top".toList).remaining = "a             top".toList := by
  decide +kernel

end Dimension

end Outfitter.Taxonomy
