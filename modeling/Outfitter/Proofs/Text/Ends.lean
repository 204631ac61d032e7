import Outfitter.Proofs.Text.Parts
import Outfitter.Proofs.Text.Rewrite

/-!
What is read, and its two ends.

`Yields` is a reading with the parts that it marks (`yields_of_readAt`). `Begins` and `Ends` tell of the characters
at the two ends of what is read: a pattern begins as its first part does, and one that ends with a run goes on to
the end of it (`ends_run`).
-/

namespace Outfitter.Text.Pattern

variable {p q : Pattern} {f : Stretch → List Char}

/-! ### readings with their parts -/

/-- The pattern may be read from the first place to the second, with these parts. -/
def Yields : Pattern → Place → Place → List Stretch → Prop
  | seq first second, a, b, parts =>
    ∃ m front back, first.Yields a m front ∧ second.Yields m b back ∧ parts = front ++ back
  | either preferred other, a, b, parts => preferred.Yields a b parts ∨ other.Yields a b parts
  | part inner, a, b, parts => ∃ front, inner.Yields a b front ∧ parts = front ++ [⟨a, b⟩]
  | look holds, a, b, parts => (look holds).Reads a b ∧ parts = []
  | one accepts, a, b, parts => (one accepts).Reads a b ∧ parts = []
  | run accepts least most, a, b, parts => (run accepts least most).Reads a b ∧ parts = []

theorem yields_of_readings {r r' : Reading} (h : r' ∈ p.readings r) :
    ∃ parts, p.Yields r.place r'.place parts ∧ r'.parts = r.parts ++ parts := by
  have hreads := (mem_readings p r r'.place).mp ⟨r', h, rfl⟩
  induction p generalizing r r' with
  | look holds =>
    refine ⟨[], ⟨hreads, rfl⟩, ?_⟩
    unfold readings at h
    split at h
    · simp [List.mem_singleton.mp h]
    · simp at h
  | one accepts =>
    refine ⟨[], ⟨hreads, rfl⟩, ?_⟩
    unfold readings at h
    split at h
    · simp at h
    · split at h
      · simp [List.mem_singleton.mp h]
      · simp at h
  | run accepts least most =>
    refine ⟨[], ⟨hreads, rfl⟩, ?_⟩
    obtain ⟨place, -, rfl⟩ := List.mem_map.mp h
    simp
  | seq first second ih₁ ih₂ =>
    obtain ⟨m, h₁, h₂⟩ := List.mem_flatMap.mp h
    obtain ⟨front, hfront, hm⟩ := ih₁ h₁ ((mem_readings first r m.place).mp ⟨m, h₁, rfl⟩)
    obtain ⟨back, hback, hr⟩ := ih₂ h₂ ((mem_readings second m r'.place).mp ⟨r', h₂, rfl⟩)
    exact ⟨front ++ back, ⟨m.place, front, back, hfront, hback, rfl⟩, by simp [hr, hm]⟩
  | either preferred other ih₁ ih₂ =>
    rcases List.mem_append.mp h with h | h
    · obtain ⟨parts, hparts, hr⟩ := ih₁ h ((mem_readings preferred r r'.place).mp ⟨r', h, rfl⟩)
      exact ⟨parts, .inl hparts, hr⟩
    · obtain ⟨parts, hparts, hr⟩ := ih₂ h ((mem_readings other r r'.place).mp ⟨r', h, rfl⟩)
      exact ⟨parts, .inr hparts, hr⟩
  | part inner ih =>
    obtain ⟨m, hm, rfl⟩ := List.mem_map.mp h
    obtain ⟨front, hfront, hr⟩ := ih hm hreads
    exact ⟨front ++ [⟨r.place, m.place⟩], ⟨front, hfront, rfl⟩, by simp [hr]⟩

theorem yields_of_readAt {a : Place} {s : Found} (h : p.readAt a = some s) :
    s.first = a ∧ p.Yields a s.last s.parts := by
  obtain ⟨r, hr, rfl⟩ := Option.map_eq_some_iff.mp h
  obtain ⟨parts, hyields, hparts⟩ := yields_of_readings (List.mem_of_head? hr)
  simp only [List.nil_append] at hparts
  exact ⟨rfl, by simpa [hparts] using hyields⟩

theorem Yields.reads {a b : Place} {parts : List Stretch} (h : p.Yields a b parts) : p.Reads a b := by
  induction p generalizing a b parts with
  | look | one | run => exact h.1
  | seq first second ih₁ ih₂ =>
    obtain ⟨m, front, back, h₁, h₂, -⟩ := h
    exact ⟨m, ih₁ h₁, ih₂ h₂⟩
  | either preferred other ih₁ ih₂ => exact h.imp ih₁ ih₂
  | part inner ih =>
    obtain ⟨front, h, -⟩ := h
    exact ih h

/-- A pattern without parts marks none. -/
theorem Yields.eq_nil {a b : Place} {parts : List Stretch} (h : p.Yields a b parts) (hp : p.parts = []) :
    parts = [] := by
  induction p generalizing a b parts with
  | look | one | run => exact h.2
  | seq first second ih₁ ih₂ =>
    obtain ⟨hfirst, hsecond⟩ := List.append_eq_nil_iff.mp hp
    obtain ⟨m, front, back, h₁, h₂, rfl⟩ := h
    rw [ih₁ h₁ hfirst, ih₂ h₂ hsecond]
    rfl
  | either preferred other ih₁ ih₂ =>
    obtain ⟨hpreferred, hother⟩ := List.append_eq_nil_iff.mp hp
    rcases h with h | h
    · exact ih₁ h hpreferred
    · exact ih₂ h hother
  | part inner => simp [Pattern.parts] at hp

/-! ### the two ends of what is read -/

/-- What is read stands behind the first place and in front of the second. -/
theorem exists_word_of_reads {a b : Place} (h : p.Reads a b) :
    ∃ word rest, a.after = word ++ rest ∧ b = a.past word rest := by
  induction p generalizing a b with
  | look => exact ⟨[], a.after, rfl, h.1⟩
  | one accepts =>
    obtain ⟨c, rest, he, -, rfl⟩ := h
    exact ⟨[c], rest, he, rfl⟩
  | run accepts least most =>
    obtain ⟨word, rest, he, -, -, -, rfl⟩ := h
    exact ⟨word, rest, he, rfl⟩
  | seq first second ih₁ ih₂ =>
    obtain ⟨m, h₁, h₂⟩ := h
    obtain ⟨u, rest₁, he, rfl⟩ := ih₁ h₁
    obtain ⟨v, rest, hv, rfl⟩ := ih₂ h₂
    obtain rfl : rest₁ = v ++ rest := hv
    exact ⟨u ++ v, rest, by simp [he], by simp [Place.past]⟩
  | either preferred other ih₁ ih₂ =>
    rcases h with h | h
    · exact ih₁ h
    · exact ih₂ h
  | part inner ih => exact ih h

/-- Whatever is read begins with one of these characters. -/
def Begins (P : Char → Prop) (p : Pattern) : Prop :=
  ∀ a b, p.Reads a b → ∃ c word rest, a.after = c :: word ++ rest ∧ b = a.past (c :: word) rest ∧ P c

theorem begins_one {P : Char → Prop} {accepts : Char → Bool} (h : ∀ c, accepts c = true → P c) :
    (one accepts).Begins P := by
  rintro a b ⟨c, rest, he, hc, rfl⟩
  exact ⟨c, [], rest, he, rfl, h c hc⟩

theorem begins_run {P : Char → Prop} {accepts : Char → Bool} (h : ∀ c, accepts c = true → P c) {least : Nat}
    (hleast : least ≠ 0) (most : Option Nat) : (run accepts least most).Begins P := by
  rintro a b ⟨word, rest, he, hall, hlength, -, rfl⟩
  obtain ⟨c, word, rfl⟩ : ∃ c more, word = c :: more := by
    refine List.exists_cons_of_ne_nil ?_
    rintro rfl
    exact hleast (Nat.le_zero.mp hlength)
  exact ⟨c, word, rest, he, rfl, h c (hall c (by simp))⟩

theorem Begins.seq {P : Char → Prop} (h : p.Begins P) (q : Pattern) : (Pattern.seq p q).Begins P := by
  rintro a b ⟨m, hp, hq⟩
  obtain ⟨c, word, rest, he, rfl, hc⟩ := h a m hp
  obtain ⟨more, rest', hmore, rfl⟩ := exists_word_of_reads hq
  obtain rfl : rest = more ++ rest' := hmore
  exact ⟨c, word ++ more, rest', by simp [he], by simp [Place.past], hc⟩

theorem Begins.look_seq {P : Char → Prop} (h : q.Begins P) (holds : Place → Bool) :
    (Pattern.seq (look holds) q).Begins P := by
  rintro a b ⟨_, ⟨rfl, -⟩, hq⟩
  exact h _ b hq

theorem Begins.either {P : Char → Prop} (hp : p.Begins P) (hq : q.Begins P) : (Pattern.either p q).Begins P := by
  rintro a b (h | h)
  · exact hp a b h
  · exact hq a b h

/-- Given characters begin with the first of them. -/
theorem begins_all {P : Char → Prop} (h : p.Begins P) (ps : List Pattern) : (all (p :: ps)).Begins P := by
  cases ps with
  | nil => exact h
  | cons q qs => exact h.seq _

theorem begins_exactly {P : Char → Prop} {text : String} {c : Char} {rest : List Char} (h : text.toList = c :: rest)
    (hc : P c) : (exactly text).Begins P := by
  unfold exactly
  rw [h]
  refine begins_all (begins_one fun d hd => ?_) _
  rwa [beq_iff_eq.mp hd]

theorem begins_any {P : Char → Prop} {ps : List Pattern} (h : ∀ p ∈ ps, p.Begins P) : (any ps).Begins P := by
  induction ps with
  | nil =>
    rintro a b ⟨-, h⟩
    cases h
  | cons p ps ih =>
    have hp := h p (by simp)
    have hps := ih fun q hq => h q (by simp [hq])
    cases ps with
    | nil => exact hp
    | cons q qs => exact hp.either hps

/-- The preferred reading ends behind a character of the class, and goes on to the last one there. -/
def Ends (accepts : Char → Bool) (p : Pattern) : Prop :=
  ∀ r r', (p.readings r).head? = some r' →
    (∃ c ∈ r'.place.before.head?, accepts c = true) ∧ ∀ c ∈ r'.place.after.head?, accepts c = false

/-- The longest run takes all characters of the class that follow. -/
theorem getLast?_runPlaces (accepts : Char → Bool) (after : List Char) (least : Nat) (before : List Char) :
    (runPlaces accepts least none before after).getLast? =
      if least ≤ (after.takeWhile accepts).length then
        some ⟨(after.takeWhile accepts).reverse ++ before, after.dropWhile accepts⟩
      else none := by
  induction after generalizing least before with
  | nil => cases least <;> simp [runPlaces]
  | cons c after ih =>
    have hnone : ((none : Option Nat) != some 0) = true := rfl
    rw [runPlaces]
    by_cases hc : accepts c = true
    · simp only [hc, hnone, Bool.and_self, if_true, Option.map_none, List.takeWhile_cons_of_pos,
        List.dropWhile_cons_of_pos, List.length_cons, List.reverse_cons, List.append_assoc, List.singleton_append]
      by_cases hleast : least = 0
      · rw [if_pos hleast, List.getLast?_cons, ih]
        simp [hleast]
      · rw [if_neg hleast, ih]
        have hiff : least - 1 ≤ (after.takeWhile accepts).length ↔
            least ≤ (after.takeWhile accepts).length + 1 := by omega
        simp only [hiff]
    · simp only [hc, Bool.false_and, Bool.false_eq_true, if_false, not_false_eq_true, List.takeWhile_cons_of_neg,
        List.dropWhile_cons_of_neg, List.length_nil, Nat.le_zero, List.reverse_nil, List.nil_append]
      split <;> rfl

theorem ends_run (accepts : Char → Bool) {least : Nat} (h : least ≠ 0) : (run accepts least none).Ends accepts := by
  intro r r' hr
  rw [readings, List.head?_map, List.head?_reverse, getLast?_runPlaces] at hr
  split at hr
  · rename_i hleast
    obtain rfl := Option.some.inj hr
    have hne : r.place.after.takeWhile accepts ≠ [] := by
      intro hnil
      rw [hnil] at hleast
      exact h (Nat.le_zero.mp hleast)
    refine ⟨⟨(r.place.after.takeWhile accepts).getLast hne, ?_, ?_⟩, fun c hc => ?_⟩
    · simp [List.getLast?_eq_some_getLast hne]
    · exact List.all_eq_true.mp List.all_takeWhile _ (List.getLast_mem hne)
    · have hstop := List.head?_dropWhile_not accepts r.place.after
      rw [Option.mem_def.mp hc] at hstop
      exact hstop
  · cases hr

theorem Ends.part {accepts : Char → Bool} (h : p.Ends accepts) : (Pattern.part p).Ends accepts := by
  intro r r' hr
  rw [readings, List.head?_map] at hr
  obtain ⟨m, hm, rfl⟩ := Option.map_eq_some_iff.mp hr
  exact h r m hm

/-- What is read last ends the reading. -/
theorem Ends.seq {accepts : Char → Bool} (h : q.Ends accepts) (p : Pattern) : (Pattern.seq p q).Ends accepts := by
  intro r r' hr
  rw [readings, List.head?_flatMap] at hr
  obtain ⟨m, -, hm⟩ := List.exists_of_findSome?_eq_some hr
  exact h m r' hm

end Outfitter.Text.Pattern
