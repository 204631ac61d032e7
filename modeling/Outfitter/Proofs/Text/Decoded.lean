import Outfitter.Text.Percent

/-!
Decoding a text part by part.

A character of one byte that is neither a percent sign nor a digit ends whatever has been begun before it: an
escape that lacks a digit, and a character that lacks a byte (`StandsAlone`). So it does not matter whether
texts are joined by such a character before or after they are decoded (`percentDecoded_append_cons`).
-/

namespace Outfitter.Text

/-- The character belongs neither to an escape nor to a character of several bytes. -/
structure StandsAlone (c : Char) : Prop where
  notPercent : c ≠ '%'
  notDigit : hexValue? c = none
  byte : utf8 c = [c.toNat]
  ascii : c.toNat < 0x80

theorem standsAlone_comma : StandsAlone ',' :=
  ⟨by decide, by decide, by decide, by decide⟩

variable {c : Char}

/-! ### bytes -/

theorem percentBytes_escape {a b : Char} {m n : Nat} (ha : hexValue? a = some m) (hb : hexValue? b = some n)
    (rest : List Char) : percentBytes ('%' :: a :: b :: rest) = (16 * m + n) :: percentBytes rest := by
  rw [percentBytes, ha, hb]

/-- A character with which no escape begins. -/
theorem percentBytes_cons {d : Char} {rest : List Char} (h : ∀ a b others m n, d = '%' →
      rest = a :: b :: others → hexValue? a = some m → hexValue? b = some n → False) :
    percentBytes (d :: rest) = utf8 d ++ percentBytes rest := by
  by_cases hescape : d = '%' ∧ ∃ a b others, rest = a :: b :: others
  · obtain ⟨rfl, a, b, others, rfl⟩ := hescape
    rw [percentBytes]
    split
    · rename_i ha hb
      exact absurd hb (h a b others _ _ rfl rfl ha)
    · rfl
  · rw [percentBytes]
    exact fun a b others hd hrest => hescape ⟨hd, a, b, others, hrest⟩

theorem percentBytes_append_cons (h : StandsAlone c) (text rest : List Char) :
    percentBytes (text ++ c :: rest) = percentBytes text ++ c.toNat :: percentBytes rest := by
  induction text using percentBytes.induct with
  | case1 =>
    rw [List.nil_append, percentBytes_cons fun a b others m n hc => absurd hc h.notPercent, h.byte]
    rfl
  | case2 a b text m n hb ha ih =>
    rw [percentBytes_escape ha hb, List.cons_append, List.cons_append, List.cons_append,
      percentBytes_escape ha hb, ih, List.cons_append]
  | case3 a b text hnot ih =>
    have hcons : ∀ others, percentBytes ('%' :: a :: b :: others) =
        utf8 '%' ++ percentBytes (a :: b :: others) := by
      intro others
      refine percentBytes_cons fun a' b' others' m n _ he ha hb => ?_
      obtain ⟨hfirst, hrest⟩ := List.cons.inj he
      obtain ⟨hsecond, -⟩ := List.cons.inj hrest
      exact hnot m n (hfirst ▸ ha) (hsecond ▸ hb)
    rw [List.cons_append, List.cons_append, List.cons_append, hcons, hcons, ← List.cons_append,
      ← List.cons_append, ih, List.append_assoc]
  | case4 d text hnot ih =>
    rw [percentBytes_cons fun a b others _ _ hd htext => (hnot a b others hd htext).elim, List.cons_append,
      percentBytes_cons, ih, List.append_assoc]
    intro a b others m n hd htext ha hb
    -- of the two characters behind a percent sign one is the character that is no digit
    cases text with
    | nil =>
      obtain ⟨rfl, -⟩ := List.cons.inj htext
      cases ha.symm.trans h.notDigit
    | cons a' text =>
      cases text with
      | nil =>
        obtain ⟨-, hrest⟩ := List.cons.inj htext
        obtain ⟨rfl, -⟩ := List.cons.inj hrest
        cases hb.symm.trans h.notDigit
      | cons b' text => exact hnot a' b' text hd rfl

/-! ### characters -/

/-- No byte below 128 is the next one of the character. -/
def Partial.IsBegun (p : Partial) : Prop :=
  0x80 ≤ p.least

theorem isBegun_ofFirst {b : Nat} {p : Partial} (h : Partial.ofFirst? b = some p) : p.IsBegun := by
  unfold Partial.ofFirst? at h
  unfold Partial.IsBegun
  grind

theorem isBegun_firstByte {b : Nat} {p : Partial} (h : (firstByte b).1 = some p) : p.IsBegun := by
  unfold firstByte at h
  split at h
  · cases h
  · split at h
    · rename_i hfirst
      exact isBegun_ofFirst (hfirst.trans h)
    · cases h

theorem isBegun_nextByte {b : Nat} {p q : Partial} (h : (nextByte p b).1 = some q) : q.IsBegun := by
  unfold nextByte at h
  split at h
  · dsimp only at h
    split at h
    · cases h
    · obtain rfl := Option.some.inj h
      exact Nat.le_refl _
  · exact isBegun_firstByte h

theorem ofBytesFrom_none_cons (b : Nat) (bytes : List Nat) :
    ofBytesFrom none (b :: bytes) = (firstByte b).2 ++ ofBytesFrom (firstByte b).1 bytes :=
  rfl

theorem ofBytesFrom_some_cons (p : Partial) (b : Nat) (bytes : List Nat) :
    ofBytesFrom (some p) (b :: bytes) = (nextByte p b).2 ++ ofBytesFrom (nextByte p b).1 bytes :=
  rfl

/-- A byte below 128 ends the character before it. -/
theorem ofBytesFrom_cons_of_lt {b : Nat} (hb : b < 0x80) {begun : Option Partial} (h : ∀ p ∈ begun, p.IsBegun)
    (rest : List Nat) :
    ofBytesFrom begun (b :: rest) = ofBytesFrom begun [] ++ Char.ofNat b :: ofBytesFrom none rest := by
  have hfirst : firstByte b = (none, [Char.ofNat b]) := if_pos hb
  cases begun with
  | none =>
    rw [ofBytesFrom_none_cons, hfirst]
    rfl
  | some p =>
    have hnot : ¬(p.least ≤ b ∧ b ≤ p.most) := fun hle => by
      have := h p rfl
      unfold Partial.IsBegun at this
      omega
    have hnext : nextByte p b = (none, [replacement, Char.ofNat b]) := by
      unfold nextByte
      rw [if_neg hnot, hfirst]
    rw [ofBytesFrom_some_cons, hnext]
    rfl

theorem ofBytesFrom_append_cons {b : Nat} (hb : b < 0x80) {begun : Option Partial}
    (h : ∀ p ∈ begun, p.IsBegun) (bytes rest : List Nat) :
    ofBytesFrom begun (bytes ++ b :: rest) = ofBytesFrom begun bytes ++ Char.ofNat b :: ofBytesFrom none rest := by
  induction bytes generalizing begun with
  | nil => exact ofBytesFrom_cons_of_lt hb h rest
  | cons x bytes ih =>
    rw [List.cons_append]
    cases begun with
    | none =>
      rw [ofBytesFrom_none_cons, ofBytesFrom_none_cons, ih fun p hp => isBegun_firstByte hp, List.append_assoc]
    | some q =>
      rw [ofBytesFrom_some_cons, ofBytesFrom_some_cons, ih fun p hp => isBegun_nextByte hp, List.append_assoc]

theorem percentDecoded_append_cons (h : StandsAlone c) (text rest : List Char) :
    percentDecoded (text ++ c :: rest) = percentDecoded text ++ c :: percentDecoded rest := by
  unfold percentDecoded ofBytes
  rw [percentBytes_append_cons h, ofBytesFrom_append_cons h.ascii (fun p hp => by cases hp), Char.ofNat_toNat]

end Outfitter.Text
