import Mathlib.Algebra.Group.Nat.Defs
import Outfitter.Number.Shortest
import Outfitter.Proofs.Number.Double

/-!
Quotients and decimals as doubles.

What a quotient is rounded to depends on its value alone (`ofRatio_congr`), and a quotient that is the value
of a double is rounded to this double (`ofRatio_canonical`). A decimal is rounded as the quotient that it
is, however small or great (`ofDecimal_eq`); so the decimal by which a double is written reads back
(`Finite.ofDecimal_shortest`).
-/

namespace Outfitter.Double

/-! ### the leading binary digit -/

/-- The quotient is not below a power of two. -/
def Reaches (num den : Nat) (k : Int) : Prop :=
  den * 2 ^ k.toNat ≤ num * 2 ^ (-k).toNat

instance (num den : Nat) (k : Int) : Decidable (Reaches num den k) :=
  Nat.decLe ..

variable {num den : Nat} {k : Int}

theorem reaches_iff_shifted {a b : Nat} (h : (a : Int) - b = k) :
    Reaches num den k ↔ den * 2 ^ a ≤ num * 2 ^ b := by
  obtain ⟨c, ha, hb⟩ : ∃ c, a = k.toNat + c ∧ b = (-k).toNat + c := ⟨a - k.toNat, by omega, by omega⟩
  rw [ha, hb, Nat.pow_add, Nat.pow_add, ← Nat.mul_assoc, ← Nat.mul_assoc]
  exact (Nat.mul_le_mul_right_iff (Nat.two_pow_pos c)).symm

theorem reaches_of_le {j : Int} (hk : k ≤ j) (h : Reaches num den j) : Reaches num den k := by
  rw [reaches_iff_shifted (a := j.toNat) (b := (-j).toNat + (j - k).toNat) (by omega), Nat.pow_add,
    ← Nat.mul_assoc]
  exact Nat.le_trans h (Nat.le_mul_of_pos_right _ (Nat.two_pow_pos _))

theorem reaches_mul {c : Nat} (hc : 0 < c) : Reaches (num * c) (den * c) k ↔ Reaches num den k := by
  unfold Reaches
  rw [Nat.mul_right_comm den, Nat.mul_right_comm num, Nat.mul_le_mul_right_iff hc]

/-- The quotient of two numbers with so many binary digits is hardly less than this power of two. -/
theorem reaches_log2_sub (hn : num ≠ 0) : Reaches num den ((num.log2 : Int) - den.log2 - 1) := by
  have hle : 2 ^ num.log2 ≤ num := Nat.log2_self_le hn
  have hlt : den < 2 ^ (den.log2 + 1) := Nat.lt_log2_self
  rw [reaches_iff_shifted (a := num.log2) (b := den.log2 + 1) (by omega), Nat.mul_comm num]
  exact Nat.mul_le_mul (Nat.le_of_lt hlt) hle

theorem not_reaches_log2_sub (hd : den ≠ 0) : ¬ Reaches num den ((num.log2 : Int) - den.log2 + 1) := by
  have hle : 2 ^ den.log2 ≤ den := Nat.log2_self_le hd
  have hlt : num < 2 ^ (num.log2 + 1) := Nat.lt_log2_self
  rw [reaches_iff_shifted (a := num.log2 + 1) (b := den.log2) (by omega), Nat.mul_comm num, Nat.not_le]
  exact Nat.mul_lt_mul_of_le_of_lt hle hlt (Nat.pos_of_ne_zero hd)

theorem leadingExponent_def : leadingExponent num den =
    if Reaches num den ((num.log2 : Int) - den.log2) then (num.log2 : Int) - den.log2
    else (num.log2 : Int) - den.log2 - 1 :=
  rfl

/-- The quotient is not below the power of two of its leading digit, and below the next one. -/
theorem reaches_iff (hn : num ≠ 0) (hd : den ≠ 0) : Reaches num den k ↔ k ≤ leadingExponent num den := by
  rw [leadingExponent_def]
  split
  · next h =>
    refine ⟨fun hk => ?_, fun hk => reaches_of_le hk h⟩
    apply Int.not_lt.mp
    intro hlt
    exact not_reaches_log2_sub hd (reaches_of_le (by omega) hk)
  · next h =>
    refine ⟨fun hk => ?_, fun hk => reaches_of_le hk (reaches_log2_sub hn)⟩
    apply Int.not_lt.mp
    intro hlt
    exact h (reaches_of_le (by omega) hk)

theorem leadingExponent_eq (hn : num ≠ 0) (hd : den ≠ 0) (h : Reaches num den k)
    (hnext : ¬ Reaches num den (k + 1)) : leadingExponent num den = k := by
  have hlow := (reaches_iff hn hd).mp h
  have hhigh := mt (reaches_iff hn hd).mpr hnext
  omega

/-! ### a quotient and its value -/

theorem roundDiv_mul_right {c : Nat} (hc : 0 < c) : roundDiv (num * c) (den * c) = roundDiv num den := by
  have hdown : 2 * (num % den * c) < den * c ↔ 2 * (num % den) < den := by
    rw [← Nat.mul_assoc, Nat.mul_lt_mul_right hc]
  have hup : den * c < 2 * (num % den * c) ↔ den < 2 * (num % den) := by
    rw [← Nat.mul_assoc, Nat.mul_lt_mul_right hc]
  unfold roundDiv
  simp only [Nat.mul_div_mul_right num den hc, Nat.mul_mod_mul_right, hdown, hup]

theorem leadingExponent_mul (hn : num ≠ 0) (hd : den ≠ 0) {c : Nat} (hc : 0 < c) :
    leadingExponent (num * c) (den * c) = leadingExponent num den := by
  have hc' : c ≠ 0 := Nat.ne_of_gt hc
  refine leadingExponent_eq (Nat.mul_ne_zero hn hc') (Nat.mul_ne_zero hd hc') ?_ ?_
  · exact (reaches_mul hc).mpr ((reaches_iff hn hd).mpr (Int.le_refl _))
  · rw [reaches_mul hc, reaches_iff hn hd]
    omega

variable {negative : Bool}

theorem ofRatio_mul (hd : den ≠ 0) {c : Nat} (hc : 0 < c) :
    ofRatio negative (num * c) (den * c) = ofRatio negative num den := by
  by_cases hn : num = 0
  · rw [hn, Nat.zero_mul]
    rfl
  · have hround (a b : Nat) : roundDiv (num * c * a) (den * c * b) = roundDiv (num * a) (den * b) := by
      rw [Nat.mul_right_comm num, Nat.mul_right_comm den, roundDiv_mul_right hc]
    unfold ofRatio
    rw [if_neg hn, if_neg (Nat.mul_ne_zero hn (Nat.ne_of_gt hc))]
    simp only [leadingExponent_mul hn hd hc, hround]

/-- **Quotients with one value are rounded to one double.** -/
theorem ofRatio_congr {num' den' : Nat} (hd : den ≠ 0) (hd' : den' ≠ 0) (h : num * den' = num' * den) :
    ofRatio negative num den = ofRatio negative num' den' := by
  rw [← ofRatio_mul hd (Nat.pos_of_ne_zero hd'), h, Nat.mul_comm den,
    ofRatio_mul hd' (Nat.pos_of_ne_zero hd)]

/-! ### quotients that are doubles -/

/-- A quotient that is not rounded up to a power of two. -/
theorem ofRatio_eq {s : Nat} {e : Int} (hn : num ≠ 0) (he : max (-1074) (leadingExponent num den - 52) = e)
    (hs : roundDiv (num * Nat.pow 2 (-e).toNat) (den * Nat.pow 2 e.toNat) = s) (hc : Canonical s e) :
    ofRatio negative num den = .finite ⟨negative, s, e, hc⟩ := by
  have hcarry : ¬ s = Nat.pow 2 53 := Nat.ne_of_lt hc.2.2.1
  unfold ofRatio
  rw [if_neg hn]
  simp only [he, hs, if_neg hcarry]
  exact dif_pos hc

/-- The value of a double is rounded to the double. -/
theorem ofRatio_canonical {s : Nat} {e : Int} (hc : Canonical s e) :
    ofRatio negative (s * 2 ^ e.toNat) (2 ^ (-e).toNat) = .finite ⟨negative, s, e, hc⟩ := by
  have hup : 2 ^ e.toNat ≠ 0 := Nat.ne_of_gt (Nat.two_pow_pos _)
  have hdown : 2 ^ (-e).toNat ≠ 0 := Nat.ne_of_gt (Nat.two_pow_pos _)
  obtain ⟨hleast, -, hlt, hnormal⟩ := id hc
  have hlt : s < 2 ^ 53 := hlt
  by_cases hs : s = 0
  · subst hs
    obtain hnormal | rfl := hnormal
    · exact absurd hnormal (by decide)
    · rw [Nat.zero_mul]
      rfl
  · have hlead : leadingExponent (s * 2 ^ e.toNat) (2 ^ (-e).toNat) = s.log2 + e := by
      have hle : 2 ^ s.log2 ≤ s := Nat.log2_self_le hs
      have hlt : s < 2 ^ (s.log2 + 1) := Nat.lt_log2_self
      refine leadingExponent_eq (Nat.mul_ne_zero hs hup) hdown ?_ ?_
      · rw [reaches_iff_shifted (a := s.log2 + e.toNat) (b := (-e).toNat) (by omega), Nat.pow_add,
          Nat.mul_comm]
        exact Nat.mul_le_mul_right _ (Nat.mul_le_mul_right _ hle)
      · rw [reaches_iff_shifted (a := s.log2 + 1 + e.toNat) (b := (-e).toNat) (by omega), Nat.pow_add _ _ e.toNat,
          Nat.mul_comm, Nat.mul_le_mul_right_iff (Nat.two_pow_pos _), Nat.mul_le_mul_right_iff (Nat.two_pow_pos _)]
        exact Nat.not_le.mpr hlt
    have hexp : max (-1074) ((s.log2 : Int) + e - 52) = e := by
      have hhigh : s.log2 < 53 := (Nat.log2_lt hs).mpr hlt
      rcases hnormal with hnormal | rfl
      · have hlow : 52 ≤ s.log2 := (Nat.le_log2 hs).mpr hnormal
        omega
      · omega
    have hround : roundDiv (s * 2 ^ e.toNat * Nat.pow 2 (-e).toNat) (2 ^ (-e).toNat * Nat.pow 2 e.toNat) = s := by
      rw [Nat.pow_eq, Nat.pow_eq, Nat.mul_assoc, Nat.mul_comm (2 ^ (-e).toNat)]
      exact roundDiv_mul (Nat.mul_pos (Nat.two_pow_pos _) (Nat.two_pow_pos _)) s
    exact ofRatio_eq (Nat.mul_ne_zero hs hup) (hlead ▸ hexp) hround hc

/-! ### quotients beyond all doubles -/

theorem ofRatio_infinite (hn : num ≠ 0) (hd : den ≠ 0) (h : Reaches num den 1024) :
    ofRatio negative num den = .infinite negative := by
  have hlead := (reaches_iff hn hd).mp h
  unfold ofRatio
  rw [if_neg hn]
  dsimp only
  split <;> exact dif_neg fun hc => by have := hc.2.1; omega

theorem ofRatio_zero (h : 2 * (num * unitsPerOne) < den) :
    ofRatio negative num den = .finite (Finite.zero negative) := by
  by_cases hn : num = 0
  · rw [hn]
    rfl
  have hd : den ≠ 0 := by omega
  have hlt : num * unitsPerOne < den := by omega
  have hlead : leadingExponent num den ≤ -1023 := by
    have hnot : ¬ Reaches num den (-1022) := by
      have hle := Nat.mul_le_mul_left num (pow_le_unitsPerOne (k := 1022) (by decide))
      rw [reaches_iff_shifted (k := -1022) (a := 0) (b := 1022) rfl, Nat.pow_zero, Nat.mul_one]
      omega
    have := mt (reaches_iff hn hd).mpr hnot
    omega
  obtain ⟨u, hu, hunits⟩ := exists_unitsPerOne
  have hexp : (-(-1074 : Int)).toNat = u := by omega
  refine ofRatio_eq hn (e := -1074) (by omega) ?_ (Finite.zero negative).canonical
  unfold roundDiv
  rw [hexp, Nat.pow_eq, ← hunits, show den * Nat.pow 2 (-1074 : Int).toNat = den from Nat.mul_one den,
    Nat.div_eq_of_lt hlt, Nat.mod_eq_of_lt hlt]
  exact if_pos h

/-! ### decimals -/

theorem two_pow_le_ten_pow {a b : Nat} (h : 4 * a ≤ 13 * b) : 2 ^ a ≤ 10 ^ b := by
  have hfourth : (2 ^ a) ^ 4 ≤ (10 ^ b) ^ 4 :=
    calc (2 ^ a) ^ 4 = 2 ^ (4 * a) := by rw [← Nat.pow_mul, Nat.mul_comm]
      _ ≤ 2 ^ (13 * b) := Nat.pow_le_pow_right (by decide) h
      _ = (2 ^ 13) ^ b := Nat.pow_mul ..
      _ ≤ (10 ^ 4) ^ b := Nat.pow_le_pow_left (by decide) b
      _ = (10 ^ b) ^ 4 := by rw [← Nat.pow_mul, ← Nat.pow_mul, Nat.mul_comm]
  exact (Nat.pow_le_pow_iff_left (by decide)).mp hfourth

/-- **A decimal is rounded as the quotient that it is.** -/
theorem ofDecimal_eq {digits : Nat} {exponent : Int} : ofDecimal negative digits exponent =
    ofRatio negative (digits * 10 ^ exponent.toNat) (10 ^ (-exponent).toNat) := by
  have hten (n : Nat) : 10 ^ n ≠ 0 := Nat.ne_of_gt (Nat.pow_pos (by decide))
  unfold ofDecimal
  split
  · next h =>
    rw [h, Nat.zero_mul]
    rfl
  split
  · next hdigits h =>
    have hzero : (-exponent).toNat = 0 := by omega
    refine (ofRatio_infinite (Nat.mul_ne_zero hdigits (hten _)) (hten _) ?_).symm
    rw [reaches_iff_shifted (k := 1024) (a := 1024) (b := 0) rfl, hzero, Nat.pow_zero, Nat.one_mul, Nat.pow_zero,
      Nat.mul_one]
    calc 2 ^ 1024 ≤ 10 ^ exponent.toNat := two_pow_le_ten_pow (by omega)
      _ ≤ digits * 10 ^ exponent.toNat := Nat.le_mul_of_pos_left _ (Nat.pos_of_ne_zero hdigits)
  split
  · next hdigits _ h =>
    have hzero : exponent.toNat = 0 := by omega
    have hlt : digits < 2 ^ (digits.log2 + 1) := Nat.lt_log2_self
    obtain ⟨u, hu, hunits⟩ := exists_unitsPerOne
    refine (ofRatio_zero ?_).symm
    rw [hzero, Nat.pow_zero, Nat.mul_one, hunits]
    calc 2 * (digits * 2 ^ u) = digits * 2 ^ (u + 1) := by
          rw [Nat.pow_succ, Nat.mul_comm _ 2, Nat.mul_left_comm]
      _ < 2 ^ (digits.log2 + 1) * 2 ^ (u + 1) := Nat.mul_lt_mul_of_pos_right hlt (Nat.two_pow_pos _)
      _ = 2 ^ (digits.log2 + 1 + (u + 1)) := (Nat.pow_add ..).symm
      _ ≤ 10 ^ (-exponent).toNat := two_pow_le_ten_pow (by omega)
  · rfl

/-- Zeros at the end of the digits are powers of ten. -/
theorem ofDecimal_shift (digits k : Nat) (exponent : Int) :
    ofDecimal negative (digits * 10 ^ k) exponent = ofDecimal negative digits (exponent + k) := by
  rw [ofDecimal_eq, ofDecimal_eq]
  refine ofRatio_congr (Nat.ne_of_gt (Nat.pow_pos (by decide))) (Nat.ne_of_gt (Nat.pow_pos (by decide))) ?_
  have hexp : k + exponent.toNat + (-(exponent + k)).toNat = (exponent + k).toNat + (-exponent).toNat := by
    omega
  rw [Nat.mul_assoc, Nat.mul_assoc, Nat.mul_assoc, ← Nat.pow_add, ← Nat.pow_add, ← Nat.pow_add, ← Nat.add_assoc,
    hexp]

theorem ofDecimal_zero (exponent : Int) : ofDecimal negative 0 exponent = .finite (Finite.zero negative) :=
  if_pos rfl

/-! ### the decimal of a double -/

namespace Finite

theorem ofDecimal_exactDecimal (x : Finite) :
    ofDecimal x.negative x.exactDecimal.digits x.exactDecimal.exponent = .finite x := by
  obtain ⟨negative, s, e, hc⟩ := x
  have hten (n : Nat) : 10 ^ n ≠ 0 := Nat.ne_of_gt (Nat.pow_pos (by decide))
  refine Eq.trans ?_ (ofRatio_canonical hc)
  rw [ofDecimal_eq]
  refine ofRatio_congr (hten _) (Nat.ne_of_gt (Nat.two_pow_pos _)) ?_
  unfold exactDecimal
  dsimp only
  split
  · next h =>
    have hzero : (-e).toNat = 0 := by omega
    show s * Nat.pow 2 e.toNat * 1 * 2 ^ (-e).toNat = s * 2 ^ e.toNat * 1
    rw [hzero, Nat.pow_eq, Nat.pow_zero, Nat.mul_one]
  · next h =>
    have hzero : e.toNat = 0 := by omega
    have hpow : 5 ^ (-e).toNat * 2 ^ (-e).toNat = 10 ^ (-e).toNat := (Nat.mul_pow 5 2 _).symm
    dsimp only
    rw [hzero, Nat.pow_zero, Nat.pow_zero, Nat.mul_one, Nat.mul_one, Nat.mul_assoc, Nat.pow_eq, hpow]

theorem readsBack_of_decimalOf? {x : Finite} {count : Nat} {d : Decimal} (h : x.decimalOf? count = some d) :
    x.readsBack d = true := by
  unfold decimalOf? at h
  extract_lets scale num den below above at h
  clear_value below above
  split at h
  · next hbelow habove =>
    split at h
    · exact Option.some.inj h ▸ hbelow
    · exact Option.some.inj h ▸ habove
  · next hbelow _ => exact Option.some.inj h ▸ hbelow
  · next _ habove => exact Option.some.inj h ▸ habove
  · cases h

/-- **The decimal of a double reads back as the double.** -/
theorem ofDecimal_shortest {x : Finite} (h : x.significand ≠ 0) :
    ofDecimal x.negative x.shortest.digits x.shortest.exponent = .finite x := by
  unfold shortest
  rw [if_neg h]
  cases hd : (List.range 17).findSome? fun n => x.decimalOf? (n + 1) with
  | none => exact x.ofDecimal_exactDecimal
  | some d =>
    obtain ⟨n, -, hn⟩ := List.exists_of_findSome?_eq_some hd
    exact eq_of_beq (readsBack_of_decimalOf? hn)

theorem digits_shortest {x : Finite} (h : x.significand ≠ 0) : x.shortest.digits ≠ 0 := by
  intro hzero
  have hread := ofDecimal_shortest h
  rw [hzero, ofDecimal_zero] at hread
  exact h (congrArg significand (Double.finite.inj hread)).symm

/-- A double without significand is zero. -/
theorem eq_zero_of_significand {x : Finite} (h : x.significand = 0) : x = zero x.negative := by
  obtain ⟨negative, s, e, hc⟩ := x
  obtain rfl : s = 0 := h
  obtain ⟨-, -, -, hnormal | rfl⟩ := id hc
  · exact absurd hnormal (by decide)
  · rfl

end Finite

end Outfitter.Double
