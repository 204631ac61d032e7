import Mathlib.Algebra.Group.Nat.Defs
import Outfitter.Number.Double

/-!
Whole numbers as doubles.

A natural number that is not beyond all doubles is rounded to a double that is whole again
(`isWhole_of_ofInt`), and a whole double is the one nearest to the number that it is (`ofInt_truncate`).
So a price bound may be written and read as often as one likes after it has been rounded once.
-/

namespace Outfitter.Double

/-! ### quotients by powers of two -/

theorem roundDiv_one (n : Nat) : roundDiv n 1 = n := by
  unfold roundDiv
  simp [Nat.mod_one]

theorem roundDiv_mul {d : Nat} (hd : 0 < d) (n : Nat) : roundDiv (n * d) d = n := by
  unfold roundDiv
  simp [Nat.mul_mod_left, Nat.mul_div_cancel n hd, hd]

theorem leadingExponent_one {n : Nat} (hn : n ≠ 0) : leadingExponent n 1 = (n.log2 : Int) := by
  have hle : 2 ^ n.log2 ≤ n := Nat.log2_self_le hn
  have hone : Nat.log2 1 = 0 := rfl
  unfold leadingExponent
  simp only [hone, Int.natCast_zero, Int.sub_zero, Int.toNat_natCast, Nat.one_mul]
  rw [if_pos]
  have hneg : (-(n.log2 : Int)).toNat = 0 := by omega
  rw [hneg, Nat.pow_eq, Nat.pow_eq, Nat.pow_zero, Nat.mul_one]
  exact hle

/-! ### rounding a natural number -/

/-- The significand of the double nearest to a natural number, before a carry. -/
def nearestSignificand (n : Nat) : Nat :=
  roundDiv (n * 2 ^ (52 - n.log2)) (2 ^ (n.log2 - 52))

/-- The double nearest to a natural number, by the number of its binary digits. -/
theorem ofInt_eq {n : Nat} (hn : n ≠ 0) : ofInt n =
    if nearestSignificand n = 2 ^ 53 then
      if h : Canonical (2 ^ 52) ((n.log2 : Int) - 51) then .finite ⟨false, 2 ^ 52, _, h⟩ else .infinite false
    else if h : Canonical (nearestSignificand n) ((n.log2 : Int) - 52) then
      .finite ⟨false, nearestSignificand n, _, h⟩
    else .infinite false := by
  have hmax : max (-1074) ((n.log2 : Int) - 52) = (n.log2 : Int) - 52 := by omega
  have hup : (-((n.log2 : Int) - 52)).toNat = 52 - n.log2 := by omega
  have hdown : ((n.log2 : Int) - 52).toNat = n.log2 - 52 := by omega
  have hsig : roundDiv (n * Nat.pow 2 (52 - n.log2)) (1 * Nat.pow 2 (n.log2 - 52)) =
      nearestSignificand n := by
    rw [Nat.one_mul]
    rfl
  have hnegative : decide ((n : Int) < 0) = false := by
    rw [decide_eq_false_iff_not]
    omega
  have hcarry : (n.log2 : Int) - 52 + 1 = (n.log2 : Int) - 51 := by omega
  unfold ofInt ofRatio
  rw [hnegative, Int.natAbs_natCast, if_neg hn]
  simp only [leadingExponent_one hn, hmax, hup, hdown, hsig]
  by_cases h : nearestSignificand n = 2 ^ 53
  · rw [if_pos h, ← hcarry]
    simp only [if_pos (show nearestSignificand n = Nat.pow 2 53 from h)]
    rfl
  · rw [if_neg h]
    simp only [if_neg (show ¬ nearestSignificand n = Nat.pow 2 53 from h)]

theorem nearestSignificand_of_le {n : Nat} (h : n.log2 ≤ 52) :
    nearestSignificand n = n * 2 ^ (52 - n.log2) := by
  unfold nearestSignificand
  rw [Nat.sub_eq_zero_of_le h, Nat.pow_zero, roundDiv_one]

theorem isWhole_iff (x : Finite) : x.isWhole = true ↔ unitsPerOne ∣ x.magnitude := by
  unfold Finite.isWhole
  rw [decide_eq_true_iff]
  exact (Nat.dvd_iff_mod_eq_zero ..).symm

/-- The number of units in one is a power of two, whose exponent is not looked into. -/
theorem exists_unitsPerOne : ∃ u, u = 1074 ∧ unitsPerOne = 2 ^ u :=
  ⟨_, rfl, Nat.pow_eq⟩

theorem unitsPerOne_pos : 0 < unitsPerOne := by
  obtain ⟨u, -, h⟩ := exists_unitsPerOne
  exact h ▸ Nat.two_pow_pos u

theorem pow_le_unitsPerOne {k : Nat} (hk : k ≤ 1074) : 2 ^ k ≤ unitsPerOne := by
  obtain ⟨u, hu, h⟩ := exists_unitsPerOne
  exact h ▸ Nat.pow_le_pow_right (by decide) (hu ▸ hk)

/-- The power of two in a magnitude. -/
theorem pow_exponent {e : Int} {k j : Nat} (h : (k : Int) + e = j) (he : -1074 ≤ e) :
    2 ^ k * Nat.pow 2 (e + 1074).toNat = 2 ^ j * unitsPerOne := by
  obtain ⟨u, hu, hone⟩ := exists_unitsPerOne
  have : k + (e + 1074).toNat = j + u := by omega
  rw [hone, Nat.pow_eq, ← Nat.pow_add, ← Nat.pow_add, this]

theorem isWhole_of_exponent {x : Finite} (h : 0 ≤ x.exponent) : x.isWhole = true := by
  rw [isWhole_iff]
  have hpow := pow_exponent (e := x.exponent) (k := 0) (j := x.exponent.toNat) (by omega) (by omega)
  rw [Nat.pow_zero, Nat.one_mul] at hpow
  unfold Finite.magnitude
  rw [hpow, ← Nat.mul_assoc]
  exact Nat.dvd_mul_left ..

/-- A natural number that is not beyond all doubles is rounded to a natural number. -/
theorem isWhole_of_ofInt {n : Nat} {x : Finite} (h : ofInt n = .finite x) :
    x.isWhole = true ∧ x.negative = false := by
  by_cases hn : n = 0
  · subst hn
    obtain rfl : Finite.zero false = x := Double.finite.inj h
    exact ⟨by rw [isWhole_iff]; exact ⟨0, by simp [Finite.magnitude, Finite.zero]⟩, rfl⟩
  · have hlt : n < 2 ^ (n.log2 + 1) := Nat.lt_log2_self
    rw [ofInt_eq hn] at h
    split at h
    · rename_i hcarry
      split at h
      · obtain rfl := Double.finite.inj h
        refine ⟨isWhole_of_exponent ?_, rfl⟩
        -- only a number of more digits than a significand has is carried
        rcases Nat.lt_or_ge 52 n.log2 with hl | hl
        · show (0 : Int) ≤ (n.log2 : Int) - 51
          omega
        · rw [nearestSignificand_of_le hl] at hcarry
          have hpow : 2 ^ (n.log2 + 1) * 2 ^ (52 - n.log2) = 2 ^ 53 := by
            rw [← Nat.pow_add]
            congr 1
            omega
          have := Nat.mul_lt_mul_of_pos_right hlt (Nat.two_pow_pos (52 - n.log2))
          omega
      · cases h
    · split at h
      · obtain rfl := Double.finite.inj h
        refine ⟨?_, rfl⟩
        rcases Nat.lt_or_ge n.log2 52 with hl | hl
        · rw [isWhole_iff]
          unfold Finite.magnitude
          have hpow := pow_exponent (e := (n.log2 : Int) - 52) (k := 52 - n.log2) (j := 0) (by omega)
            (by omega)
          refine ⟨n, ?_⟩
          show nearestSignificand n * Nat.pow 2 ((n.log2 : Int) - 52 + 1074).toNat = _
          rw [nearestSignificand_of_le (Nat.le_of_lt hl), Nat.mul_assoc, hpow, Nat.pow_zero, Nat.one_mul,
            Nat.mul_comm]
        · refine isWhole_of_exponent ?_
          show (0 : Int) ≤ (n.log2 : Int) - 52
          omega
      · cases h

/-- A natural number that is not beyond all doubles has no more than 1024 binary digits. -/
theorem lt_of_ofInt {n : Nat} {x : Finite} (h : ofInt n = .finite x) : n < 2 ^ (1023 + 1) := by
  by_cases hn : n = 0
  · rw [hn]
    exact Nat.two_pow_pos _
  · have hlog : n.log2 ≤ 1023 := by
      rw [ofInt_eq hn] at h
      split at h
      · split at h
        · rename_i hc
          have := hc.2.1
          omega
        · cases h
      · split at h
        · rename_i hc
          have := hc.2.1
          omega
        · cases h
    exact Nat.lt_of_lt_of_le Nat.lt_log2_self (Nat.pow_le_pow_right (by decide) (by omega))

/-! ### the greatest double -/

/-- The greatest double. -/
def largest : Nat :=
  (2 ^ 53 - 1) * Nat.pow 2 971

/-- The exponent of the greatest double, which is not looked into. -/
theorem exists_largest : ∃ k, k = 970 ∧ largest = (2 ^ 53 - 1) * 2 ^ (k + 1) :=
  ⟨_, rfl, congrArg ((2 ^ 53 - 1) * ·) Nat.pow_eq⟩

theorem le_roundDiv (num den : Nat) : num / den ≤ roundDiv num den ∧ roundDiv num den ≤ num / den + 1 := by
  unfold roundDiv
  dsimp only
  split
  · omega
  · split
    · omega
    · split <;> omega

/-- A quotient that is less than half a unit below the next one is not rounded up. -/
theorem roundDiv_lt {num den q : Nat} (hden : 0 < den) (h : 2 * num + den < 2 * (q * den)) :
    roundDiv num den < q := by
  have hq : num / den < q := (Nat.div_lt_iff_lt_mul hden).mpr (by omega)
  have hdiv := Nat.div_add_mod num den
  rcases Nat.lt_or_ge (num / den + 1) q with hlt | hge
  · have := (le_roundDiv num den).2
    omega
  · have hlast : q = num / den + 1 := by omega
    subst hlast
    have hr : 2 * (num % den) < den := by
      rw [Nat.add_mul, Nat.one_mul, Nat.mul_comm (num / den)] at h
      omega
    unfold roundDiv
    rw [if_pos hr]
    exact Nat.lt_succ_self _

theorem two_pow_le_nearestSignificand {n : Nat} (hn : n ≠ 0) : 2 ^ 52 ≤ nearestSignificand n := by
  have hle : 2 ^ n.log2 ≤ n := Nat.log2_self_le hn
  refine Nat.le_trans ?_ (le_roundDiv ..).1
  rw [Nat.le_div_iff_mul_le (Nat.two_pow_pos _)]
  calc 2 ^ 52 * 2 ^ (n.log2 - 52) = 2 ^ n.log2 * 2 ^ (52 - n.log2) := by
        rw [← Nat.pow_add, ← Nat.pow_add]
        congr 1
        omega
    _ ≤ n * 2 ^ (52 - n.log2) := Nat.mul_le_mul_right _ hle

theorem nearestSignificand_le (n : Nat) : nearestSignificand n ≤ 2 ^ 53 := by
  have hlt : n < 2 ^ (n.log2 + 1) := Nat.lt_log2_self
  refine Nat.le_trans (le_roundDiv ..).2 ?_
  refine (Nat.div_lt_iff_lt_mul (Nat.two_pow_pos _)).mpr ?_
  calc n * 2 ^ (52 - n.log2) < 2 ^ (n.log2 + 1) * 2 ^ (52 - n.log2) :=
        Nat.mul_lt_mul_of_pos_right hlt (Nat.two_pow_pos _)
    _ = 2 ^ 53 * 2 ^ (n.log2 - 52) := by
        rw [← Nat.pow_add, ← Nat.pow_add]
        congr 1
        omega

/-- A natural number that is not above the greatest double by much is not beyond all doubles. -/
theorem exists_ofInt {n : Nat} (h : n ≤ largest + 20) : ∃ x, ofInt n = .finite x := by
  by_cases hn : n = 0
  · exact ⟨_, by rw [hn]; rfl⟩
  obtain ⟨k, hk, hlargest⟩ := exists_largest
  have htwenty : 2 ^ 5 ≤ 2 ^ k := Nat.pow_le_pow_right (by decide) (by omega)
  have hpow : 2 ^ (k + 1) = 2 * 2 ^ k := by rw [Nat.pow_succ, Nat.mul_comm]
  rw [hlargest, hpow] at h
  have hlog : n.log2 ≤ k + 53 := by
    have : n < 2 ^ (k + 53 + 1) := by
      rw [Nat.pow_add, Nat.pow_add]
      omega
    exact Nat.le_of_lt_succ ((Nat.log2_lt hn).mpr this)
  rw [ofInt_eq hn]
  split
  · next hcarry =>
    have hsmall : n.log2 ≤ k + 52 := by
      apply Nat.le_of_lt_succ
      apply Nat.lt_of_le_of_ne hlog
      intro htop
      have hlt : nearestSignificand n < 2 ^ 53 := by
        unfold nearestSignificand
        rw [Nat.sub_eq_zero_of_le (show 52 ≤ n.log2 by omega), Nat.pow_zero, Nat.mul_one]
        have hexp : n.log2 - 52 = k + 1 := by omega
        rw [hexp, hpow]
        exact roundDiv_lt (by omega) (by omega)
      omega
    have hc : Canonical (2 ^ 52) ((n.log2 : Int) - 51) :=
      ⟨by omega, by omega, by decide, .inl (Nat.le_refl _)⟩
    exact ⟨_, dif_pos hc⟩
  · next hcarry =>
    have hc : Canonical (nearestSignificand n) ((n.log2 : Int) - 52) :=
      ⟨by omega, by omega, Nat.lt_of_le_of_ne (nearestSignificand_le n) hcarry,
        .inl (two_pow_le_nearestSignificand hn)⟩
    exact ⟨_, dif_pos hc⟩

/-! ### whole doubles -/

/-- A whole double has all bits of its significand, unless it is zero. -/
theorem significand_of_isWhole {x : Finite} (hw : x.isWhole = true) (hx : x.magnitude ≠ 0) :
    2 ^ 52 ≤ x.significand := by
  obtain ⟨-, -, hlt, hnormal | hleast⟩ := x.canonical
  · exact hnormal
  · -- with the least exponent the significand is the magnitude, and less than one
    obtain ⟨m, hm⟩ := (isWhole_iff x).mp hw
    have hmag : x.magnitude = x.significand := by
      unfold Finite.magnitude
      rw [hleast]
      exact Nat.mul_one _
    have hone : unitsPerOne ≤ x.magnitude :=
      Nat.le_of_dvd (Nat.pos_of_ne_zero hx) ((isWhole_iff x).mp hw)
    have hbig : 2 ^ 53 ≤ unitsPerOne := pow_le_unitsPerOne (by decide)
    have hlt' : x.significand < 2 ^ 53 := hlt
    omega

/-- The number of binary digits of a whole double. -/
theorem log2_of_isWhole {x : Finite} (hw : x.isWhole = true) {m : Nat} (hm : x.magnitude = unitsPerOne * m)
    (h : m ≠ 0) : (m.log2 : Int) = 52 + x.exponent := by
  have hone := unitsPerOne_pos
  have hx : x.magnitude ≠ 0 := hm ▸ Nat.mul_ne_zero (Nat.ne_of_gt hone) h
  have hs := significand_of_isWhole hw hx
  obtain ⟨hleast, -, hlt, -⟩ := x.canonical
  have hlt : x.significand < 2 ^ 53 := hlt
  unfold Finite.magnitude at hm
  have hpos : 0 < Nat.pow 2 (x.exponent + 1074).toNat := Nat.two_pow_pos _
  have hlow := Nat.mul_le_mul_right (Nat.pow 2 (x.exponent + 1074).toNat) hs
  have hhigh := Nat.mul_lt_mul_of_pos_right hlt hpos
  rw [hm] at hlow hhigh
  have hexp : -52 ≤ x.exponent := by
    apply Decidable.byContradiction
    intro hsmall
    -- the magnitude would be less than one
    have hle : 2 ^ (53 + (x.exponent + 1074).toNat) ≤ unitsPerOne := pow_le_unitsPerOne (by omega)
    rw [Nat.pow_add] at hle
    have := Nat.lt_of_lt_of_le hhigh hle
    have := Nat.le_mul_of_pos_right unitsPerOne (Nat.pos_of_ne_zero h)
    omega
  rw [pow_exponent (j := (52 + x.exponent).toNat) (by omega) hleast, Nat.mul_comm] at hlow
  rw [pow_exponent (j := (52 + x.exponent).toNat + 1) (by omega) hleast, Nat.mul_comm unitsPerOne] at hhigh
  have hlog : m.log2 = (52 + x.exponent).toNat :=
    (Nat.log2_eq_iff h).mpr ⟨Nat.le_of_mul_le_mul_left hlow hone, Nat.lt_of_mul_lt_mul_right hhigh⟩
  omega

theorem natAbs_truncate_lt {x : Finite} {most : Nat} (h : x.units.natAbs < most * unitsPerOne) :
    x.truncate.natAbs < most := by
  unfold Finite.truncate
  rw [Int.natAbs_tdiv, Int.natAbs_natCast]
  exact (Nat.div_lt_iff_lt_mul unitsPerOne_pos).mpr h

/-- A whole double that is not negative is the double nearest to the number that it is. -/
theorem ofInt_truncate {x : Finite} (hw : x.isWhole = true) (hx : x.negative = false) :
    ofInt x.truncate = .finite x := by
  obtain ⟨m, hm⟩ := (isWhole_iff x).mp hw
  have hone := unitsPerOne_pos
  have htruncate : x.truncate = (m : Int) := by
    unfold Finite.truncate Finite.units
    rw [hx, hm, if_neg Bool.false_ne_true, Int.natCast_mul]
    exact Int.mul_tdiv_cancel_left _ (by omega)
  rw [htruncate]
  obtain ⟨negative, s, e, hc⟩ := x
  obtain rfl : negative = false := hx
  by_cases h : m = 0
  · subst h
    have hs : s = 0 := by
      rcases Nat.mul_eq_zero.mp (hm.trans (Nat.mul_zero _)) with hs | hs
      · exact hs
      · exact absurd hs (Nat.ne_of_gt (Nat.two_pow_pos _))
    subst hs
    obtain ⟨-, -, -, hnormal | rfl⟩ := id hc
    · exact absurd hnormal (by decide)
    · rfl
  · have hlog := log2_of_isWhole hw hm h
    have hsmall : s < 2 ^ 53 := hc.2.2.1
    have hmag : s * Nat.pow 2 (e + 1074).toNat = unitsPerOne * m := hm
    have hlog' : (m.log2 : Int) = 52 + e := hlog
    have hnearest : nearestSignificand m = s := by
      rcases Nat.le_total m.log2 52 with hl | hl
      · rw [nearestSignificand_of_le hl]
        apply Nat.eq_of_mul_eq_mul_left hone
        rw [← Nat.mul_assoc, ← hmag, Nat.mul_assoc, Nat.mul_comm (Nat.pow ..),
          pow_exponent (j := 0) (by omega) hc.1, Nat.pow_zero, Nat.one_mul, Nat.mul_comm]
      · have hpow := pow_exponent (e := e) (k := 0) (j := m.log2 - 52) (by omega) hc.1
        rw [Nat.pow_zero, Nat.one_mul] at hpow
        have hms : m = s * 2 ^ (m.log2 - 52) := by
          apply Nat.eq_of_mul_eq_mul_left hone
          rw [← hmag, hpow, ← Nat.mul_assoc, Nat.mul_comm]
        unfold nearestSignificand
        rw [Nat.sub_eq_zero_of_le hl, Nat.pow_zero, Nat.mul_one]
        have hround := roundDiv_mul (Nat.two_pow_pos (m.log2 - 52)) s
        rw [← hms] at hround
        exact hround
    have hexp : (m.log2 : Int) - 52 = e := by omega
    rw [ofInt_eq h, hnearest, if_neg (Nat.ne_of_lt hsmall)]
    simp only [hexp]
    rw [dif_pos hc]

end Outfitter.Double
