import Outfitter.Number.Quantity
import Outfitter.Proofs.Number.Double

/-!
Numbers that are doubles exactly.

A quantity that was made from a double counts the same as the double, and is made again from the number by
which it is written (`Quantity.ofNumber?_toValue`).
-/

namespace Outfitter

namespace Double

/-! ### both signs -/

/-- The double with a sign. -/
def signed (negative : Bool) : Double → Double
  | finite x => finite ⟨negative, x.significand, x.exponent, x.canonical⟩
  | infinite _ => infinite negative
  | nan => nan

/-- The sign of a quotient is not looked at when it is rounded. -/
theorem ofRatio_eq_signed (negative : Bool) (num den : Nat) :
    ofRatio negative num den = (ofRatio false num den).signed negative := by
  unfold ofRatio
  split
  · rfl
  · dsimp only
    split
    · split <;> rfl
    · split <;> rfl

theorem truncate_mul {x : Finite} (h : x.isWhole = true) : x.truncate * unitsPerOne = x.units := by
  have hone := unitsPerOne_pos
  obtain ⟨m, hm⟩ := (isWhole_iff x).mp h
  unfold Finite.truncate Finite.units
  rw [hm]
  split
  · rw [Int.natCast_mul, Int.neg_tdiv, Int.mul_tdiv_cancel_left _ (by omega), Int.neg_mul, Int.mul_comm]
  · rw [Int.natCast_mul, Int.mul_tdiv_cancel_left _ (by omega), Int.mul_comm]

/-- The whole number that a whole double is is read as a whole double of the same value. -/
theorem exists_ofInt_truncate {x : Finite} (h : x.isWhole = true) :
    ∃ y, ofInt x.truncate = .finite y ∧ y.isWhole = true ∧ y.truncate = x.truncate := by
  cases hx : x.negative with
  | false => exact ⟨x, ofInt_truncate h hx, h, rfl⟩
  | true =>
    -- the same double without its sign
    let y : Finite := ⟨false, x.significand, x.exponent, x.canonical⟩
    have hy : y.isWhole = true := h
    have hneg : x.truncate = -y.truncate := by
      unfold Finite.truncate Finite.units
      rw [hx, if_pos rfl, if_neg Bool.false_ne_true, Int.neg_tdiv]
      rfl
    have hnonneg : 0 ≤ y.truncate := by
      unfold Finite.truncate Finite.units
      rw [if_neg Bool.false_ne_true]
      exact Int.tdiv_nonneg (Int.natCast_nonneg _) (Int.natCast_nonneg _)
    have hread : ofInt y.truncate = .finite y := ofInt_truncate hy rfl
    by_cases hzero : y.truncate = 0
    · refine ⟨y, ?_, hy, ?_⟩ <;> rw [hneg, hzero]
      · rw [← hread, hzero, Int.neg_zero]
      · rfl
    · refine ⟨x, ?_, h, rfl⟩
      have hlt : decide (y.truncate < 0) = false := by
        rw [decide_eq_false_iff_not]
        omega
      have hlt' : decide (x.truncate < 0) = true := by
        rw [decide_eq_true_iff]
        omega
      unfold ofInt at hread ⊢
      rw [hlt] at hread
      rw [hlt', ofRatio_eq_signed, hneg, Int.natAbs_neg, hread]
      show finite ⟨true, x.significand, x.exponent, x.canonical⟩ = finite x
      rw [← hx]

/-- The double nearest to a whole number is whole. -/
theorem isWhole_of_ofInt_int {n : Int} {x : Finite} (h : ofInt n = .finite x) : x.isWhole = true := by
  have hsigned : ofInt n = (ofInt n.natAbs).signed (n < 0) := by
    have hpositive : ¬ (n.natAbs : Int) < 0 := by omega
    unfold ofInt
    rw [ofRatio_eq_signed, decide_eq_false hpositive, Int.natAbs_natCast]
  rw [hsigned] at h
  cases hr : ofInt n.natAbs with
  | finite y =>
    rw [hr] at h
    have hy : y.isWhole = true := (isWhole_of_ofInt hr).1
    obtain rfl := finite.inj h
    exact hy
  | infinite | nan =>
    rw [hr] at h
    cases h

/-- A natural number of no more than 53 binary digits is a whole double. -/
theorem exists_ofInt_of_lt {n : Nat} (h : n < 2 ^ 53) :
    ∃ x, ofInt n = .finite x ∧ x.isWhole = true ∧ x.truncate = n := by
  have hone := unitsPerOne_pos
  by_cases hn : n = 0
  · subst hn
    have hzero : (Finite.zero false).magnitude = 0 := Nat.zero_mul _
    refine ⟨Finite.zero false, rfl, (isWhole_iff _).mpr (hzero ▸ Nat.dvd_zero _), ?_⟩
    unfold Finite.truncate Finite.units
    rw [hzero]
    exact Int.zero_tdiv _
  · have hlog : n.log2 ≤ 52 := Nat.le_of_lt_succ ((Nat.log2_lt hn).mpr h)
    have hsig := nearestSignificand_of_le hlog
    have hlt : nearestSignificand n < 2 ^ 53 := by
      have hpow : 2 ^ (n.log2 + 1) * 2 ^ (52 - n.log2) = 2 ^ 53 := by
        rw [← Nat.pow_add]
        congr 1
        omega
      rw [hsig, ← hpow]
      exact Nat.mul_lt_mul_of_pos_right Nat.lt_log2_self (Nat.two_pow_pos _)
    have hc : Canonical (nearestSignificand n) ((n.log2 : Int) - 52) :=
      ⟨by omega, by omega, hlt, .inl (two_pow_le_nearestSignificand hn)⟩
    let x : Finite := ⟨false, nearestSignificand n, _, hc⟩
    have hmagnitude : x.magnitude = n * unitsPerOne := by
      show nearestSignificand n * Nat.pow 2 ((n.log2 : Int) - 52 + 1074).toNat = _
      rw [hsig, Nat.mul_assoc, pow_exponent (j := 0) (by omega) hc.1, Nat.pow_zero, Nat.one_mul]
    have hunits : x.units = n * unitsPerOne := by
      show (x.magnitude : Int) = _
      rw [hmagnitude, Int.natCast_mul]
    refine ⟨x, ?_, (isWhole_iff x).mpr ⟨n, by rw [hmagnitude, Nat.mul_comm]⟩, ?_⟩
    · rw [ofInt_eq hn, if_neg (Nat.ne_of_lt hlt), dif_pos hc]
    · unfold Finite.truncate
      rw [hunits, Int.mul_tdiv_cancel _ (by omega)]

/-- The whole part of a double with a fraction has no more than 53 binary digits. -/
theorem floor_lt_of_not_isWhole {x : Finite} (h : x.isWhole = false) : x.floor < (2 ^ 53 : Nat) := by
  have hone := unitsPerOne_pos
  have hexp : x.exponent < 0 := Int.not_le.mp fun h' => by
    rw [isWhole_of_exponent h'] at h
    cases h
  obtain ⟨hleast, -, hlt, -⟩ := x.canonical
  have hpow : Nat.pow 2 (x.exponent + 1074).toNat ≤ unitsPerOne := by
    rw [Nat.pow_eq]
    exact pow_le_unitsPerOne (by omega)
  have hlt : x.significand < 2 ^ 53 := hlt
  have hpos : 0 < Nat.pow 2 (x.exponent + 1074).toNat := Nat.two_pow_pos _
  have hmagnitude : x.magnitude < 2 ^ 53 * unitsPerOne := by
    unfold Finite.magnitude
    exact Nat.lt_of_lt_of_le (Nat.mul_lt_mul_of_pos_right hlt hpos) (Nat.mul_le_mul_left _ hpow)
  have hunits : x.units < ((2 ^ 53 : Nat) : Int) * unitsPerOne := by
    unfold Finite.units
    split <;> omega
  unfold Finite.floor
  exact Int.ediv_lt_of_lt_mul (by omega) hunits

theorem toInt?_eq_some {x : Double} {n : Int} :
    x.toInt? = some n ↔ ∃ y : Finite, x = .finite y ∧ y.isWhole = true ∧ y.truncate = n := by
  constructor
  · intro h
    cases x with
    | finite y =>
      have hread : (if y.isWhole then some y.truncate else none) = some n := h
      split at hread
      · rename_i hw
        exact ⟨y, rfl, hw, Option.some.inj hread⟩
      · cases hread
    | infinite | nan => cases h
  · rintro ⟨y, rfl, hw, rfl⟩
    exact if_pos hw

end Double

/-! ### numbers among the values -/

namespace Value

/-- A finite number that is a double exactly. -/
def isDouble : Value → Bool
  | int n => (Double.ofInt n).toInt? == some n
  | float (.finite _) => true
  | _ => false

/-- What a number counts, in units of the least positive double. -/
def units? : Value → Option Int
  | int n => some (n * Double.unitsPerOne)
  | float (.finite x) => some x.units
  | _ => none

variable {v w : Value}

theorem isDouble_cases (h : v.isDouble = true) : (∃ n, v = .int n) ∨ ∃ x, v = .float (.finite x) := by
  cases v with
  | int n => exact .inl ⟨n, rfl⟩
  | float x =>
    cases x with
    | finite x => exact .inr ⟨x, rfl⟩
    | infinite | nan => cases h
  | _ => cases h

theorem isDouble_int {n : Int} : (int n).isDouble = true ↔
    ∃ x : Double.Finite, Double.ofInt n = .finite x ∧ x.isWhole = true ∧ x.truncate = n :=
  beq_iff_eq.trans Double.toInt?_eq_some

theorem isDouble_truncate {x : Double.Finite} (h : x.isWhole = true) : (int x.truncate).isDouble = true :=
  isDouble_int.mpr (Double.exists_ofInt_truncate h)

/-- A natural number of no more than 53 binary digits is a double exactly. -/
theorem isDouble_of_lt {n : Nat} (h : n < 2 ^ 53) : (int n).isDouble = true :=
  isDouble_int.mpr (Double.exists_ofInt_of_lt h)

theorem units?_isSome (h : v.isDouble = true) : ∃ u, v.units? = some u := by
  rcases isDouble_cases h with ⟨n, rfl⟩ | ⟨x, rfl⟩
  · exact ⟨_, rfl⟩
  · exact ⟨_, rfl⟩

/-- A double and a whole number that count the same are equal by value. -/
theorem sameNumber_of_units {x : Double.Finite} {n : Int} (h : x.units = n * Double.unitsPerOne) :
    sameNumber (.finite x) n = true := by
  have hone := Double.unitsPerOne_pos
  have hw : x.isWhole = true := by
    refine (Double.isWhole_iff x).mpr ?_
    have hdvd : (Double.unitsPerOne : Int) ∣ x.units := ⟨n, by rw [h, Int.mul_comm]⟩
    unfold Double.Finite.units at hdvd
    split at hdvd
    · exact Int.natCast_dvd_natCast.mp (Int.dvd_neg.mp hdvd)
    · exact Int.natCast_dvd_natCast.mp hdvd
  have ht : x.truncate = n := by
    unfold Double.Finite.truncate
    rw [h]
    exact Int.mul_tdiv_cancel _ (by omega)
  exact beq_iff_eq.mpr (Double.toInt?_eq_some.mpr ⟨x, rfl, hw, ht⟩)

/-- Numbers that count the same are equal by value. -/
theorem same_of_units {u : Int} (hv : v.units? = some u) (hw : w.units? = some u) : v.same w = true := by
  have hone := Double.unitsPerOne_pos
  cases v with
  | int n =>
    cases w with
    | int m =>
      have he : m * (Double.unitsPerOne : Int) = n * Double.unitsPerOne :=
        Option.some.inj (hw.trans hv.symm)
      have : n = m := (Int.eq_of_mul_eq_mul_right (by omega) he).symm
      exact beq_iff_eq.mpr this
    | float y =>
      cases y with
      | finite y => exact sameNumber_of_units (Option.some.inj (hw.trans hv.symm))
      | infinite | nan => cases hw
    | _ => cases hw
  | float x =>
    cases x with
    | finite x =>
      cases w with
      | int m => exact sameNumber_of_units (Option.some.inj (hv.trans hw.symm))
      | float y =>
        cases y with
        | finite y =>
          have : x.units = y.units := Option.some.inj (hv.trans hw.symm)
          exact beq_iff_eq.mpr this
        | infinite | nan => cases hw
      | _ => cases hw
    | infinite | nan => cases hv
  | _ => cases hv

end Value

namespace Quantity

/-- The quantity that a number is. -/
def ofNumber? : Value → Option Quantity
  | .int n => ofDouble? (Double.ofInt n)
  | .float x => ofDouble? x
  | _ => none

theorem ofDouble?_finite (x : Double.Finite) :
    ofDouble? (.finite x) = some (if x.isWhole then whole x.truncate else fraction x) :=
  rfl

theorem ofNumber?_int {n : Int} (h : (Value.int n).isDouble = true) : ofNumber? (.int n) = some (whole n) := by
  obtain ⟨x, hx, hw, ht⟩ := Value.isDouble_int.mp h
  show ofDouble? (Double.ofInt n) = _
  rw [hx, ofDouble?_finite, if_pos hw, ht]

variable {x : Double} {q : Quantity}

/-- What a quantity that was made from a double is written by. -/
theorem toValue_cases (h : ofDouble? x = some q) : ∃ y, x = .finite y ∧
    (y.isWhole = true ∧ q = whole y.truncate ∨ y.isWhole = false ∧ q = fraction y) := by
  cases x with
  | finite x =>
    obtain rfl : (if x.isWhole then whole x.truncate else fraction x) = q := Option.some.inj h
    refine ⟨x, rfl, ?_⟩
    cases hw : x.isWhole with
    | true => exact .inl ⟨rfl, if_pos rfl⟩
    | false => exact .inr ⟨rfl, if_neg Bool.false_ne_true⟩
  | infinite | nan => cases h

theorem isDouble_toValue (h : ofDouble? x = some q) : q.toValue.isDouble = true := by
  obtain ⟨y, rfl, ⟨hw, rfl⟩ | ⟨-, rfl⟩⟩ := toValue_cases h
  · exact Value.isDouble_truncate hw
  · rfl

/-- A quantity that was made from a double is made again from the number by which it is written. -/
theorem ofNumber?_toValue (h : ofDouble? x = some q) : ofNumber? q.toValue = some q := by
  obtain ⟨y, rfl, ⟨hw, rfl⟩ | ⟨hw, rfl⟩⟩ := toValue_cases h
  · exact ofNumber?_int (Value.isDouble_truncate hw)
  · show ofDouble? (.finite y) = _
    rw [ofDouble?_finite, hw, if_neg Bool.false_ne_true]

/-- The whole part of a double that is not negative is a double. -/
theorem isDouble_floor (h : ofDouble? x = some q) (hq : 0 ≤ q.floor) : (Value.int q.floor).isDouble = true := by
  obtain ⟨y, rfl, ⟨hw, rfl⟩ | ⟨hw, rfl⟩⟩ := toValue_cases h
  · exact Value.isDouble_truncate hw
  · have hlt := Double.floor_lt_of_not_isWhole hw
    obtain ⟨n, hn⟩ := Int.eq_ofNat_of_zero_le hq
    rw [hn]
    rw [show (fraction y).floor = y.floor from rfl] at hn
    exact Value.isDouble_of_lt (by omega)

/-- The quantity that an exact number is counts the same. -/
theorem exists_ofNumber? {v : Value} (h : v.isDouble = true) :
    ∃ q, ofNumber? v = some q ∧ q.toValue.isDouble = true ∧ q.toValue.units? = v.units? := by
  rcases Value.isDouble_cases h with ⟨n, rfl⟩ | ⟨x, rfl⟩
  · exact ⟨whole n, ofNumber?_int h, h, rfl⟩
  · refine ⟨_, ofDouble?_finite x, isDouble_toValue (ofDouble?_finite x), ?_⟩
    cases hw : x.isWhole with
    | true => exact congrArg some (Double.truncate_mul hw)
    | false => rfl

end Quantity

end Outfitter
