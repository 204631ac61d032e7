import Mathlib.Data.List.Basic
import Outfitter.Number.Numeral
import Outfitter.Number.Shortest
import Outfitter.Proofs.Number.Rounding
import Outfitter.Proofs.Text.Clean
import Outfitter.Text.Digit
import Outfitter.Text.Quoted

/-!
Digits of numbers.

The digits by which a number is written count what the number is (`ofDigits_toDigits`), and so do the hexadecimal
ones (`ofHexDigits_hex`). A decimal is written by the digits up to its last zeros, and those stand for powers of ten
(`significantDigits_eq`).

A text of digits has no margin, no sign and no exponent, and it is none of the words for infinity or for what is not
a number. So it is read as the double nearest to the number that the digits count (`double?_of_areDigits`), and a
number as the double nearest to itself (`double?_toString`).
-/

namespace Outfitter

namespace Text

/-! ### digits of ASCII -/

/-- The text is made of digits of ASCII. -/
def AreDigits (text : List Char) : Prop :=
  ∀ c ∈ text, c.isDigit = true

theorem AreDigits.append {xs ys : List Char} (hx : AreDigits xs) (hy : AreDigits ys) : AreDigits (xs ++ ys) :=
  fun c hc => (List.mem_append.mp hc).elim (hx c) (hy c)

theorem areDigits_zeros (n : Nat) : AreDigits (List.replicate n '0') :=
  fun _ hc => List.eq_of_mem_replicate hc ▸ rfl

theorem areDigits_toDigits (n : Nat) : AreDigits (Nat.toDigits 10 n) :=
  fun _ hc => Nat.isDigit_of_mem_toDigits (by decide) (by decide) hc

theorem toNat_of_isDigit {c : Char} (h : c.isDigit = true) : 48 ≤ c.toNat ∧ c.toNat < 58 := by
  unfold Char.isDigit at h
  rw [Bool.and_eq_true, decide_eq_true_iff, decide_eq_true_iff] at h
  exact ⟨UInt32.le_iff_toNat_le.mp h.1, Nat.lt_succ_of_le (UInt32.le_iff_toNat_le.mp h.2)⟩

theorem digitValue_of_isDigit {c : Char} (h : c.isDigit = true) : digitValue? c = some (c.toNat - '0'.toNat) := by
  obtain ⟨hlow, hhigh⟩ := toNat_of_isDigit h
  have hfirst : (48 :: digitZeros.tail).find? (fun z => z ≤ c.toNat && c.toNat < z + 10) = some 48 := by
    refine List.find?_cons_of_pos ?_
    rw [Bool.and_eq_true, decide_eq_true_iff, decide_eq_true_iff]
    exact ⟨hlow, hhigh⟩
  exact congrArg (Option.map (c.toNat - ·)) hfirst

/-! ### what digits count -/

theorem ofDigits_append (xs ys : List Char) :
    ofDigits (xs ++ ys) = ofDigits xs * 10 ^ ys.length + ofDigits ys := by
  have hfold : ∀ n, ys.foldl (fun n c => 10 * n + (digitValue? c).getD 0) n = n * 10 ^ ys.length + ofDigits ys := by
    unfold ofDigits
    induction ys with
    | nil => exact fun n => (Nat.mul_one n).symm
    | cons c ys ih =>
      intro n
      rw [List.foldl_cons, List.foldl_cons, ih, ih (10 * 0 + _), List.length_cons, Nat.pow_succ,
        Nat.mul_zero, Nat.zero_add, Nat.add_mul, Nat.mul_comm 10 n, Nat.mul_assoc, Nat.mul_comm 10, Nat.add_assoc]
  rw [ofDigits, List.foldl_append]
  exact hfold _

theorem ofDigits_zeros (n : Nat) : ofDigits (List.replicate n '0') = 0 := by
  induction n with
  | zero => rfl
  | succ n ih =>
    rw [List.replicate_succ', ofDigits_append, ih]
    rfl

/-- Zeros in front count nothing. -/
theorem ofDigits_zeros_append (n : Nat) (digits : List Char) :
    ofDigits (List.replicate n '0' ++ digits) = ofDigits digits := by
  rw [ofDigits_append, ofDigits_zeros, Nat.zero_mul, Nat.zero_add]

/-- Zeros at the end are powers of ten. -/
theorem ofDigits_append_zeros (digits : List Char) (n : Nat) :
    ofDigits (digits ++ List.replicate n '0') = ofDigits digits * 10 ^ n := by
  rw [ofDigits_append, ofDigits_zeros, List.length_replicate, Nat.add_zero]

theorem ofDigits_eq_ofDigitChars {digits : List Char} (h : AreDigits digits) :
    ofDigits digits = Nat.ofDigitChars 10 digits 0 := by
  have hfold : ∀ n, digits.foldl (fun n c => 10 * n + (digitValue? c).getD 0) n =
      digits.foldl (fun n c => 10 * n + (c.toNat - '0'.toNat)) n := by
    induction digits with
    | nil => exact fun _ => rfl
    | cons c digits ih =>
      intro n
      obtain ⟨hc, hdigits⟩ := List.forall_mem_cons.mp h
      rw [List.foldl_cons, List.foldl_cons, digitValue_of_isDigit hc]
      exact ih hdigits _
  rw [Nat.ofDigitChars_eq_foldl]
  exact hfold 0

/-- **The digits by which a number is written count the number.** -/
theorem ofDigits_toDigits (n : Nat) : ofDigits (Nat.toDigits 10 n) = n := by
  rw [ofDigits_eq_ofDigitChars (areDigits_toDigits n), Nat.ofDigitChars_ten_toDigits]

theorem head?_toDigits {n : Nat} (h : n ≠ 0) : (Nat.toDigits 10 n).head? ≠ some '0' := by
  induction n using Nat.strongRecOn with
  | ind n ih =>
    rw [Nat.toDigits_eq_if (by decide)]
    split
    · intro he
      exact h (Nat.digitChar_eq_zero.mp (Option.some.inj he))
    · rw [List.head?_append_of_ne_nil _ Nat.toDigits_ne_nil]
      exact ih (n / 10) (by omega) (by omega)

/-! ### hexadecimal digits -/

/-- The number that hexadecimal digits write; a character that is no such digit counts as zero. -/
def ofHexDigits (digits : List Char) : Nat :=
  digits.foldl (fun n c => 16 * n + (hexValue? c).getD 0) 0

theorem hexValue?_digitChar {n : Nat} (h : n < 16) : hexValue? n.digitChar = some n := by
  have : ∀ n < 16, hexValue? n.digitChar = some n := by decide
  exact this n h

theorem ofHexDigits_toDigits (n : Nat) : ofHexDigits (Nat.toDigits 16 n) = n := by
  induction n using Nat.strongRecOn with
  | ind n ih =>
    by_cases h : n < 16
    · rw [Nat.toDigits_of_lt_base h]
      show 16 * 0 + (hexValue? n.digitChar).getD 0 = n
      rw [hexValue?_digitChar h, Nat.mul_zero, Nat.zero_add, Option.getD_some]
    · have hrest := ih (n / 16) (by omega)
      unfold ofHexDigits at hrest ⊢
      rw [Nat.toDigits_of_base_le (by decide) (by omega), List.foldl_append, hrest, List.foldl_cons, List.foldl_nil,
        hexValue?_digitChar (Nat.mod_lt n (by decide)), Option.getD_some]
      omega

theorem ofHexDigits_hex (width n : Nat) : ofHexDigits (hex width n) = n := by
  have hzeros : ∀ k, ofHexDigits (List.replicate k '0') = 0 := by
    intro k
    induction k with
    | zero => rfl
    | succ k ih => exact ih
  have hdigits := ofHexDigits_toDigits n
  unfold hex ofHexDigits at *
  rw [List.foldl_append, hzeros]
  exact hdigits

/-- **No two numbers have the same hexadecimal digits.** -/
theorem hex_injective {width m n : Nat} (h : hex width m = hex width n) : m = n := by
  have hvalue := congrArg ofHexDigits h
  rwa [ofHexDigits_hex, ofHexDigits_hex] at hvalue

/-! ### digits that stand by themselves -/

variable {text digits : List Char}

/-- A digit of ASCII is no blank. -/
theorem not_blank_of_isDigit {c : Char} (h : c.isDigit = true) : isBlank c = false := by
  obtain ⟨hlow, hhigh⟩ := toNat_of_isDigit h
  simp only [isBlank, Bool.or_eq_false_iff, Bool.and_eq_false_iff, decide_eq_false_iff_not, beq_eq_false_iff_ne]
  omega

theorem trim_of_areDigits (h : AreDigits text) : trim text = text :=
  trim_of_trimmed ⟨fun c hc => not_blank_of_isDigit (h c (List.mem_of_head? hc)),
    fun c hc => not_blank_of_isDigit (h c (List.mem_of_getLast? hc))⟩

/-- The first of some digits is neither a sign nor a point. -/
theorem head_of_areDigits (rest : List Char) (hd : AreDigits digits) (hne : digits ≠ []) {c : Char}
    (hc : c.isDigit = false) : (digits ++ rest).head? ≠ some c := by
  rw [List.head?_append_of_ne_nil digits hne, List.head?_eq_some_head hne]
  intro h
  have := hd _ (List.head_mem hne)
  rw [Option.some.inj h, hc] at this
  cases this

end Text

namespace Double

open Text

/-- A decimal is written by digits of which the first is no zero, and by zeros. -/
theorem significantDigits_eq {d : Decimal} (h : d.digits ≠ 0) : ∃ digits k,
    significantDigits d = (digits, (digits.length : Int) + (d.exponent + (k : Nat))) ∧ digits ≠ [] ∧
      AreDigits digits ∧ digits.head? ≠ some '0' ∧ d.digits = ofDigits digits * 10 ^ k := by
  obtain ⟨kept, hkept⟩ : ∃ kept, kept = ((Nat.toDigits 10 d.digits).reverse.dropWhile (· == '0')).reverse :=
    ⟨_, rfl⟩
  obtain ⟨k, hk⟩ : ∃ k, Nat.toDigits 10 d.digits = kept ++ List.replicate k '0' := by
    refine ⟨((Nat.toDigits 10 d.digits).reverse.takeWhile (· == '0')).length, ?_⟩
    have hzeros : (Nat.toDigits 10 d.digits).reverse.takeWhile (· == '0') =
        List.replicate ((Nat.toDigits 10 d.digits).reverse.takeWhile (· == '0')).length '0' :=
      List.eq_replicate_iff.mpr ⟨rfl, fun c hc => eq_of_beq (List.all_eq_true.mp List.all_takeWhile c hc)⟩
    have hsplit := List.takeWhile_append_dropWhile (p := (· == '0')) (l := (Nat.toDigits 10 d.digits).reverse)
    rw [hkept, ← List.reverse_inj, List.reverse_append, List.reverse_reverse, List.reverse_replicate, ← hzeros,
      hsplit]
  have hvalue : d.digits = ofDigits kept * 10 ^ k := by
    rw [← ofDigits_append_zeros, ← hk, ofDigits_toDigits]
  have hne : kept ≠ [] := by
    rintro rfl
    exact h (hvalue.trans (Nat.zero_mul _))
  refine ⟨kept, k, ?_, hne, ?_, ?_, hvalue⟩
  · unfold significantDigits
    dsimp only
    rw [← hkept, if_neg (mt List.isEmpty_iff.mp hne), hk, List.length_append, List.length_replicate]
    congr 1
    omega
  · intro c hc
    exact areDigits_toDigits d.digits c (hk ▸ List.mem_append_left _ hc)
  · rw [← List.head?_append_of_ne_nil kept hne, ← hk]
    exact head?_toDigits h

end Double

/-! ### numbers that are read from their digits -/

namespace Numeral

open Text

variable {text digits : List Char}

theorem sign_of_areDigits (rest : List Char) (hd : AreDigits digits) (hne : digits ≠ []) :
    sign (digits ++ rest) = (false, digits ++ rest) := by
  have hminus := head_of_areDigits rest hd hne (c := '-') rfl
  have hplus := head_of_areDigits rest hd hne (c := '+') rfl
  unfold sign
  split
  · next h => exact absurd (congrArg List.head? h) hminus
  · next h => exact absurd (congrArg List.head? h) hplus
  · rfl

/-- Digits are no margin. -/
theorem trimBy_isMargin_of_areDigits (h : AreDigits text) : trimBy isMargin text = text := by
  have hmargin : ∀ c ∈ text, isMargin c = false := by
    intro c hc
    unfold isMargin
    rw [not_blank_of_isDigit (h c hc), Bool.false_and]
  exact trimBy_eq_self (fun c hc => hmargin c (List.mem_of_head? hc)) fun c hc => hmargin c (List.mem_of_getLast? hc)

/-- All of some digits are read. -/
theorem digits_of_areDigits (h : AreDigits text) (afterDigit : Bool) :
    anyScript.digits afterDigit text = (text.map fun c => (digitValue? c).getD 0, []) := by
  induction text generalizing afterDigit with
  | nil => rfl
  | cons c text ih =>
    obtain ⟨hc, htext⟩ := List.forall_mem_cons.mp h
    have hdigit : anyScript.digit? c = some (c.toNat - '0'.toNat) := digitValue_of_isDigit hc
    rw [Form.digits, hdigit]
    dsimp only
    rw [ih htext, List.map_cons, digitValue_of_isDigit hc, Option.getD_some]

theorem ofDigitValues_map (text : List Char) :
    ofDigitValues (text.map fun c => (digitValue? c).getD 0) = ofDigits text :=
  List.foldl_map

/-- The words that are no digits begin with letters. -/
theorem special?_of_areDigits (h : AreDigits text) (hne : text ≠ []) (negative : Bool) :
    special? negative text = none := by
  obtain ⟨c, rest, rfl⟩ := List.exists_cons_of_ne_nil hne
  have hsmall : ∀ n < 58, (Char.ofNat n).toLower ≠ 'i' ∧ (Char.ofNat n).toLower ≠ 'n' := by decide
  have hc := hsmall c.toNat (toNat_of_isDigit (h c (List.mem_cons_self ..))).2
  rw [Char.ofNat_toNat] at hc
  have hword : ∀ {word : String} {d : Char} {letters : List Char}, word.toList = d :: letters → c.toLower ≠ d →
      String.ofList ((c :: rest).map Char.toLower) ≠ word := by
    rintro _ d letters hword hd rfl
    rw [String.toList_ofList, List.map_cons] at hword
    exact hd (List.cons.inj hword).1
  unfold special?
  split
  · next he => exact absurd he (hword rfl hc.1)
  · next he => exact absurd he (hword rfl hc.1)
  · next he => exact absurd he (hword rfl hc.2)
  · rfl

/-- **Digits are read as the double nearest to what they count.** -/
theorem double?_of_areDigits (h : AreDigits text) (hne : text ≠ []) :
    double? (String.ofList text) = some (Double.ofInt (ofDigits text)) := by
  have hsign : sign text = (false, text) := by
    simpa using sign_of_areDigits [] h hne
  have hvalues : (text.map fun c => (digitValue? c).getD 0).isEmpty = false := by simpa using hne
  have hdecimal : Double.ofDecimal false (ofDigits text) 0 = Double.ofInt (ofDigits text) := by
    have hpositive : ¬ (ofDigits text : Int) < 0 := by omega
    unfold Double.ofInt
    rw [Double.ofDecimal_eq, decide_eq_false hpositive, Int.natAbs_natCast]
    exact congrArg (Double.ofRatio false · 1) (Nat.mul_one _)
  unfold double? Form.double?
  rw [String.toList_ofList, trimBy_isMargin_of_areDigits h, hsign]
  dsimp only
  rw [special?_of_areDigits h hne, Option.none_or]
  unfold Form.decimal?
  rw [digits_of_areDigits h]
  dsimp only
  rw [hvalues, List.append_nil, ofDigitValues_map]
  exact congrArg some hdecimal

/-- A number is read as the double nearest to it. -/
theorem double?_toString (n : Nat) : double? (toString n) = some (Double.ofInt n) := by
  have hread := double?_of_areDigits (areDigits_toDigits n) Nat.toDigits_ne_nil
  rwa [ofDigits_toDigits, ← Nat.repr_eq_ofList_toDigits] at hread

end Numeral

end Outfitter
