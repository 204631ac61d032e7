import Outfitter.Json.Printer
import Outfitter.Json.Reader
import Outfitter.Proofs.Number.Decimal

/-!
Numbers in JSON texts.

A numeral has a sign, digits, a fraction and an exponent, and what follows it is nothing that could belong to
it. The reader takes it apart as it was put together (`readNumber_takes`); so a number reads
back as it was written, a whole one unless it has too many digits (`readNumber_toString`), and a finite
double in either layout (`readNumber_textIn`).
-/

namespace Outfitter.Json

open Text

/-! ### runs of digits -/

/-- No digit comes next. -/
def EndsDigits (rest : List Char) : Prop :=
  ∀ c ∈ rest.head?, c.isDigit = false

/-- Nothing comes next that could belong to a number. -/
def EndsNumber (rest : List Char) : Prop :=
  ∀ c ∈ rest.head?, c.isDigit = false ∧ c ≠ '.' ∧ c ≠ 'e' ∧ c ≠ 'E'

theorem EndsNumber.digits {rest : List Char} (h : EndsNumber rest) : EndsDigits rest :=
  fun c hc => (h c hc).1

variable {digits rest : List Char}

theorem takeWhile_digits (hd : AreDigits digits) (hr : EndsDigits rest) :
    (digits ++ rest).takeWhile Char.isDigit = digits := by
  have hrest : rest.takeWhile Char.isDigit = [] := by
    cases rest with
    | nil => rfl
    | cons c rest => exact List.takeWhile_cons_of_neg (by rw [hr c rfl]; exact Bool.false_ne_true)
  rw [List.takeWhile_append_of_pos hd, hrest, List.append_nil]

/-! ### exponents -/

/-- The sign of an exponent. -/
def exponentSign (l : Double.Layout) (negative : Bool) : List Char :=
  if negative then ['-'] else if l.wideExponent then ['+'] else []

theorem sign_exponentSign (l : Double.Layout) (negative : Bool) (hd : AreDigits digits) (hne : digits ≠ []) :
    Numeral.sign (exponentSign l negative ++ (digits ++ rest)) = (negative, digits ++ rest) := by
  unfold exponentSign
  cases negative with
  | true => rfl
  | false =>
    cases l.wideExponent with
    | true => rfl
    | false => exact Numeral.sign_of_areDigits rest hd hne

/-- The digits of an exponent. -/
theorem exists_exponent_digits (l : Double.Layout) (n : Nat) : ∃ digits,
    digits = (if l.wideExponent && (Nat.toDigits 10 n).length = 1 then '0' :: Nat.toDigits 10 n
      else Nat.toDigits 10 n) ∧
    AreDigits digits ∧ digits ≠ [] ∧ ofDigits digits = n := by
  refine ⟨_, rfl, ?_⟩
  split
  · refine ⟨(areDigits_zeros 1).append (areDigits_toDigits _), List.cons_ne_nil _ _, ?_⟩
    exact (ofDigits_zeros_append 1 _).trans (ofDigits_toDigits n)
  · exact ⟨areDigits_toDigits _, Nat.toDigits_ne_nil, ofDigits_toDigits _⟩

theorem exponent_eq (l : Double.Layout) (n : Int) : ∃ digits, l.exponent n = exponentSign l (n < 0) ++ digits ∧
    AreDigits digits ∧ digits ≠ [] ∧ ofDigits digits = n.natAbs := by
  obtain ⟨digits, hdigits, hd, hne, hvalue⟩ := exists_exponent_digits l n.natAbs
  refine ⟨digits, ?_, hd, hne, hvalue⟩
  unfold Double.Layout.exponent exponentSign
  dsimp only
  rw [← hdigits]
  by_cases hn : n < 0
  · rw [if_pos hn, if_pos (decide_eq_true hn)]
    rfl
  · rw [if_neg hn, decide_eq_false hn]
    cases l.wideExponent <;> rfl

/-- An exponent is read as it is written. -/
theorem exponent?_exponent (l : Double.Layout) (n : Int) (hr : EndsDigits rest) :
    exponent? ('e' :: l.exponent n ++ rest) = some (n, ('e' :: l.exponent n).length) := by
  obtain ⟨digits, hexponent, hd, hne, hvalue⟩ := exponent_eq l n
  rw [hexponent, List.cons_append, List.append_assoc]
  have he : ('e' == 'e' || 'e' == 'E') = true := rfl
  unfold exponent?
  dsimp only
  rw [if_pos he, sign_exponentSign l _ hd hne]
  dsimp only
  rw [takeWhile_digits hd hr, if_neg (mt List.isEmpty_iff.mp hne), hvalue]
  have hsign : (if decide (n < 0) = true then -(n.natAbs : Int) else n.natAbs) = n := by
    split <;> next h =>
      rw [decide_eq_true_iff] at h
      omega
  have hlength : 1 + ((exponentSign l (n < 0) ++ (digits ++ rest)).length - (digits ++ rest).length) +
      digits.length = ('e' :: (exponentSign l (n < 0) ++ digits)).length := by
    simp only [List.length_append, List.length_cons]
    omega
  rw [hsign, hlength]

theorem exponent?_none (hr : EndsNumber rest) : exponent? rest = none := by
  cases rest with
  | nil => rfl
  | cons c rest =>
    obtain ⟨-, -, he, hE⟩ := hr c rfl
    exact if_neg (by simp [he, hE])

/-! ### numerals -/

/-- The sign of a number. -/
def signText (negative : Bool) : List Char :=
  if negative then ['-'] else []

/-- The fraction of a number, with its point. -/
def fractionText (fraction : List Char) : List Char :=
  if fraction.isEmpty then [] else '.' :: fraction

/-- The digits before the point: zero alone, or digits of which the first is no zero. -/
structure IsWhole (whole : List Char) : Prop where
  digits : AreDigits whole
  nonempty : whole ≠ []
  zero : whole.head? = some '0' → whole = ['0']

section

variable {negative : Bool} {whole fraction : List Char}

theorem minus_eq (negative : Bool) (hw : IsWhole whole) :
    minus (signText negative ++ (whole ++ rest)) = (negative, whole ++ rest) := by
  cases negative with
  | true => rfl
  | false =>
    have hminus := head_of_areDigits rest hw.digits hw.nonempty (c := '-') rfl
    show minus (whole ++ rest) = _
    unfold minus
    split
    · next h => exact absurd (congrArg List.head? h) hminus
    · rfl

theorem wholeDigits_eq (hw : IsWhole whole) (hr : EndsDigits rest) : wholeDigits (whole ++ rest) = whole := by
  have hhead : (whole ++ rest).head? = whole.head? := List.head?_append_of_ne_nil whole hw.nonempty
  unfold wholeDigits
  split
  · next h => exact (hw.zero (hhead.symm.trans (congrArg List.head? h))).symm
  · exact takeWhile_digits hw.digits hr

theorem fractionDigits_eq (hf : AreDigits fraction) (hr : EndsDigits rest) (hpoint : rest.head? ≠ some '.') :
    fractionDigits (fractionText fraction ++ rest) = fraction := by
  cases fraction with
  | nil =>
    show fractionDigits rest = []
    unfold fractionDigits
    split
    · exact absurd rfl hpoint
    · rfl
  | cons c fraction => exact takeWhile_digits hf hr

theorem length_fractionText (fraction : List Char) :
    (fractionText fraction).length = if fraction.isEmpty then 0 else fraction.length + 1 := by
  cases fraction <;> rfl

theorem length_signText (negative : Bool) : (signText negative).length = if negative then 1 else 0 := by
  cases negative <;> rfl

theorem endsDigits_fractionText (hr : EndsDigits rest) : EndsDigits (fractionText fraction ++ rest) := by
  cases fraction with
  | nil => exact hr
  | cons c fraction => exact fun _ hc => Option.some.inj hc ▸ rfl

/-- What is read of a text, and what is left of it, wherever the text stands. -/
def Takes {α : Type} (read : Rest → Step α) (text rest : List Char) (a : α) : Prop :=
  ∀ position, ∃ position', read ⟨position, text ++ rest⟩ = .ok (a, ⟨position', rest⟩)

theorem Rest.advance_length (position : Nat) (text rest : List Char) :
    (Rest.mk position (text ++ rest)).advance text.length = ⟨position + text.length, rest⟩ := by
  unfold Rest.advance
  rw [List.drop_left]

/-- **A numeral is read as it was put together.** -/
theorem readNumber_takes (exponentText : List Char) (power : Option Int) {v : Value} (hw : IsWhole whole)
    (hf : AreDigits fraction) (hends : EndsDigits (exponentText ++ rest))
    (hpoint : (exponentText ++ rest).head? ≠ some '.')
    (he : exponent? (exponentText ++ rest) = power.map (·, exponentText.length))
    (hnone : power = none → exponentText = []) (hv : numberOf negative whole fraction power = .ok v) :
    Takes readNumber (signText negative ++ (whole ++ (fractionText fraction ++ exponentText))) rest v := by
  intro position
  refine ⟨position + (signText negative ++ (whole ++ (fractionText fraction ++ exponentText))).length, ?_⟩
  have hpower : (power.map (·, exponentText.length)).map (·.1) = power := by
    cases power <;> rfl
  have hsize : ((power.map (·, exponentText.length)).map (·.2)).getD 0 = exponentText.length := by
    cases power with
    | none => exact (congrArg List.length (hnone rfl)).symm
    | some => rfl
  have hsplit : signText negative ++ (whole ++ (fractionText fraction ++ exponentText)) ++ rest =
      signText negative ++ (whole ++ (fractionText fraction ++ (exponentText ++ rest))) := by
    simp only [List.append_assoc]
  have hlength : (signText negative).length + whole.length + (fractionText fraction).length + exponentText.length =
      (signText negative ++ (whole ++ (fractionText fraction ++ exponentText))).length := by
    simp only [List.length_append]
    omega
  unfold readNumber
  dsimp only
  rw [hsplit, minus_eq negative hw]
  dsimp only
  rw [wholeDigits_eq hw (endsDigits_fractionText hends), if_neg (mt List.isEmpty_iff.mp hw.nonempty),
    List.drop_left, fractionDigits_eq hf hends hpoint, ← length_fractionText, List.drop_left, he, hpower, hv,
    hsize, ← length_signText, hlength, ← hsplit, Rest.advance_length]
  rfl

end

/-! ### numbers as they are written -/

theorem EndsNumber.point {rest : List Char} (h : EndsNumber rest) : rest.head? ≠ some '.' :=
  fun hc => (h _ hc).2.1 rfl

theorem isWhole_zero : IsWhole ['0'] :=
  ⟨areDigits_zeros 1, List.cons_ne_nil _ _, fun _ => rfl⟩

theorem isWhole_of_head? {whole : List Char} (hd : AreDigits whole) (hne : whole ≠ []) (h : whole.head? ≠ some '0') :
    IsWhole whole :=
  ⟨hd, hne, fun hzero => absurd hzero h⟩

theorem isWhole_toDigits (n : Nat) : IsWhole (Nat.toDigits 10 n) := by
  refine ⟨areDigits_toDigits n, Nat.toDigits_ne_nil, fun hzero => ?_⟩
  by_cases hn : n = 0
  · rw [hn, Nat.toDigits_zero]
  · exact absurd hzero (head?_toDigits hn)

theorem toList_toString (n : Int) : (toString n).toList = signText (n < 0) ++ Nat.toDigits 10 n.natAbs := by
  rw [Int.toString_eq_repr, Int.repr_eq_if]
  by_cases h : n < 0
  · rw [if_neg (by omega), decide_eq_true h, String.toList_append, Nat.repr_eq_ofList_toDigits,
      show (-n).toNat = n.natAbs by omega, String.toList_ofList, String.toList_ofList]
    rfl
  · rw [if_pos (by omega), decide_eq_false h, Nat.repr_eq_ofList_toDigits, String.toList_ofList,
      show n.toNat = n.natAbs by omega]
    rfl

theorem length_toDigits_of_isShort {n : Int} (h : Numeral.isShort n = true) :
    (Nat.toDigits 10 n.natAbs).length ≤ Numeral.maxDigits := by
  unfold Numeral.isShort at h
  rw [decide_eq_true_iff] at h
  have hpos : 0 < Numeral.maxDigits := by decide
  generalize Numeral.maxDigits = most at h hpos ⊢
  exact (Nat.length_toDigits_le_iff (by decide) hpos).mpr (Nat.pow_eq ▸ h)

/-- **A whole number that has not too many digits reads back.** -/
theorem readNumber_toString {n : Int} {rest : List Char} (h : Numeral.isShort n = true) (hr : EndsNumber rest) :
    Takes readNumber (toString n).toList rest (.int n) := by
  have hsign : (if decide (n < 0) = true then -(n.natAbs : Int) else n.natAbs) = n := by
    split <;> next h =>
      rw [decide_eq_true_iff] at h
      omega
  have hvalue : numberOf (n < 0) (Nat.toDigits 10 n.natAbs) [] none = .ok (.int n) := by
    have hlong : ¬ Numeral.maxDigits < (Nat.toDigits 10 n.natAbs).length :=
      Nat.not_lt.mpr (length_toDigits_of_isShort h)
    unfold numberOf
    rw [ofDigits_toDigits]
    exact (if_neg hlong).trans (congrArg (fun n => Except.ok (Value.int n)) hsign)
  have htakes := readNumber_takes [] none (isWhole_toDigits n.natAbs)
    (fun _ h => absurd h List.not_mem_nil) hr.digits hr.point (exponent?_none hr) (fun _ => rfl) hvalue
  rw [toList_toString]
  rwa [show fractionText [] = [] from rfl, List.append_nil, List.append_nil] at htakes

/-! ### doubles as they are written -/

section

variable {whole fraction digits rest : List Char}

/-- A numeral with a fraction is a double. -/
theorem takes_fraction (negative : Bool) (hw : IsWhole whole) (hf : AreDigits fraction) (hne : fraction ≠ [])
    (hr : EndsNumber rest) :
    Takes readNumber (signText negative ++ (whole ++ '.' :: fraction)) rest
      (.float (Double.ofDecimal negative (ofDigits (whole ++ fraction)) (-(fraction.length : Int)))) := by
  have hempty : fraction.isEmpty = false := List.isEmpty_eq_false_iff.mpr hne
  have hvalue : numberOf negative whole fraction none =
      .ok (.float (Double.ofDecimal negative (ofDigits (whole ++ fraction)) (0 - fraction.length))) :=
    if_neg (by rw [hempty]; exact Bool.false_ne_true)
  have htakes := readNumber_takes [] none hw hf hr.digits hr.point
    (exponent?_none hr) (fun _ => rfl) hvalue
  rwa [List.append_nil, fractionText, if_neg (by rw [hempty]; exact Bool.false_ne_true), Int.zero_sub] at htakes

/-- A numeral with an exponent is a double. -/
theorem takes_exponent (negative : Bool) (l : Double.Layout) (n : Int) (hw : IsWhole whole) (hf : AreDigits fraction)
    (hr : EndsNumber rest) :
    Takes readNumber (signText negative ++ (whole ++ (fractionText fraction ++ 'e' :: l.exponent n))) rest
      (.float (Double.ofDecimal negative (ofDigits (whole ++ fraction)) (n - fraction.length))) := by
  have hvalue : numberOf negative whole fraction (some n) =
      .ok (.float (Double.ofDecimal negative (ofDigits (whole ++ fraction)) (n - fraction.length))) :=
    if_neg (by rw [Option.isNone_some, Bool.and_false]; exact Bool.false_ne_true)
  refine readNumber_takes _ (some n) hw hf ?_ ?_ (exponent?_exponent l n hr.digits) nofun hvalue
  · exact fun c hc => Option.some.inj hc ▸ rfl
  · exact fun hc => absurd (Option.some.inj hc) (by decide)

/-- Digits with a point among, before or behind them. -/
theorem takes_positional (negative : Bool) (hd : AreDigits digits) (hne : digits ≠ [])
    (hhead : digits.head? ≠ some '0') (hr : EndsNumber rest) (place : Int) :
    Takes readNumber (signText negative ++ Double.positional digits place) rest
      (.float (Double.ofDecimal negative (ofDigits digits) (place - digits.length))) := by
  unfold Double.positional
  split
  · next hplace =>
    have hvalue : ofDigits (['0'] ++ (List.replicate (-place).toNat '0' ++ digits)) = ofDigits digits :=
      (ofDigits_zeros_append 1 _).trans (ofDigits_zeros_append _ _)
    have hpower : -((List.replicate (-place).toNat '0' ++ digits).length : Int) = place - digits.length := by
      rw [List.length_append, List.length_replicate]
      omega
    have htakes := takes_fraction negative isWhole_zero ((areDigits_zeros (-place).toNat).append hd)
      (List.append_ne_nil_of_right_ne_nil _ hne) hr
    rwa [hvalue, hpower] at htakes
  · next hplace =>
    obtain ⟨n, hn⟩ : ∃ n : Nat, n = place.toNat := ⟨_, rfl⟩
    have htake : digits.take n ≠ [] := by
      intro h
      rcases List.take_eq_nil_iff.mp h with h | h
      · omega
      · exact hne h
    have hwhole : IsWhole (digits.take n ++ List.replicate (n - digits.length) '0') := by
      refine isWhole_of_head? (AreDigits.append (fun c hc => hd c (List.mem_of_mem_take hc)) (areDigits_zeros _))
        (List.append_ne_nil_of_left_ne_nil htake _) ?_
      rw [List.head?_append_of_ne_nil _ htake, List.head?_take, if_neg (by omega)]
      exact hhead
    dsimp only
    rw [← hn]
    rcases Nat.lt_or_ge n digits.length with hlt | hge
    · have hdrop : digits.drop n ≠ [] := fun h => by
        have := List.drop_eq_nil_iff.mp h
        omega
      have htakes := takes_fraction negative hwhole (fun c hc => hd c (List.mem_of_mem_drop hc)) hdrop hr
      have hpower : -((digits.drop n).length : Int) = place - digits.length := by
        rw [List.length_drop]
        omega
      rw [Nat.sub_eq_zero_of_le (Nat.le_of_lt hlt), List.replicate_zero, List.append_nil,
        List.take_append_drop, hpower] at htakes
      rw [Nat.sub_eq_zero_of_le (Nat.le_of_lt hlt), List.replicate_zero, List.append_nil,
        if_neg (mt List.isEmpty_iff.mp hdrop)]
      exact htakes
    · -- the fraction is a zero that counts nothing
      have htakes := takes_fraction negative hwhole (areDigits_zeros 1) (List.cons_ne_nil _ _) hr
      have hzeros : digits ++ List.replicate (n - digits.length) '0' ++ List.replicate 1 '0' =
          digits ++ List.replicate (n - digits.length + 1) '0' := by
        rw [List.append_assoc, List.replicate_append_replicate]
      have hpower : -((1 : Nat) : Int) + ((n - digits.length + 1 : Nat) : Int) = place - digits.length := by omega
      rw [List.take_of_length_le hge, hzeros, ofDigits_append_zeros, List.length_replicate, Double.ofDecimal_shift,
        hpower] at htakes
      rw [List.take_of_length_le hge, if_pos (List.isEmpty_iff.mpr (List.drop_eq_nil_of_le hge))]
      exact htakes

/-- Digits with a point behind the first one, and an exponent. -/
theorem takes_scientific (negative : Bool) (l : Double.Layout) (hd : AreDigits digits) (hne : digits ≠ [])
    (hhead : digits.head? ≠ some '0') (hr : EndsNumber rest) (place : Int) :
    Takes readNumber (signText negative ++ l.scientific digits place) rest
      (.float (Double.ofDecimal negative (ofDigits digits) (place - digits.length))) := by
  obtain ⟨c, more, rfl⟩ := List.exists_cons_of_ne_nil hne
  obtain ⟨hc, hmore⟩ := List.forall_mem_cons.mp hd
  have hwhole : IsWhole [c] :=
    isWhole_of_head? (List.forall_mem_singleton.mpr hc) (List.cons_ne_nil _ _) hhead
  have htakes := takes_exponent negative l (place - 1) hwhole hmore hr
  have hpower : place - 1 - (more.length : Int) = place - ((c :: more).length : Nat) := by
    rw [List.length_cons]
    omega
  rw [hpower] at htakes
  have htext : l.scientific (c :: more) place = [c] ++ (fractionText more ++ 'e' :: l.exponent (place - 1)) := by
    cases more <;> rfl
  rw [htext]
  exact htakes

end

/-- **A finite double reads back, in whatever layout it is written.** -/
theorem readNumber_textIn (l : Double.Layout) (x : Double.Finite) {rest : List Char} (hr : EndsNumber rest) :
    Takes readNumber (x.textIn l) rest (.float (.finite x)) := by
  have hsign (body : List Char) : (if x.negative then '-' :: body else body) = signText x.negative ++ body := by
    cases x.negative <;> rfl
  unfold Double.Finite.textIn
  dsimp only
  rw [hsign]
  by_cases hx : x.significand = 0
  · have htakes := takes_fraction x.negative isWhole_zero (areDigits_zeros 1) (List.cons_ne_nil _ _) hr
    rw [show ofDigits (['0'] ++ List.replicate 1 '0') = 0 from rfl, Double.ofDecimal_zero,
      ← Double.Finite.eq_zero_of_significand hx] at htakes
    rw [if_pos hx]
    exact htakes
  · obtain ⟨digits, k, hdigits, hne, hd, hhead, hvalue⟩ :=
      Double.significantDigits_eq (Double.Finite.digits_shortest hx)
    have hx' : Double.ofDecimal x.negative (ofDigits digits)
        ((digits.length : Int) + (x.shortest.exponent + (k : Nat)) - digits.length) = .finite x := by
      rw [show (digits.length : Int) + (x.shortest.exponent + (k : Nat)) - digits.length = x.shortest.exponent + k by
        omega, ← Double.ofDecimal_shift, ← hvalue]
      exact Double.Finite.ofDecimal_shortest hx
    rw [if_neg hx, hdigits]
    split
    · have := takes_positional x.negative hd hne hhead hr (digits.length + (x.shortest.exponent + k))
      rwa [hx'] at this
    · have := takes_scientific x.negative l hd hne hhead hr (digits.length + (x.shortest.exponent + k))
      rwa [hx'] at this

end Outfitter.Json
