import Outfitter.Filters.Scalars
import Outfitter.Journal.Line
import Outfitter.Proofs.Filters.Look
import Outfitter.Proofs.Number.Quantity
import Outfitter.Value.Demand

/-!
Entries that can be written.

Only too long a number keeps an entry from being written. What is shown of data that can be written can
be written (`isWritable_of_data`), and filters that ask for doubles can (`haveWritable_of_shows`).
-/

namespace Outfitter

namespace Value

theorem haveWritable_iff (fields : Fields) :
    haveWritable fields = true ↔ ∀ p ∈ fields, p.2.isWritable = true := by
  induction fields with
  | nil => exact iff_of_true rfl fun _ h => absurd h List.not_mem_nil
  | cons p rest ih =>
    obtain ⟨k, v⟩ := p
    unfold haveWritable
    rw [Bool.and_eq_true_iff, ih, List.forall_mem_cons]

theorem areWritable_iff (items : List Value) :
    areWritable items = true ↔ ∀ v ∈ items, v.isWritable = true := by
  induction items with
  | nil => exact iff_of_true rfl fun _ h => absurd h List.not_mem_nil
  | cons v rest ih =>
    unfold areWritable
    rw [Bool.and_eq_true_iff, ih, List.forall_mem_cons]

theorem isWritable_texts (xs : List String) : isWritable (.list (xs.map .str)) = true := by
  refine (areWritable_iff _).mpr fun v hv => ?_
  obtain ⟨x, -, rfl⟩ := List.mem_map.mp hv
  rfl

theorem isWritable_value {fields : Fields} (h : haveWritable fields = true) (key : Key) :
    (Fields.value fields key).isWritable = true := by
  unfold Fields.value
  cases hget : Fields.get? fields key with
  | none => rfl
  | some v => exact (haveWritable_iff fields).mp h _ (Fields.mem_of_get? hget)

theorem isWritable_getLast {items : List Value} (h : areWritable items = true) (default : Value)
    (hdefault : default.isWritable = true) : (items.getLast?.getD default).isWritable = true := by
  cases hlast : items.getLast? with
  | none => exact hdefault
  | some w => exact (areWritable_iff items).mp h w (List.mem_of_getLast? hlast)

theorem haveWritable_put {fields : Fields} (h : haveWritable fields = true) (key : Key) {v : Value}
    (hv : v.isWritable = true) : haveWritable (Fields.put fields key v) = true := by
  induction fields with
  | nil => exact Bool.and_eq_true_iff.mpr ⟨hv, rfl⟩
  | cons p rest ih =>
    obtain ⟨k, w⟩ := p
    obtain ⟨hw, hrest⟩ := Bool.and_eq_true_iff.mp h
    show haveWritable (if k = key then (key, v) :: rest else (k, w) :: Fields.put rest key v) = true
    split
    · exact Bool.and_eq_true_iff.mpr ⟨hv, hrest⟩
    · exact Bool.and_eq_true_iff.mpr ⟨hw, ih hrest⟩

theorem haveWritable_ofPairs {pairs : List (Key × Value)} (h : haveWritable pairs = true) :
    haveWritable (Fields.ofPairs pairs) = true := by
  have hfold : ∀ (pairs : List (Key × Value)) (before : Fields), haveWritable pairs = true →
      haveWritable before = true →
        haveWritable (pairs.foldl (fun fields p => Fields.put fields p.1 p.2) before) = true := by
    intro pairs
    induction pairs with
    | nil => exact fun _ _ h => h
    | cons p rest ih =>
      intro before hpairs hbefore
      obtain ⟨hp, hrest⟩ := Bool.and_eq_true_iff.mp hpairs
      exact ih _ hrest (haveWritable_put hbefore p.1 hp)
  exact hfold pairs [] h rfl

theorem demandWritable_of_isWritable {v : Value} (h : v.isWritable = true) : v.demandWritable = .ok v :=
  if_pos h

theorem writtenText_of_isWritable {v : Value} (h : v.isWritable = true) : v.writtenText = .ok v.text := by
  unfold writtenText
  rw [demandWritable_of_isWritable h]
  rfl

theorem isWritable_of_demandWritable {v w : Value} (h : v.demandWritable = .ok w) : v.isWritable = true := by
  unfold demandWritable at h
  split at h
  · assumption
  · cases h

theorem mapM_demandWritable {α : Type} {f : α → Value} {xs : List α}
    (h : ∀ x ∈ xs, (f x).isWritable = true) : (xs.mapM fun x => (f x).demandWritable) = .ok (xs.map f) := by
  induction xs with
  | nil => rfl
  | cons x xs ih =>
    obtain ⟨hx, hxs⟩ := List.forall_mem_cons.mp h
    rw [List.mapM_cons, demandWritable_of_isWritable hx, ih hxs]
    rfl

theorem isWritable_of_mapM_demandWritable {α : Type} {f : α → Value} {xs : List α} {vs : List Value}
    (h : (xs.mapM fun x => (f x).demandWritable) = .ok vs) : ∀ x ∈ xs, (f x).isWritable = true := by
  induction xs generalizing vs with
  | nil => exact nofun
  | cons x xs ih =>
    rw [List.mapM_cons] at h
    cases hx : (f x).demandWritable with
    | error =>
      rw [hx] at h
      cases h
    | ok =>
      cases hxs : (xs.mapM fun x => (f x).demandWritable) with
      | error =>
        rw [hx, hxs] at h
        cases h
      | ok => exact List.forall_mem_cons.mpr ⟨isWritable_of_demandWritable hx, ih hxs⟩

end Value

namespace Journal

mutual

theorem isWritable_shown (bound : Int) : ∀ v : Value, v.isWritable = true → (shown bound v).isWritable = true
  | .str s => by
    intro _
    unfold shown
    split <;> rfl
  | .list items => by
    intro h
    unfold shown
    split
    · rfl
    · exact h
  | .object fields => haveWritable_shown bound fields
  | .null | .bool _ | .int _ | .float _ => by
    intro h
    unfold shown
    exact h

theorem haveWritable_shown (bound : Int) : ∀ fields : List (Key × Value), Value.haveWritable fields = true →
    Value.haveWritable (shownFields bound fields) = true
  | [] => fun _ => rfl
  | (k, v) :: rest => by
    intro h
    obtain ⟨hv, hrest⟩ := Bool.and_eq_true_iff.mp h
    refine Bool.and_eq_true_iff.mpr ⟨?_, haveWritable_shown bound rest hrest⟩
    split
    · rfl
    · exact isWritable_shown bound v hv

end

theorem Entry.isWritable_of_data {e : Entry} (h : Value.haveWritable e.data = true) :
    e.isWritable = true :=
  haveWritable_shown _ _ h

end Journal

theorem Numeral.isShort_neg (n : Int) : Numeral.isShort (-n) = Numeral.isShort n := by
  unfold Numeral.isShort
  rw [Int.natAbs_neg]

theorem Numeral.isShort_natAbs (n : Int) : Numeral.isShort n.natAbs = Numeral.isShort n := by
  unfold Numeral.isShort
  rw [Int.natAbs_natCast]

/-- A whole number below a short one is short. -/
theorem Numeral.isShort_of_le {m n : Nat} (h : Numeral.isShort n = true) (hm : m ≤ n) :
    Numeral.isShort m = true := by
  unfold Numeral.isShort at h ⊢
  rw [decide_eq_true_iff, Int.natAbs_natCast] at h ⊢
  exact Nat.lt_of_le_of_lt hm h

/-! ### filters -/

namespace Filters

/-- What counts of several values can be written if they all can. -/
theorem isWritable_lastGiven {v : Value} (h : v.isWritable = true) : (lastGiven v).isWritable = true := by
  unfold lastGiven
  split
  · exact Value.isWritable_getLast h _ rfl
  · unfold Value.orElse
    split
    · exact h
    · rfl

/-- A whole number is short if it is below a power of ten with fewer zeros. -/
theorem isShort_of_lt_pow {n most : Nat} (h : n < 10 ^ most) (hmost : most ≤ Numeral.maxDigits) :
    Numeral.isShort n = true := by
  -- the power is too great to be written out
  obtain ⟨k, hk, hmax⟩ : ∃ k, k = Numeral.maxDigits ∧ Nat.pow 10 Numeral.maxDigits = 10 ^ k :=
    ⟨_, rfl, Nat.pow_eq⟩
  unfold Numeral.isShort
  rw [decide_eq_true_iff, hmax, Int.natAbs_natCast]
  exact Nat.lt_of_lt_of_le h (Nat.pow_le_pow_right (by decide) (hk ▸ hmost))

/-- A whole number that is not beyond all doubles is short. -/
theorem isShort_of_ofInt {n : Nat} {x : Double.Finite} (h : Double.ofInt n = .finite x) :
    Numeral.isShort n = true := by
  have hpow : ∀ k, 2 ^ k ≤ 10 ^ k := fun k => Nat.pow_le_pow_left (by decide) k
  exact isShort_of_lt_pow (Nat.lt_of_lt_of_le (Double.lt_of_ofInt h) (hpow _)) (by decide)

/-- A whole number that is a double can be written. -/
theorem isWritable_of_isDouble {v : Value} (h : v.isDouble = true) : v.isWritable = true := by
  rcases Value.isDouble_cases h with ⟨n, rfl⟩ | ⟨x, rfl⟩
  · obtain ⟨x, hx, -⟩ := Value.isDouble_int.mp h
    -- the number without its sign is a double, too
    have habs : ∃ y, Double.ofInt n.natAbs = .finite y := by
      have hpositive : ¬ (n.natAbs : Int) < 0 := by omega
      unfold Double.ofInt at hx ⊢
      rw [decide_eq_false hpositive, Int.natAbs_natCast]
      rw [Double.ofRatio_eq_signed] at hx
      cases hr : Double.ofRatio false n.natAbs 1 with
      | finite y => exact ⟨y, rfl⟩
      | infinite | nan =>
        rw [hr] at hx
        cases hx
    obtain ⟨y, hy⟩ := habs
    exact (Numeral.isShort_natAbs n).symm.trans (isShort_of_ofInt hy)
  · rfl

/-- The sign of a rounded quotient. -/
theorem negative_of_ofInt {n : Int} {x : Double.Finite} (h : Double.ofInt n = .finite x) :
    x.negative = decide (n < 0) := by
  unfold Double.ofInt Double.ofRatio at h
  split at h
  · obtain rfl := Double.finite.inj h
    rfl
  · dsimp only at h
    split at h
    · split at h
      · obtain rfl := Double.finite.inj h
        rfl
      · cases h
    · split at h
      · obtain rfl := Double.finite.inj h
        rfl
      · cases h

theorem Means.isWritable {v : Value} {x : Double.Finite} (h : Means v x) (hx : Natural x) :
    v.isWritable = true := by
  cases h with
  | float => rfl
  | @int n _ h =>
    have hn : ¬ n < 0 := of_decide_eq_false ((negative_of_ofInt h).symm.trans hx.positive)
    obtain ⟨m, rfl⟩ := Int.eq_ofNat_of_zero_le (Int.not_lt.mp hn)
    exact isShort_of_ofInt h

variable {filters : Fields} {l : Look}

/-- Filters that ask for doubles can be written. -/
theorem haveWritable_of_shows (h : Shows Means filters l) (hl : l.Neat) :
    Value.haveWritable filters = true := by
  refine (Value.haveWritable_iff filters).mpr ?_
  refine h.forall_values (P := fun v => v.isWritable = true) Value.isWritable_texts rfl fun fields hp => ?_
  refine (Value.haveWritable_iff fields).mpr fun p hmem => ?_
  obtain ⟨x, hx, hmeans⟩ := hp p hmem
  exact hmeans.isWritable (hx.elim (hl.least x) (hl.most x))

end Filters

end Outfitter
