import Outfitter.Filters.Merge
import Outfitter.Filters.Scalars
import Outfitter.Proofs.Number.Quantity

/-!
Numbers, orders and pages that are read again.

Every quantity that is read is a double exactly, so reading what it is written by gives it back
(`quantity?_toValue`, `boundQuantity?_toValue`), and so it is with an order, a page and a limit
(`sortOrder_name`, `page_page`, `limit_limit`).
-/

namespace Outfitter.Filters

variable {v : Value} {q : Quantity} {x : Double}

/-! ### quantities -/

/-- A bound is read from a double. -/
theorem exists_of_boundQuantity (h : boundQuantity? v = some q) : ∃ x, Quantity.ofDouble? x = some q := by
  cases v with
  | int | float => exact ⟨_, h⟩
  | str s =>
    obtain ⟨x, -, hx⟩ := Option.bind_eq_some_iff.mp h
    exact ⟨x, hx⟩
  | null | bool | list | object => cases h

mutual

theorem exists_of_quantity : ∀ v : Value, quantity? v = some q → ∃ x, Quantity.ofDouble? x = some q
  | .int _ | .float _ => fun h => ⟨_, h⟩
  | .str s => by
    intro h
    unfold quantity? at h
    obtain ⟨x, -, hx⟩ := Option.bind_eq_some_iff.mp h
    exact ⟨x, hx⟩
  | .list items => exists_of_lastQuantity items
  | .null | .bool _ | .object _ => nofun

theorem exists_of_lastQuantity : ∀ items : List Value, lastQuantity? items = some q →
    ∃ x, Quantity.ofDouble? x = some q
  | [] => nofun
  | [v] => exists_of_quantity v
  | _ :: w :: rest => exists_of_lastQuantity (w :: rest)

end

theorem boundQuantity?_toValue (h : Quantity.ofDouble? x = some q) : boundQuantity? q.toValue = some q := by
  refine Eq.trans ?_ (Quantity.ofNumber?_toValue h)
  cases q <;> rfl

theorem quantity?_toValue (h : Quantity.ofDouble? x = some q) : quantity? q.toValue = some q := by
  refine Eq.trans ?_ (Quantity.ofNumber?_toValue h)
  cases q <;> rfl

/-! ### ranges -/

/-- Bounds that were read from doubles, the lower one first. -/
structure IsRange (least most : Option Quantity) : Prop where
  lower : ∀ q ∈ least, ∃ x, Quantity.ofDouble? x = some q
  upper : ∀ q ∈ most, ∃ x, Quantity.ofDouble? x = some q
  le : ∀ low ∈ least, ∀ high ∈ most, low.units ≤ high.units

/-- Two bounds with the lower one first. -/
def inOrder (least most : Option Quantity) : Option Quantity × Option Quantity :=
  match least, most with
  | some low, some high => if high.isBelow low then (some high, some low) else (some low, some high)
  | least, most => (least, most)

variable {least most : Option Quantity}

theorem isRange_inOrder (hleast : ∀ q ∈ least, ∃ x, Quantity.ofDouble? x = some q)
    (hmost : ∀ q ∈ most, ∃ x, Quantity.ofDouble? x = some q) :
    IsRange (inOrder least most).1 (inOrder least most).2 := by
  cases least with
  | none => exact ⟨hleast, hmost, fun _ h => absurd h (Option.not_mem_none _)⟩
  | some low =>
    cases most with
    | none => exact ⟨hleast, hmost, fun _ _ _ h => absurd h (Option.not_mem_none _)⟩
    | some high =>
      unfold inOrder
      dsimp only
      split
      · rename_i hbelow
        refine ⟨hmost, hleast, ?_⟩
        rintro _ ⟨⟩ _ ⟨⟩
        exact Int.le_of_lt (of_decide_eq_true hbelow)
      · rename_i hbelow
        refine ⟨hleast, hmost, ?_⟩
        rintro _ ⟨⟩ _ ⟨⟩
        exact Int.not_lt.mp fun hlt => hbelow (decide_eq_true hlt)

theorem IsRange.inOrder (h : IsRange least most) : inOrder least most = (least, most) := by
  cases least with
  | none => rfl
  | some low =>
    cases most with
    | none => rfl
    | some high =>
      refine if_neg fun hbelow => ?_
      exact Int.not_lt.mpr (h.le low rfl high rfl) (of_decide_eq_true hbelow)

/-! ### orders -/

/-- An order is read from its name. -/
theorem sortOrder_name (order : SortOrder) (hasQuery : Bool) : sortOrder (.str order.name) hasQuery = order := by
  have hread : ∀ order : SortOrder,
      SortOrder.ofName? (Text.trimLower (lastGiven (.str order.name)).text) = some order := by
    intro order
    cases order <;> decide
  unfold sortOrder
  rw [hread]
  rfl

/-! ### pages -/

theorem one_le_of_positive {n : Nat} (h : positive? v = some n) : 1 ≤ n := by
  obtain ⟨q, -, hq⟩ := Option.bind_eq_some_iff.mp h
  split at hq
  · obtain rfl := Option.some.inj hq
    omega
  · cases hq

/-- The whole part of a number that is read is a double. -/
theorem isDouble_of_positive {n : Nat} (h : positive? v = some n) : (Value.int n).isDouble = true := by
  obtain ⟨q, hread, hq⟩ := Option.bind_eq_some_iff.mp h
  obtain ⟨x, hx⟩ := exists_of_quantity v hread
  split at hq
  · obtain rfl := Option.some.inj hq
    rw [Int.toNat_of_nonneg (by omega)]
    exact Quantity.isDouble_floor hx (by omega)
  · cases hq

/-- A whole number that is a double is read as it is. -/
theorem positive?_int {n : Nat} (h : (Value.int n).isDouble = true) (hn : 1 ≤ n) :
    positive? (.int n) = some n := by
  have hread : quantity? (.int n) = some (.whole n) := Quantity.ofNumber?_int h
  unfold positive?
  rw [hread]
  exact if_pos (Int.ofNat_le.mpr hn)

theorem one_le_page (v : Value) : 1 ≤ page v := by
  unfold page
  cases h : positive? v with
  | none => exact Nat.le_refl _
  | some n => exact one_le_of_positive h

theorem isDouble_page (v : Value) : (Value.int (page v)).isDouble = true := by
  unfold page
  cases h : positive? v with
  | none => exact Value.isDouble_of_lt (n := 1) (by decide)
  | some n => exact isDouble_of_positive h

theorem limit_bounds (v : Value) : 1 ≤ limit v ∧ limit v ≤ maxLimit := by
  unfold limit
  cases h : positive? v with
  | none => decide
  | some n => exact ⟨Nat.le_min.mpr ⟨one_le_of_positive h, by decide⟩, Nat.min_le_right ..⟩

theorem isDouble_limit (v : Value) : (Value.int (limit v)).isDouble = true :=
  Value.isDouble_of_lt (Nat.lt_of_le_of_lt (limit_bounds v).2 (by decide))

/-- A page is read from its number. -/
theorem page_page (v : Value) : page (.int (page v)) = page v := by
  have hread := positive?_int (isDouble_page v) (one_le_page v)
  generalize page v = n at hread ⊢
  unfold page
  rw [hread]
  rfl

/-- A limit is read from its number. -/
theorem limit_limit (v : Value) : limit (.int (limit v)) = limit v := by
  have hread := positive?_int (isDouble_limit v) (limit_bounds v).1
  have hmost := (limit_bounds v).2
  generalize limit v = n at hread hmost ⊢
  unfold limit
  rw [hread]
  exact Nat.min_eq_left hmost

end Outfitter.Filters
