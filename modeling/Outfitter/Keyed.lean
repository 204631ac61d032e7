/-!
Tables: values under keys, in the order in which the keys came. The value under a key is found by
`List.lookup`.
-/

namespace Outfitter.Keyed

variable {κ α : Type} [DecidableEq κ]

/-- A new key comes last; one that is there keeps its place. -/
def put (table : List (κ × α)) (key : κ) (value : α) : List (κ × α) :=
  match table with
  | [] => [(key, value)]
  | (k, v) :: rest => if k = key then (key, value) :: rest else (k, v) :: put rest key value

/-- A new key comes last; the value of one that is there stays. -/
def putNew (table : List (κ × α)) (key : κ) (value : α) : List (κ × α) :=
  if (table.lookup key).isSome then table else table ++ [(key, value)]

def without (table : List (κ × α)) (key : κ) : List (κ × α) :=
  table.filter fun (k, _) => k != key

/-! ### what is found -/

theorem lookup_cons (k key : κ) (v : α) (rest : List (κ × α)) :
    List.lookup key ((k, v) :: rest) = if key = k then some v else List.lookup key rest := by
  by_cases h : key = k
  · simp [h]
  · rw [List.lookup_cons, beq_eq_false_iff_ne.mpr h, if_neg h]

theorem lookup_put_self (table : List (κ × α)) (key : κ) (value : α) :
    List.lookup key (put table key value) = some value := by
  induction table with
  | nil => simp [put]
  | cons p rest ih =>
    obtain ⟨k, v⟩ := p
    by_cases h : k = key
    · simp [put, h]
    · simp [put, h, lookup_cons, ih, Ne.symm h]

theorem lookup_put_of_ne (table : List (κ × α)) {key other : κ} (value : α) (h : other ≠ key) :
    List.lookup other (put table key value) = List.lookup other table := by
  induction table with
  | nil => simp [put, lookup_cons, h]
  | cons p rest ih =>
    obtain ⟨k, v⟩ := p
    by_cases hk : k = key
    · subst hk
      simp [put, lookup_cons, h]
    · simp [put, hk, lookup_cons, ih]

theorem lookup_putNew (table : List (κ × α)) (key other : κ) (value : α) :
    List.lookup other (putNew table key value) =
      (List.lookup other table).or (if other = key then some value else none) := by
  unfold putNew
  cases h : List.lookup key table with
  | none =>
    show List.lookup other (table ++ [(key, value)]) = _
    rw [List.lookup_append, lookup_cons]
    rfl
  | some v =>
    show List.lookup other table = _
    by_cases hk : other = key
    · rw [hk, h, Option.some_or]
    · rw [if_neg hk, Option.or_none]

theorem lookup_without_self (table : List (κ × α)) (key : κ) :
    List.lookup key (without table key) = none := by
  induction table with
  | nil => rfl
  | cons p rest ih =>
    obtain ⟨k, v⟩ := p
    rw [without] at ih
    by_cases h : k = key
    · simp [without, h, ih]
    · simp [without, h, lookup_cons, Ne.symm h, ih]

theorem lookup_without_of_ne (table : List (κ × α)) {key other : κ} (h : other ≠ key) :
    List.lookup other (without table key) = List.lookup other table := by
  induction table with
  | nil => rfl
  | cons p rest ih =>
    obtain ⟨k, v⟩ := p
    rw [without] at ih
    by_cases hk : k = key
    · subst hk
      simp [without, lookup_cons, h, ih]
    · simp [without, hk, lookup_cons, ih]

end Outfitter.Keyed
