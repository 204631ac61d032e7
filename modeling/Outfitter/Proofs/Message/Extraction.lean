import Outfitter.Message.Extraction
import Outfitter.Proofs.Filters.Palette
import Outfitter.Proofs.Message.Budget
import Outfitter.Proofs.Taxonomy.Entries

/-!
What a message asks for.

A message whose budget can be read can be read (`exists_extractWith`). What it asks for is settled, and does
not mix pastel with another color.
-/

namespace Outfitter

namespace Message

open Filters Taxonomy Text

/-! ### what is asked for before normalization -/

/-- The texts that a value lists. -/
def textsOf : Value → List String
  | .list items => items.filterMap Value.string?
  | _ => []

theorem textsOf_ofStrings (xs : List String) : textsOf (.ofStrings xs) = xs := by
  show (xs.map Value.str).filterMap Value.string? = xs
  rw [List.filterMap_map]
  exact List.filterMap_some

theorem Budget.toFields_eq (b : Budget) : b.toFields =
    boundFields (b.least.map fun n : Nat => .int n) (b.most.map fun n : Nat => .int n) := by
  unfold toFields
  cases b.least <;> cases b.most <;> rfl

/-- A budget's bounds as doubles, if there is a budget. -/
theorem exists_bounds {found : Option BudgetFound} (h : ∀ b ∈ found, b.budget.IsFinite) :
    ∃ (least most : Option Value) (low high : Option Double.Finite),
      Option.Rel Means least low ∧ Option.Rel Means most high ∧
      (∀ x ∈ low, Natural x) ∧ (∀ x ∈ high, Natural x) ∧ priceFields found = boundFields least most := by
  have hbound : ∀ {n : Option Nat}, (∀ m, n = some m → ∃ x, Double.ofInt m = .finite x) →
      ∃ x : Option Double.Finite, Option.Rel Means (n.map fun n : Nat => Value.int n) x ∧
        ∀ y ∈ x, Natural y := by
    intro n hn
    cases n with
    | none => exact ⟨none, .none, fun _ h => by cases h⟩
    | some m =>
      obtain ⟨x, hx⟩ := hn m rfl
      obtain ⟨hw, hp⟩ := Double.isWhole_of_ofInt hx
      exact ⟨some x, .some (.int hx), fun y hy => Option.some.inj hy ▸ ⟨hw, hp⟩⟩
  cases found with
  | none => exact ⟨none, none, none, none, .none, .none, (fun _ h => by cases h), (fun _ h => by cases h), rfl⟩
  | some b =>
    obtain ⟨low, hlow, hlown⟩ := hbound (n := b.budget.least) fun m hm => h b rfl m (.inl hm)
    obtain ⟨high, hhigh, hhighn⟩ := hbound (n := b.budget.most) fun m hm => h b rfl m (.inr hm)
    exact ⟨_, _, low, high, hlow, hhigh, hlown, hhighn, b.budget.toFields_eq⟩

/-- What a cleaned text asks for, before normalization. -/
def rawLook (text : List Char) (budget : Option BudgetFound) (known : List String)
    (least most : Option Double.Finite) : Look where
  tokens name := ((Fields.get? (rawFilters text budget known) name).map textsOf).getD []
  least := least
  most := most
  inStock := true

/-- The fields that are read in a message. -/
def rawKeys : List Key :=
  ["include_categories", "sizes", "price", "brand", "in_stock", "occasion", "colors", "season", "fit",
    "silhouette", "pattern", "material"]

/-- Every field but the price and the stock holds a list of texts. -/
theorem texts_of_rawFilters {text : List Char} {budget : Option BudgetFound} {known : List String}
    {key : Key} {v : Value} (h : (key, v) ∈ rawFilters text budget known) :
    key = "price" ∨ key = "in_stock" ∨ ∃ xs, v = .ofStrings xs := by
  simp only [rawFilters, List.mem_cons, List.not_mem_nil, or_false, Prod.mk.injEq] at h
  rcases h with h | h | h | h | h | h | h | h | h | h | h | h
  all_goals
    obtain ⟨rfl, rfl⟩ := h
    first
    | exact .inl rfl
    | exact .inr (.inl rfl)
    | exact .inr (.inr ⟨_, rfl⟩)

/-- The field of a dimension holds what is found of it, in the text or what is left of the text. -/
theorem find_of_rawFilters {text : List Char} {budget : Option BudgetFound} {known : List String}
    {d : Dimension} {v : Value} (h : (Key.text d.name, v) ∈ rawFilters text budget known) :
    ∃ rest, v = .ofStrings (d.find rest) := by
  simp only [rawFilters, List.mem_cons, List.not_mem_nil, or_false, Prod.mk.injEq] at h
  rcases h with h | h | h | h | h | h | h | h | h | h | h | h
  all_goals
    obtain ⟨hd, rfl⟩ := h
    cases d
    all_goals
      first
      | exact absurd hd (by decide)
      | exact ⟨_, rfl⟩

theorem named_rawLook (text : List Char) (budget : Option BudgetFound) (known : List String)
    (least most : Option Double.Finite) : (rawLook text budget known least most).Named := by
  intro d c hc
  unfold rawLook at hc
  cases hv : Fields.get? (rawFilters text budget known) d.name with
  | none =>
    simp only [hv] at hc
    cases hc
  | some v =>
    obtain ⟨rest, rfl⟩ := find_of_rawFilters (Fields.mem_of_get? hv)
    simp only [hv, Option.map_some, Option.getD_some, textsOf_ofStrings] at hc
    exact Dimension.mem_tokens_of_find hc

theorem gives_rawFilters (text : List Char) {budget : Option BudgetFound} (known : List String)
    {least most : Option Value} {low high : Option Double.Finite} (hlow : Option.Rel Means least low)
    (hhigh : Option.Rel Means most high) (hp : priceFields budget = boundFields least most) :
    Gives Means (rawFilters text budget known) (rawLook text budget known low high) where
  nodup := by
    have hkeys : Fields.keys (rawFilters text budget known) = rawKeys := rfl
    rw [hkeys]
    decide
  others key hkey := by
    refine Classical.byContradiction fun hne => hkey ?_
    have hkeys : ∀ key ∈ rawKeys, key ∈ lookFields.map Key.text := by decide
    exact hkeys key ((Fields.mem_keys_iff _ key).mpr hne)
  tokens name hname := by
    unfold rawLook
    cases hv : Fields.get? (rawFilters text budget known) name with
    | none => exact .inr ⟨rfl, by simp only [hv]; rfl⟩
    | some v =>
      left
      rcases texts_of_rawFilters (Fields.mem_of_get? hv) with h | h | ⟨xs, rfl⟩
      · exact absurd hname (Key.text.inj h ▸ by decide)
      · exact absurd hname (Key.text.inj h ▸ by decide)
      · simp only [hv, Option.map_some, Option.getD_some, textsOf_ofStrings]
  inStock := rfl
  price := ⟨least, most, hlow, hhigh, .inl (congrArg (fun p => some (Value.object p)) hp)⟩

/-! ### what a message asks for -/

/-- Whatever is in stock. -/
def anyLook : Look :=
  { Look.none with inStock := true }

theorem settled_anyLook : anyLook.Settled where
  nodup := Look.settled_none.nodup
  texts := Look.settled_none.texts
  least := Look.settled_none.least
  most := Look.settled_none.most
  named := Look.settled_none.named
  shade := Look.settled_none.shade
  palette := Look.settled_none.palette

theorem shows_empty : Shows Means Extraction.empty.filters anyLook where
  nodup := by decide
  others key hkey := by
    refine Classical.byContradiction fun hne => hkey ?_
    have hkeys : ∀ key ∈ Fields.keys Extraction.empty.filters, key ∈ lookFields.map Key.text := by decide
    exact hkeys key ((Fields.mem_keys_iff _ key).mpr hne)
  tokens name hname := by
    have hstock : name ≠ "in_stock" := fun h => absurd hname (h ▸ by decide)
    show Fields.get? [(Key.text "in_stock", Value.bool true)] (Key.text name) = none
    rw [Fields.get?_cons, if_neg fun h => hstock (Key.text.inj h)]
    rfl
  inStock := rfl
  price := ⟨none, none, .none, .none, rfl⟩

/-- The message has budget numerals that are not above the greatest double. -/
def InRange (text : List Char) : Prop :=
  ∀ n ∈ numerals (clean text), n ≤ Double.largest

instance (text : List Char) : Decidable (InRange text) :=
  inferInstanceAs (Decidable (∀ n ∈ numerals (clean text), n ≤ Double.largest))

theorem hasFiniteBudget_of_inRange {text : List Char} (hlen : 2 * text.length ≤ Numeral.maxDigits)
    (hn : InRange text) : HasFiniteBudget text :=
  exists_findBudget (Nat.le_trans (length_clean text) hlen) hn

/-- **A message can be read**, and asks for something settled that does not mix pastel with another
color. -/
theorem exists_extractWith {text : List Char} (known : List String) (hbudget : HasFiniteBudget text) :
    ∃ e d, extractWith text (.ok known) = .ok e ∧ Shows Means e.filters d ∧ d.Settled ∧ ¬ d.Mixed := by
  by_cases hempty : (clean text).isEmpty
  · refine ⟨Extraction.empty, anyLook, ?_, shows_empty, ?_, ?_⟩
    · unfold extractWith
      rw [if_pos hempty]
      rfl
    · exact settled_anyLook
    · rintro ⟨⟨c, hc, -⟩, -⟩
      exact List.not_mem_nil hc
  · obtain ⟨found, hfound, hfinite⟩ := hbudget
    obtain ⟨least, most, low, high, hlow, hhigh, hlown, hhighn, hp⟩ := exists_bounds hfinite
    have hnamed := named_rawLook (clean text) found known low high
    refine ⟨Extraction.ofCleaned (clean text) found known, (rawLook (clean text) found known low high).tidied,
      ?_, ?_, hnamed.settled_tidied hlown hhighn, hnamed.not_mixed_tidied⟩
    · unfold extractWith
      rw [if_neg hempty, hfound]
      rfl
    · have hgives := gives_rawFilters (clean text) known hlow hhigh hp
      dsimp only [Extraction.ofCleaned]
      exact shows_normalize hgives fun _ _ h => h.isNumber

end Message

end Outfitter
