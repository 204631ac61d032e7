import Mathlib.Data.Fintype.Card
import Outfitter.Proofs.Dialogue.Bounds
import Outfitter.Proofs.Number.Decimal

/-!
What chips suggest, and how they are read.

A chip is of a group, which is offered while its slot is open, or shows a category that goes with those chosen
(`offered_of_ofMerged`). As messages the chips are no resets and ask about no event. What a chip suggests is what is
read in it: a greatest price, and nothing else of a price (`findBudget_of_chip`), or a season, colors or a category of
the vocabulary.
-/

namespace Outfitter.Dialogue

open Filters Message Taxonomy Text

/-! ### groups -/

/-- What the chips of a group suggest. -/
inductive Group where
  | budget
  | season
  | colors
  | categories
  deriving DecidableEq

/-- The chip for a greatest price. -/
def upTo (most : Nat) : String :=
  "Under $" ++ toString most

theorem upTo_injective {m n : Nat} (h : upTo m = upTo n) : m = n := by
  have hdigits : ∀ n : Nat, (toString n).toList = Nat.toDigits 10 n := fun n => String.toList_ofList
  have hsame : toString m = toString n := (String.append_right_inj _).mp h
  rw [← ofDigits_toDigits m, ← ofDigits_toDigits n, ← hdigits, ← hdigits, hsame]

/-- The greatest prices that are suggested. -/
def budgets : List Nat :=
  [50, 100, 150, 200]

/-- The chip for a category that goes with those chosen. -/
def toShow (category : String) : String :=
  "Show " ++ category

/-- The categories that go with some choice before all others. -/
def shownCategories : List String :=
  ["pants", "shoes", "tops", "accessories"]

namespace Group

instance : Fintype Group :=
  ⟨{budget, season, colors, categories}, fun g => by cases g <;> decide⟩

/-- Where the slot of the group is in the filters. -/
def path : Group → List String
  | budget => ["price", "max"]
  | season => ["season"]
  | colors => ["colors"]
  | categories => ["include_categories"]

def isFilledIn (g : Group) (filters : Fields) : Bool :=
  isFilledAt (.object filters) g.path

def chips : Group → List String
  | budget => budgets.map upTo
  | season => ["Spring", "Summer", "Fall", "Winter"]
  | colors => ["Black", "Navy", "Beige", "Pastel"]
  | categories => categoryChips

/-- No chip is of two groups. -/
theorem eq_of_mem {g g' : Group} {chip : String} (h : chip ∈ g.chips) (h' : chip ∈ g'.chips) : g = g' := by
  have hdisjoint : ∀ g g' : Group, ∀ chip ∈ g.chips, chip ∈ g'.chips → g = g' := by decide
  exact hdisjoint g g' chip h h'

end Group

/-- The chip shows a category, or its group has an open slot. -/
inductive Offered (filters : Fields) (chip : String) : Prop where
  | group (g : Group) (hchip : chip ∈ g.chips) (hopen : g.isFilledIn filters = false)
  | shown (category : String) (hcategory : category ∈ shownCategories) (hchip : chip = toShow category)

section

variable {filters : Fields} {chip : String}

/-- Distinct chips are some of the chips. -/
theorem mem_of_distinctChips {chips : List String} (h : chip ∈ distinctChips chips) : chip ∈ chips := by
  have hfold : ∀ (chips kept : List String), chip ∈ chips.foldl (fun kept chip =>
      let lower (s : String) := Text.lower s.toList
      if kept.any fun k => lower k == lower chip then kept else kept ++ [chip]) kept →
      chip ∈ kept ∨ chip ∈ chips := by
    intro chips
    induction chips with
    | nil => exact fun _ h => .inl h
    | cons c rest ih =>
      intro kept h
      rcases ih _ h with h | h
      · dsimp only at h
        split at h
        · exact .inl h
        · rcases List.mem_append.mp h with h | h
          · exact .inl h
          · exact .inr (List.mem_singleton.mp h ▸ List.mem_cons_self ..)
      · exact .inr (List.mem_cons_of_mem _ h)
  exact (hfold chips [] h).resolve_left List.not_mem_nil

/-- A chip for some filters is offered by its group, or shows the complement. -/
theorem cases_of_chips {complement : Option String} (h : chip ∈ chips (.object filters) complement) :
    (∃ g : Group, chip ∈ g.chips ∧ g.isFilledIn filters = false) ∨ ∃ category ∈ complement, chip = toShow category := by
  have hgroup : ∀ g : Group, chip ∈ (if isFilledAt (.object filters) g.path then [] else g.chips) →
      ∃ g : Group, chip ∈ g.chips ∧ g.isFilledIn filters = false := by
    intro g h
    split at h
    · cases h
    · rename_i hopen
      exact ⟨g, h, Bool.eq_false_iff.mpr hopen⟩
  have hall := mem_of_distinctChips (List.mem_of_mem_take h)
  rcases List.mem_append.mp hall with hall | hcategories
  · rcases List.mem_append.mp hall with hall | hshown
    · rcases List.mem_append.mp hall with hall | hcolors
      · rcases List.mem_append.mp hall with hbudget | hseason
        · exact .inl (hgroup .budget hbudget)
        · exact .inl (hgroup .season hseason)
      · exact .inl (hgroup .colors hcolors)
    · obtain ⟨category, hcategory, rfl⟩ := Option.map_eq_some_iff.mp (Option.mem_toList.mp hshown)
      exact .inr ⟨category, hcategory, rfl⟩
  · exact .inl (hgroup .categories hcategories)

/-- What complements categories is chosen by them. -/
theorem exists_of_complements {categories : Value} {found : List String}
    (h : complements categories = .ok found) : ∃ elements, found = complementsOf elements := by
  unfold complements at h
  cases helements : categories.demandOptionalElements with
  | error f =>
    rw [helements] at h
    cases h
  | ok elements =>
    rw [helements] at h
    have hlast : (elements.forM checkLookedUp >>= fun _ => Except.ok (complementsOf elements)) = .ok found := h
    cases hlooked : elements.forM checkLookedUp with
    | error f =>
      rw [hlooked] at hlast
      cases hlast
    | ok _ =>
      rw [hlooked] at hlast
      exact ⟨elements, (Except.ok.inj hlast).symm⟩

/-- The first complement is one of a few categories. -/
theorem shown_of_complementsFor {text : List Char} {found : List String}
    (h : Reply.complementsFor text filters = .ok found) : ∀ c ∈ found.head?, c ∈ shownCategories := by
  have hdefault : ∀ c ∈ defaultComplements.head?, c ∈ shownCategories := by decide
  unfold Reply.complementsFor at h
  dsimp only at h
  split at h
  · obtain ⟨elements, rfl⟩ := exists_of_complements h
    have hrule : ∀ rule ∈ complementRules, ∀ c ∈ rule.2.head?, c ∈ shownCategories := by decide
    unfold complementsOf
    cases hfind : complementRules.find? fun rule => (Value.str rule.1).isIn elements with
    | none => exact hdefault
    | some rule => exact hrule rule (List.mem_of_find?_eq_some hfind)
  · obtain rfl := Except.ok.inj h
    split
    · exact hdefault
    · exact nofun

/-- **The chips of a reply** are of groups whose slots are open, or show a category. -/
theorem offered_of_ofMerged {text : List Char} {intent : Intent} {r : Reply}
    (h : Reply.ofMerged text intent filters = .ok r) : ∀ chip ∈ r.quickReplies, Offered filters chip := by
  obtain ⟨hcomplements, -, -, hchips, -⟩ := parts_of_ofMerged h
  intro chip hchip
  rw [hchips] at hchip
  rcases cases_of_chips hchip with ⟨g, hg, hopen⟩ | ⟨category, hcategory, he⟩
  · exact .group g hg hopen
  · exact .shown category (shown_of_complementsFor hcomplements category hcategory) he

/-- A reset opens all slots, and its chips are the categories. -/
theorem offered_of_reset : ∀ chip ∈ Reply.afterReset.quickReplies, Offered [] chip :=
  fun _ hchip => .group .categories hchip rfl

/-! ### telling chips apart -/

/-- No chip of a group shows a category. -/
theorem not_toShow {g : Group} (h : chip ∈ g.chips) (category : String) : chip ≠ toShow category := by
  have hapart : ∀ g : Group, ∀ chip ∈ g.chips, ¬ "Show ".toList <+: chip.toList := by decide
  rintro rfl
  exact hapart g _ h ⟨category.toList, String.toList_append.symm⟩

/-- A chip of a group is offered only while the slot of the group is open. -/
theorem Offered.isOpen (h : Offered filters chip) {g : Group} (hg : chip ∈ g.chips) : g.isFilledIn filters = false := by
  cases h with
  | group g' hg' hopen => exact Group.eq_of_mem hg hg' ▸ hopen
  | shown category _ hshown => exact absurd hshown (not_toShow hg category)

/-- The chips for a greatest price are those of the budget. -/
theorem mem_budgets {most : Nat} (h : Offered filters (upTo most)) : most ∈ budgets := by
  have hprefix : "Under $".toList <+: (upTo most).toList := ⟨(toString most).toList, String.toList_append.symm⟩
  have hapart : ∀ g : Group, ∀ chip ∈ g.chips, "Under $".toList <+: chip.toList → g = .budget := by decide
  cases h with
  | group g hchip _ =>
    obtain rfl := hapart g _ hchip hprefix
    obtain ⟨n, hn, he⟩ := List.mem_map.mp hchip
    exact upTo_injective he ▸ hn
  | shown category _ hchip =>
    rw [hchip] at hprefix
    have hshow : "Show ".toList <+: (toShow category).toList := ⟨category.toList, String.toList_append.symm⟩
    have hsame := List.prefix_of_prefix_length_le hshow hprefix (by decide)
    exact absurd hsame (by decide)

/-- A chip that is offered and shows a category shows one that goes with some choice. -/
theorem shown_of_offered {category : String} (h : Offered filters (toShow category)) : category ∈ shownCategories := by
  cases h with
  | group g hchip _ => exact absurd rfl (not_toShow hchip category)
  | shown other hother he =>
    obtain rfl := (String.append_right_inj _).mp he
    exact hother

/-! ### reading chips -/

/-- All chips: those of the groups and those that show a category. -/
def allChips : List String :=
  Group.budget.chips ++ Group.season.chips ++ Group.colors.chips ++ Group.categories.chips ++
    shownCategories.map toShow

theorem Group.mem_allChips {g : Group} (h : chip ∈ g.chips) : chip ∈ allChips := by
  have hgroups : ∀ g : Group, ∀ chip ∈ g.chips, chip ∈ allChips := by decide
  exact hgroups g chip h

theorem Offered.mem_allChips (h : Offered filters chip) : chip ∈ allChips := by
  cases h with
  | group g hchip _ => exact g.mem_allChips hchip
  | shown category hcategory hchip =>
    exact List.mem_append_right _ (List.mem_map.mpr ⟨category, hcategory, hchip.symm⟩)

/-- As a message a chip is no reset. -/
theorem continuing_of_chip (h : chip ∈ allChips) : Continuing chip := by
  have hall : ∀ chip ∈ allChips, Continuing chip := by decide +kernel
  exact hall chip h

/-- The chip in lower case, which is how the vocabulary names what it suggests. -/
def lowered (chip : String) : String :=
  String.ofList (lower chip.toList)

/-- The chip names the category, or shows it. -/
inductive Names (chip category : String) : Prop where
  | base (hchip : chip ∈ Group.categories.chips) (he : category = lowered chip)
  | shown (hcategory : category ∈ shownCategories) (he : chip = toShow category)

variable {known : List String} {e : Extraction}

/-- A chip is read as its cleaned form, with the budget in it. -/
theorem exists_ofCleaned (h : chip ∈ allChips) (he : extract chip known = .ok e) :
    ∃ found, findBudget (clean chip.toList) = .ok found ∧
      e = Extraction.ofCleaned (clean chip.toList) found known := by
  have hall : ∀ chip ∈ allChips, clean chip.toList ≠ [] := by decide
  rcases cases_of_extractWith he with ⟨hblank, -⟩ | hread
  · exact absurd hblank (hall chip h)
  · exact hread

/-- A chip asks about no event. -/
theorem isEventFlow_of_chip (h : chip ∈ allChips) (he : extract chip known = .ok e) :
    e.intent.isEventFlow = false := by
  have hall : ∀ chip ∈ allChips,
      (intentOf (clean chip.toList) (Dimension.occasion.find (clean chip.toList))).isEventFlow = false := by
    decide +kernel
  obtain ⟨found, -, rfl⟩ := exists_ofCleaned h he
  exact hall chip h

/-- The chip for a greatest price is read as this price, and any other chip as none. -/
theorem findBudget_of_chip (h : chip ∈ allChips) {found : Option BudgetFound}
    (hfound : findBudget (clean chip.toList) = .ok found) :
    (∀ most ∈ budgets, chip = upTo most → boundIn found Budget.most = some (.int most)) ∧
      (chip ∉ Group.budget.chips → found = none) := by
  have hbudgets : ∀ most ∈ budgets, (findBudget (clean (upTo most).toList)).toOption.map
      (fun found => found.bind (·.budget.most)) = some (some most) := by
    decide +kernel
  have hothers : ∀ chip ∈ allChips, chip ∉ Group.budget.chips →
      (findBudget (clean chip.toList)).toOption.map Option.isNone = some true := by
    decide +kernel
  constructor
  · rintro most hmost rfl
    have hread := hbudgets most hmost
    rw [hfound] at hread
    have hbound : (found.bind fun b => b.budget.most) = some most := Option.some.inj hread
    obtain ⟨b, hb, hb'⟩ := Option.bind_eq_some_iff.mp hbound
    unfold boundIn
    rw [hb, Option.bind_some, hb']
    rfl
  · intro hother
    have hread := hothers chip h hother
    rw [hfound] at hread
    exact Option.isNone_iff_eq_none.mp (Option.some.inj hread)

/-- The greatest price that a chip names is stated in its filters. -/
theorem boundOf_budget_chip {most : Nat} (hmost : most ∈ budgets) (he : extract (upTo most) known = .ok e) :
    boundOf e.filters "max" = some (.int most) := by
  have hchip : upTo most ∈ allChips := Group.budget.mem_allChips (List.mem_map_of_mem hmost)
  obtain ⟨found, hfound, hprice⟩ := price_extractWith he
  rw [(boundOf_priceValue hprice).2]
  exact (findBudget_of_chip hchip hfound).1 most hmost rfl

/-- Any other chip states no price. -/
theorem get?_price_chip (h : chip ∈ allChips) (hother : chip ∉ Group.budget.chips)
    (he : extract chip known = .ok e) : Fields.get? e.filters "price" = none := by
  obtain ⟨found, hfound, hprice⟩ := price_extractWith he
  rw [hprice, (findBudget_of_chip h hfound).2 hother]
  rfl

/-- A list in the filters of a chip is what is read in the cleaned chip, tidied. -/
theorem get?_list_chip (h : chip ∈ allChips) (he : extract chip known = .ok e) {name : String}
    (hname : name ∈ listFields) {xs : List String} (hread : ∀ found,
      Fields.get? (rawFilters (clean chip.toList) found known) name = some (.ofStrings xs)) :
    Fields.get? e.filters name = listValue (tidied name xs) := by
  obtain ⟨found, -, rfl⟩ := exists_ofCleaned h he
  dsimp only [Extraction.ofCleaned]
  exact get?_normalize_list (holds_rawFilters (clean chip.toList) found known).nodup hname (hread found)

theorem get?_season_chip (h : chip ∈ Group.season.chips) (he : extract chip known = .ok e) :
    Fields.get? e.filters "season" = listValue [lowered chip] := by
  have hall : ∀ chip ∈ Group.season.chips,
      tidied "season" (Dimension.season.find (clean chip.toList)) = [lowered chip] := by
    decide +kernel
  rw [get?_list_chip (Group.season.mem_allChips h) he (by decide) fun _ => rfl, hall chip h]

theorem get?_colors_chip (h : chip ∈ Group.colors.chips) (he : extract chip known = .ok e) :
    ∃ c cs, Fields.get? e.filters "colors" = listValue (c :: cs) := by
  have hall : ∀ chip ∈ Group.colors.chips, tidied "colors"
      (Dimension.colors.find (Dimension.occasion.scan (clean chip.toList)).remaining) ≠ [] := by
    decide +kernel
  obtain ⟨c, cs, hcolors⟩ := List.exists_cons_of_ne_nil (hall chip h)
  refine ⟨c, cs, ?_⟩
  rw [get?_list_chip (Group.colors.mem_allChips h) he (by decide) fun _ => rfl, hcolors]

theorem get?_categories_chip {category : String} (h : Names chip category) (he : extract chip known = .ok e) :
    Fields.get? e.filters "include_categories" = listValue [category] := by
  have hbase : ∀ chip ∈ Group.categories.chips,
      tidied "include_categories" (Dimension.categories.find (clean chip.toList)) = [lowered chip] := by
    decide +kernel
  have hshown : ∀ category ∈ shownCategories,
      tidied "include_categories" (Dimension.categories.find (clean (toShow category).toList)) = [category] := by
    decide +kernel
  cases h with
  | base hchip hcategory =>
    rw [get?_list_chip (Group.categories.mem_allChips hchip) he (by decide) fun _ => rfl, hbase chip hchip, hcategory]
  | shown hcategory hchip =>
    subst hchip
    have hmem : toShow category ∈ allChips := List.mem_append_right _ (List.mem_map_of_mem hcategory)
    rw [get?_list_chip hmem he (by decide) fun _ => rfl, hshown category hcategory]

end

end Outfitter.Dialogue
