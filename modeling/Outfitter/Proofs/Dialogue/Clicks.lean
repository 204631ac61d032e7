import Outfitter.Proofs.Dialogue.Chips

/-!
Clicking on chips fills slots.

A chip that is clicked is sent as a message. What it suggests joins what has been asked for, and its slot is filled
(`Conversation.Asks.clicked`). A screen holds a conversation with the chips of its last answer, and goes with a look: chips of a
group are offered only while the look asks for nothing in it (`Screen.Keeps`). Until a reset looks only grow, so every
click on a chip of a group closes a slot for good, and there are four of them (`Screen.Keeps.clicks_add_open_le`).
-/

namespace Outfitter.Dialogue

open Filters Journal Message Taxonomy Text

/-! ### slots of groups -/

/-- The tokens asked for in a field are those that it lists. -/
theorem tokens_of_get? {counts : Value → Double.Finite → Prop} {filters : Fields} {l : Look}
    (h : Shows counts filters l) {name : String} (hname : name ∈ listFields) {xs : List String}
    (hget : Fields.get? filters name = listValue xs) : l.tokens name = xs :=
  listValue_injective ((h.tokens name hname).symm.trans hget)

namespace Group

/-- Something is asked for in the slot of the group. -/
def isMet (l : Look) : Group → Bool
  | budget => l.most.isSome
  | season => !(l.tokens "season").isEmpty
  | colors => !(l.tokens "colors").isEmpty
  | categories => !(l.tokens "include_categories").isEmpty

theorem isFilledIn_eq {filters : Fields} {l : Look} (h : Shows Is filters l) (g : Group) :
    g.isFilledIn filters = g.isMet l := by
  cases g with
  | budget => exact isFilledAt_max h
  | season => exact isFilledAt_tokens h (by decide)
  | colors => exact isFilledAt_tokens h (by decide)
  | categories => exact isFilledAt_tokens h (by decide)

/-- What earlier and later messages ask for together is what either asks for. -/
theorem isMet_join (l d : Look) (g : Group) : g.isMet (l.join d) = (g.isMet l || g.isMet d) := by
  have htokens : ∀ xs ys : List String, (!(firsts xs ys).isEmpty) = (!xs.isEmpty || !ys.isEmpty) := by
    intro xs ys
    have hempty : (firsts xs ys).isEmpty = (xs.isEmpty && ys.isEmpty) := by
      rw [Bool.eq_iff_iff, Bool.and_eq_true]
      simp only [List.isEmpty_iff, List.eq_nil_iff_forall_not_mem, mem_firsts, not_or, forall_and]
    rw [hempty, Bool.not_and]
  cases g with
  | budget =>
    show (d.most.or l.most).isSome = _
    rw [Option.isSome_or, Bool.or_comm]
    rfl
  | season => exact htokens _ _
  | colors => exact htokens _ _
  | categories => exact htokens _ _

end Group

/-! ### one click -/

/-- What becomes of filters when a chip is clicked that has been offered with them. -/
structure Clicked (before : Fields) (chip : String) (r : Reply) : Prop where
  /-- The chip is of a group or shows a category. -/
  kind : (∃ g : Group, chip ∈ g.chips) ∨ ∃ category, chip = toShow category
  /-- It is no reset. -/
  goesOn : isReset chip.toList = false ∧ r.cleared = false
  /-- Nothing is asked about an event. -/
  unasked : r.missing = []
  /-- The slot of its group was open, and is filled. -/
  fills : ∀ g : Group, chip ∈ g.chips → g.isFilledIn before = false ∧ g.isFilledIn r.filters = true
  budget : ∀ most : Nat, chip = upTo most →
    Group.budget.isFilledIn before = false ∧ boundOf r.filters "max" = some (.int most)
  season : chip ∈ Group.season.chips → Fields.get? r.filters "season" = some (.ofStrings [lowered chip])
  categories : ∀ category, chip = toShow category ∨ chip ∈ Group.categories.chips ∧ category = lowered chip →
    ∃ names, Fields.get? r.filters "include_categories" = some (.ofStrings names) ∧ category ∈ names
  /-- No slot is opened, -/
  keeps : ∀ g : Group, g.isFilledIn before = true → g.isFilledIn r.filters = true
  /-- the greatest price stays, -/
  most : ∀ v, boundOf before "max" = some v → boundOf r.filters "max" = some v
  /-- and so does all else. -/
  remembers : Conversation.Remembers before r.filters

namespace Conversation

variable {s : Conversation} {filters : Fields} {l d : Look} {chip : String} {known : List String} {e : Extraction}

/-- What a chip of a group asks for is in the group's slot. -/
theorem isMet_of_chip (hd : Shows Means e.filters d) (he : extract chip known = .ok e) {g : Group}
    (h : chip ∈ g.chips) : g.isMet d = true := by
  have hmet : ∀ {name : String} {c : String} {cs : List String}, name ∈ listFields →
      Fields.get? e.filters name = listValue (c :: cs) → (!(d.tokens name).isEmpty) = true := by
    intro name c cs hname hget
    rw [tokens_of_get? hd hname hget]
    rfl
  cases g with
  | budget =>
    obtain ⟨most, hmost, rfl⟩ := List.mem_map.mp h
    show d.most.isSome = true
    rw [← isSome_of_rel hd.boundOf.2, boundOf_budget_chip hmost he]
    rfl
  | season => exact hmet (by decide) (get?_season_chip h he)
  | colors =>
    obtain ⟨c, cs, hget⟩ := get?_colors_chip h he
    exact hmet (by decide) hget
  | categories => exact hmet (by decide) (get?_categories_chip (.base h rfl) he)

/-- The price that a chip suggests is the one that is merged, being a double. -/
theorem boundOf_of_budget (hkeys : filters.keys.Nodup) {most : Nat} (hmost : most ∈ budgets)
    (he : extract (upTo most) known = .ok e) : boundOf (merge filters e.filters) "max" = some (.int most) := by
  have hsmall : ∀ most ∈ budgets, most < 2 ^ 53 := by decide
  have hdouble : (Value.int most).isDouble = true := Value.isDouble_of_lt (hsmall most hmost)
  rw [boundOf_merge_of_stated hkeys (hasWholeBounds_extractWith he) (by decide) (boundOf_budget_chip hmost he),
    rounded?_int, beq_iff_eq.mp hdouble, Option.map_some]

/-- The season that a chip suggests is the only one, if there was none. -/
theorem get?_of_season (hshows : Shows Is filters (l.join d)) (hd : Shows Means e.filters d)
    (he : extract chip known = .ok e) (hseason : chip ∈ Group.season.chips) (hopen : Group.season.isMet l = false) :
    Fields.get? filters "season" = some (.ofStrings [lowered chip]) := by
  have hbefore : l.tokens "season" = [] := by simpa [Group.isMet] using hopen
  have htokens : d.tokens "season" = [lowered chip] := tokens_of_get? hd (by decide) (get?_season_chip hseason he)
  rw [hshows.tokens "season" (by decide)]
  show listValue (firsts (l.tokens "season") (d.tokens "season")) = _
  rw [hbefore, htokens]
  rfl

/-- The category that a chip suggests is one of those asked for. -/
theorem mem_of_names (hshows : Shows Is filters (l.join d)) (hd : Shows Means e.filters d)
    (he : extract chip known = .ok e) {category : String} (h : Names chip category) :
    ∃ names, Fields.get? filters "include_categories" = some (.ofStrings names) ∧ category ∈ names := by
  have htokens : d.tokens "include_categories" = [category] :=
    tokens_of_get? hd (by decide) (get?_categories_chip h he)
  have hin : category ∈ (l.join d).tokens "include_categories" :=
    mem_firsts.mpr (.inr (htokens ▸ List.mem_singleton_self category))
  refine ⟨_, ?_, hin⟩
  rw [hshows.tokens "include_categories" (by decide)]
  exact (listValue_cases _).resolve_right fun hnil => List.ne_nil_of_mem hin hnil.2

/-- A chip that is offered while there is a greatest price suggests none. -/
theorem not_budget_of_offered (h : Shows Is filters l) (hchip : Offered filters chip) {v : Value}
    (hv : boundOf filters "max" = some v) : chip ∉ Group.budget.chips := by
  intro hbudget
  have hopen : l.most.isSome = false := (Group.budget.isFilledIn_eq h).symm.trans (hchip.isOpen hbudget)
  rw [← isSome_of_rel h.boundOf.2, hv] at hopen
  cases hopen

/-- **A chip that is clicked fills its slot**, and what had been asked for stays. -/
theorem Asks.clicked (h : s.Asks l) (hchip : Offered s.filters chip) (known : List String) :
    ∃ r, (s.answer known chip).1 = .ok r ∧ Clicked s.filters chip r := by
  have hmem := hchip.mem_allChips
  have hgoesOn := continuing_of_chip hmem
  obtain ⟨r, e, d, hr, he, hmerged, hdelta, hnext⟩ := h.answered known hgoesOn
  obtain ⟨-, hfilters, hmissing, -, hcleared⟩ := parts_of_ofMerged hmerged
  have hshows : Shows Is r.filters (l.join d) := by
    rw [← hear_of_ok hr]
    exact hnext.shows
  have hjoined : ∀ g : Group, g.isFilledIn r.filters = (g.isFilledIn s.filters || g.isMet d) := by
    intro g
    rw [g.isFilledIn_eq hshows, g.isFilledIn_eq h.shows, g.isMet_join]
  refine ⟨r, hr, ?kind, ⟨hgoesOn.noReset, hcleared⟩, ?unasked, ?fills, ?budget, ?season, ?categories, ?keeps, ?most,
    remembers_of_within h.shows hshows (l.within_join d)⟩
  case kind =>
    cases hchip with
    | group g hg _ => exact .inl ⟨g, hg⟩
    | shown category _ hshown => exact .inr ⟨category, hshown⟩
  case unasked => rw [hmissing, isEventFlow_of_chip hmem he, if_neg Bool.false_ne_true, List.map_nil]
  case fills =>
    intro g hg
    refine ⟨hchip.isOpen hg, ?_⟩
    rw [hjoined, isMet_of_chip hdelta he hg, Bool.or_true]
  case budget =>
    rintro most rfl
    have hmost := mem_budgets hchip
    refine ⟨hchip.isOpen (List.mem_map_of_mem hmost), ?_⟩
    rw [hfilters]
    exact boundOf_of_budget h.shows.nodup hmost he
  case season =>
    intro hseason
    have hopen : Group.season.isMet l = false :=
      (Group.season.isFilledIn_eq h.shows).symm.trans (hchip.isOpen hseason)
    exact get?_of_season hshows hdelta he hseason hopen
  case categories =>
    rintro category (rfl | ⟨hbase, hname⟩)
    · exact mem_of_names hshows hdelta he (.shown (shown_of_offered hchip) rfl)
    · exact mem_of_names hshows hdelta he (.base hbase hname)
  case keeps =>
    intro g hg
    rw [hjoined, hg, Bool.true_or]
  case most =>
    intro v hv
    have hother := not_budget_of_offered h.shows hchip hv
    rw [hfilters, boundOf_merge_of_unpriced h.shows h.settled.toNeat (get?_price_chip hmem hother he), hv]

end Conversation

/-! ### screens -/

/-- A message, with the brands that are known when it is sent. -/
structure Said where
  text : String
  known : List String

/-- A conversation with the chips that its last answer offers. -/
structure Screen where
  conversation : Conversation
  chips : List String

namespace Screen

/-- Before the first message. -/
def blank (journal : Context) : Screen :=
  ⟨⟨[], journal⟩, []⟩

def filters (s : Screen) : Fields :=
  s.conversation.filters

/-- The screen after one more message. What is answered by a fault leaves the chips. -/
def say (s : Screen) (t : Said) : Screen where
  conversation := s.conversation.hear t.known t.text
  chips :=
    match (s.conversation.answer t.known t.text).1 with
    | .ok r => r.quickReplies
    | .error _ => s.chips

def after (s : Screen) (turns : List Said) : Screen :=
  turns.foldl say s

/-- How many of the messages click on a chip of a group. -/
def clicks : Screen → List Said → Nat
  | _, [] => 0
  | s, t :: turns => (if t.text ∈ s.chips ∧ ∃ g : Group, t.text ∈ g.chips then 1 else 0) + (s.say t).clicks turns

/-- The groups whose slots are open. -/
def openGroups (s : Screen) : Finset Group :=
  Finset.univ.filter fun g => g.isFilledIn s.filters = false

/-- The screen comes up after some messages without a run of more than three hundred digits. -/
def IsReached (s : Screen) : Prop :=
  ∃ journal turns, (∀ t ∈ turns, RunsWithin 300 t.text.toList) ∧ s = (blank journal).after turns

/-- The filters ask for this, and the chips go with them. -/
structure Keeps (s : Screen) (l : Look) : Prop where
  asks : s.conversation.Asks l
  offered : ∀ chip ∈ s.chips, Offered s.filters chip

variable {s : Screen} {t : Said} {turns : List Said} {l : Look}

theorem keeps_blank (journal : Context) : (blank journal).Keeps Look.none :=
  ⟨Conversation.asks_nothing journal, fun _ h => absurd h List.not_mem_nil⟩

theorem say_of_ok {r : Reply} (h : (s.conversation.answer t.known t.text).1 = .ok r) :
    (s.say t).filters = r.filters ∧ (s.say t).chips = r.quickReplies := by
  refine ⟨Conversation.hear_of_ok h, ?_⟩
  unfold say
  rw [h]

/-- A reset clears the screen. -/
theorem Keeps.reset (ht : isReset t.text.toList = true) : (s.say t).Keeps Look.none := by
  have hr : (s.conversation.answer t.known t.text).1 = .ok Reply.afterReset := by
    rw [Conversation.answer_eq, Assistant.Turn.outcomeWhen_replied (demandOptionalText_str t.text "strip"), if_pos ht]
  obtain ⟨hfilters, hchips⟩ := say_of_ok hr
  refine ⟨⟨?_, Look.settled_none⟩, ?_⟩
  · show Shows Is (s.say t).filters Look.none
    rw [hfilters]
    exact shows_none
  · rw [hfilters, hchips]
    exact offered_of_reset

/-- Any other message adds to what is asked for, and the chips go with the merged filters. -/
theorem Keeps.goOn (h : s.Keeps l) (ht : Continuing t.text) : ∃ d, (s.say t).Keeps (l.join d) := by
  obtain ⟨r, e, d, hr, -, hmerged, -, hnext⟩ := h.asks.answered t.known ht
  obtain ⟨hfilters, hchips⟩ := say_of_ok hr
  refine ⟨d, hnext, ?_⟩
  rw [hfilters, hchips, (filters_of_ofMerged hmerged).1]
  exact offered_of_ofMerged hmerged

/-- Whatever is said, the chips go with the filters. -/
theorem Keeps.after (h : s.Keeps l) (ht : ∀ t ∈ turns, RunsWithin 300 t.text.toList) :
    ∃ l', (s.after turns).Keeps l' := by
  induction turns generalizing s l with
  | nil => exact ⟨l, h⟩
  | cons t turns ih =>
    obtain ⟨hruns, hrest⟩ := List.forall_mem_cons.mp ht
    cases hreset : isReset t.text.toList with
    | true => exact ih (Keeps.reset hreset) hrest
    | false =>
      obtain ⟨d, hnext⟩ := h.goOn ⟨hreset, hruns⟩
      exact ih hnext hrest

theorem IsReached.keeps (h : s.IsReached) : ∃ l, s.Keeps l := by
  obtain ⟨journal, turns, ht, rfl⟩ := h
  exact (keeps_blank journal).after ht

/-! ### open groups -/

theorem mem_openGroups {g : Group} : g ∈ s.openGroups ↔ g.isFilledIn s.filters = false := by
  unfold openGroups
  rw [Finset.mem_filter, and_iff_right (Finset.mem_univ g)]

/-- A group is offered only while its slot is open. -/
theorem Keeps.mem_openGroups (h : s.Keeps l) {g : Group} {chip : String} (hchip : chip ∈ s.chips)
    (hg : chip ∈ g.chips) : g ∈ s.openGroups := by
  rw [Screen.mem_openGroups]
  exact (h.offered chip hchip).isOpen hg

/-- No message but a reset opens a slot. -/
theorem Keeps.openGroups_goOn (h : s.Keeps l) (ht : Continuing t.text) : (s.say t).openGroups ⊆ s.openGroups := by
  obtain ⟨d, hnext⟩ := h.goOn ht
  intro g hg
  rw [Screen.mem_openGroups] at hg ⊢
  have hshows : Shows Is (s.say t).filters (l.join d) := hnext.asks.shows
  rw [g.isFilledIn_eq hshows, g.isMet_join, Bool.or_eq_false_iff] at hg
  have hbefore : Shows Is s.filters l := h.asks.shows
  rw [g.isFilledIn_eq hbefore]
  exact hg.1

/-- A click on a chip of a group closes its slot. -/
theorem Keeps.not_mem_openGroups (h : s.Keeps l) (hchip : t.text ∈ s.chips) {g : Group} (hg : t.text ∈ g.chips) :
    g ∉ (s.say t).openGroups := by
  obtain ⟨r, hr, hclicked⟩ := h.asks.clicked (h.offered t.text hchip) t.known
  rw [Screen.mem_openGroups, (say_of_ok hr).1, (hclicked.fills g hg).2]
  exact nofun

theorem Keeps.openGroups_after (h : s.Keeps l) (ht : ∀ t ∈ turns, Continuing t.text) :
    (s.after turns).openGroups ⊆ s.openGroups := by
  induction turns generalizing s l with
  | nil => exact Finset.Subset.refl _
  | cons t turns ih =>
    obtain ⟨hgoesOn, hrest⟩ := List.forall_mem_cons.mp ht
    obtain ⟨d, hnext⟩ := h.goOn hgoesOn
    exact (ih hnext hrest).trans (h.openGroups_goOn hgoesOn)

/-- Every click on a chip of a group closes a slot, and no other message but a reset opens one. -/
theorem Keeps.clicks_add_open_le (h : s.Keeps l) (ht : ∀ t ∈ turns, Continuing t.text) :
    s.clicks turns + (s.after turns).openGroups.card ≤ s.openGroups.card := by
  induction turns generalizing s l with
  | nil => exact Nat.le_of_eq (Nat.zero_add _)
  | cons t turns ih =>
    obtain ⟨hgoesOn, hrest⟩ := List.forall_mem_cons.mp ht
    obtain ⟨d, hnext⟩ := h.goOn hgoesOn
    have hlater := ih hnext hrest
    have hsubset := h.openGroups_goOn hgoesOn
    show (if t.text ∈ s.chips ∧ ∃ g : Group, t.text ∈ g.chips then 1 else 0) + (s.say t).clicks turns +
      ((s.say t).after turns).openGroups.card ≤ _
    split
    · rename_i hclick
      obtain ⟨hchip, g, hg⟩ := hclick
      have hfewer : (s.say t).openGroups ⊂ s.openGroups :=
        (Finset.ssubset_iff_of_subset hsubset).mpr
          ⟨g, h.mem_openGroups hchip hg, h.not_mem_openGroups hchip hg⟩
      have := Finset.card_lt_card hfewer
      omega
    · have := Finset.card_le_card hsubset
      omega

/-- **Clicking on chips fills slots.** Whatever has been said, any chip that is offered can be clicked, and fills what
it suggests. Until a reset, no chip of its group is offered again; and after four clicks on chips of groups, there
being no more, none of their chips is. -/
theorem clicking_fills_slots (h : s.IsReached) :
    (∀ chip ∈ s.chips, ∀ known, ∃ r, (s.conversation.answer known chip).1 = .ok r ∧ Clicked s.filters chip r) ∧
    (∀ (g : Group) (t : Said), t.text ∈ s.chips → t.text ∈ g.chips → ∀ turns : List Said,
      (∀ u ∈ turns, Continuing u.text) → ∀ chip ∈ g.chips, chip ∉ ((s.say t).after turns).chips) ∧
    ∀ turns : List Said, (∀ u ∈ turns, Continuing u.text) → s.clicks turns ≤ 4 ∧
      (s.clicks turns = 4 → ∀ g : Group, ∀ chip ∈ g.chips, chip ∉ (s.after turns).chips) := by
  obtain ⟨l, hl⟩ := h.keeps
  refine ⟨fun chip hchip known => hl.asks.clicked (hl.offered chip hchip) known, ?_, ?_⟩
  · intro g t hchip hg turns hturns chip hsame hoffered
    obtain ⟨d, hnext⟩ := hl.goOn (continuing_of_chip (hl.offered t.text hchip).mem_allChips)
    obtain ⟨l', hlater⟩ := hnext.after fun u hu => (hturns u hu).runs
    have hopen := hnext.openGroups_after hturns (hlater.mem_openGroups hoffered hsame)
    exact hl.not_mem_openGroups hchip hg hopen
  · intro turns hturns
    have hall : s.openGroups.card ≤ 4 := Finset.card_le_univ s.openGroups
    have hfewer := hl.clicks_add_open_le hturns
    refine ⟨by omega, fun hfour g chip hg hoffered => ?_⟩
    obtain ⟨l', hlater⟩ := hl.after fun u hu => (hturns u hu).runs
    have hpositive := Finset.card_pos.mpr ⟨g, hlater.mem_openGroups hoffered hg⟩
    omega

/-- The screen after a greeting. -/
def greeted : Screen :=
  (blank (.initial false)).after [⟨"hi", []⟩]

theorem isReached_greeted : greeted.IsReached :=
  ⟨.initial false, [⟨"hi", []⟩], by decide +kernel, rfl⟩

/-- A greeting is answered with a budget among the chips. One click on it is read, and no budget is offered after
another greeting. -/
theorem clicking_fills_slots_greeted :
    greeted.IsReached ∧ "Under $50" ∈ greeted.chips ∧
    (∃ r, (greeted.conversation.answer [] "Under $50").1 = .ok r ∧ boundOf r.filters "max" = some (.int 50)) ∧
    ∀ chip ∈ Group.budget.chips, chip ∉ ((greeted.say ⟨"Under $50", []⟩).after [⟨"hi", []⟩]).chips := by
  have hoffered : "Under $50" ∈ greeted.chips := by decide +kernel
  have hbudget : "Under $50" ∈ Group.budget.chips := by decide
  have hgoesOn : ∀ u ∈ [Said.mk "hi" []], Continuing u.text := by decide +kernel
  obtain ⟨hclicked, hagain, -⟩ := clicking_fills_slots isReached_greeted
  obtain ⟨r, hr, hfills⟩ := hclicked "Under $50" hoffered []
  exact ⟨isReached_greeted, hoffered, ⟨r, hr, (hfills.budget 50 rfl).2⟩,
    hagain .budget ⟨"Under $50", []⟩ hoffered hbudget [⟨"hi", []⟩] hgoesOn⟩

end Screen

end Outfitter.Dialogue
