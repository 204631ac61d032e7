import Outfitter.Proofs.Filters.Idempotent
import Outfitter.Proofs.Message.Heard
import Outfitter.Proofs.Plan.AsksFor

/-!
What a plan keeps of normalized filters.

The compiler reads the lists of filters as if they were written by a request: the texts in them are split at
commas and trimmed once more (`asked?_of_tidy`). So it keeps a list exactly if every text in it is one piece.
Of what a message is read to say, only a known brand can be anything else (`piece_or_known`).
-/

namespace Outfitter

/-- The texts of which a product has to have one under a name of the filters, if the plan asks for any. -/
def QueryPlan.asked? (plan : QueryPlan) (name : String) : Option Value :=
  match List.lookup name Plan.categoricalFields with
  | some field => plan.condition? field
  | none =>
    match plan.stage? "variant_match" with
    | some (.variantMatch colors sizes _) =>
      if name = "colors" then colors.map .ofStrings
      else if name = "sizes" then sizes.map .ofStrings
      else none
    | _ => none

namespace Filters

open Message

variable {f : Fields} {name : String}

/-! ### filters that are normal -/

/-- Normalized filters whose lists hold texts. -/
structure Tidy (f : Fields) : Prop where
  normal : normalize f = f
  lists : ∀ name ∈ listFields, ∀ v, Fields.get? f name = some v → ∃ xs, v = .ofStrings xs

/-- What is searched for and the order can be written as texts. -/
structure Legible (f : Fields) : Prop where
  query : (Fields.value f "q").isWritable = true
  sort : (lastGiven (Fields.value f "sort")).isWritable = true

/-- A field for a list is there exactly if there is something in the list. -/
theorem Tidy.get? (h : Tidy f) (hname : name ∈ listFields) :
    Fields.get? f name = listValue (textsOf (Fields.value f name)) := by
  unfold Fields.value
  cases hv : Fields.get? f name with
  | none => rfl
  | some v =>
    obtain ⟨xs, rfl⟩ := h.lists name hname v hv
    have hsolid : (Value.ofStrings xs).isSolid = true := by
      have hpruned : Value.pruneFields (canonical f) = f := h.normal
      have hall := Value.haveSolid_pruneFields (canonical f)
      rw [hpruned] at hall
      exact (Value.haveSolid_iff f).mp hall _ (Fields.mem_of_get? hv)
    rw [Option.getD_some, textsOf_ofStrings]
    cases xs with
    | nil => cases hsolid
    | cons => rfl

theorem Tidy.listed (h : Tidy f) (hname : name ∈ listFields) :
    listed (Fields.value f name) = (textsOf (Fields.value f name)).flatMap splitList := by
  have hvalue : Fields.value f name = (listValue (textsOf (Fields.value f name))).getD .null :=
    congrArg (Option.getD · Value.null) (h.get? hname)
  generalize textsOf (Fields.value f name) = xs at hvalue
  rw [hvalue]
  cases xs with
  | nil => rfl
  | cons x xs => exact listed_texts (x :: xs)

end Filters

namespace Plan

open Filters Journal Message

variable {f : Fields} {fields : Value} {name : String}

/-- The lists that a plan asks for by themselves. -/
def askedFields : List String :=
  categoricalFields.map Prod.fst ++ ["colors", "sizes"]

theorem askedFields_subset : ∀ name ∈ askedFields, name ∈ listFields := by
  decide

/-- The stage that asks for colors and sizes. -/
theorem variantMatch_compile (filters : Fields) (fields : Value) :
    (compile filters fields).stage? "variant_match" =
      if !(listed (Fields.value filters "colors")).isEmpty || !(listed (Fields.value filters "sizes")).isEmpty ||
        wantsStock filters then
        some (.variantMatch (someList (listed (Fields.value filters "colors")))
          (someList (listed (Fields.value filters "sizes"))) (wantsStock filters))
      else none := by
  split
  · rename_i hwanted
    obtain ⟨stage, hstage, hkind⟩ := List.mem_map.mp (variantMatch_mem_kinds.mpr hwanted)
    cases stage with
    | variantMatch colors sizes inStock =>
      obtain ⟨rfl, rfl, rfl⟩ := mem_variantMatch hstage
      exact QueryPlan.stage?_of_mem (nodup_kinds filters fields) hstage
    | _ => simp [Stage.kind] at hkind
  · rename_i hwanted
    exact QueryPlan.stage?_of_not_mem fun h => hwanted (variantMatch_mem_kinds.mp h)

/-- Under each name a plan asks for what the filters list there. -/
theorem asked?_compile (hname : name ∈ askedFields) :
    (compile f fields).asked? name = listValue (listed (Fields.value f name)) := by
  rcases List.mem_append.mp hname with hname | hname
  · obtain ⟨p, hp, rfl⟩ := List.mem_map.mp hname
    have hlookup : ∀ p ∈ categoricalFields, List.lookup p.1 categoricalFields = some p.2 := by decide
    unfold QueryPlan.asked?
    rw [hlookup p hp]
    exact condition?_eq_listed hp
  · have hlookup : ∀ name ∈ ["colors", "sizes"], List.lookup name categoricalFields = none := by decide
    unfold QueryPlan.asked?
    rw [hlookup name hname, variantMatch_compile]
    dsimp only
    simp only [List.mem_cons, List.not_mem_nil, or_false] at hname
    split
    · rename_i heq
      split at heq
      · obtain ⟨rfl, rfl, -⟩ := Stage.variantMatch.inj (Option.some.inj heq)
        rcases hname with rfl | rfl
        · exact map_someList _
        · exact map_someList _
      · cases heq
    · rename_i hnone
      split at hnone
      · exact absurd rfl (hnone _ _ _)
      · -- without the stage there is nothing to ask for
        rename_i hwanted
        rw [Bool.not_eq_true, Bool.or_eq_false_iff, Bool.or_eq_false_iff, Bool.not_eq_false', Bool.not_eq_false',
          List.isEmpty_iff, List.isEmpty_iff] at hwanted
        rcases hname with rfl | rfl
        · rw [hwanted.1.1]
          rfl
        · rw [hwanted.1.2]
          rfl

/-- What a plan asks for under a name is what tidy filters list there, split at commas and trimmed. So it is just
what they list exactly if each of the texts is one piece. -/
theorem asked?_of_tidy (h : Tidy f) (hname : name ∈ askedFields) :
    (compile f fields).asked? name = listValue ((textsOf (Fields.value f name)).flatMap splitList) ∧
      ((compile f fields).asked? name = Fields.get? f name ↔ ∀ x ∈ textsOf (Fields.value f name), Piece x) := by
  have hlist := askedFields_subset name hname
  rw [asked?_compile hname, h.listed hlist, h.get? hlist, ← flatMap_splitList_eq_iff]
  exact ⟨rfl, listValue_injective, congrArg listValue⟩

theorem askable_of_tidy (h : Tidy f) (hlegible : Legible f) : Askable f := by
  refine ⟨fun name hname => ?_, hlegible.query, hlegible.sort⟩
  unfold Fields.value
  cases hv : Fields.get? f name with
  | none => rfl
  | some v =>
    obtain ⟨xs, rfl⟩ := h.lists name (askedFields_subset name hname) v hv
    exact Value.isWritable_texts xs

theorem outcomeWhen_of_tidy (h : Tidy f) (hlegible : Legible f) (hfields : fields.isWritable = true)
    (d : Bool) : (compiled (.object f) fields).outcomeWhen d = .ok (compile f fields) :=
  outcomeWhen_compiled_of_askable (askable_of_tidy h hlegible) (demandProjection_eq hfields) d

/-- Filters that have a plan are legible. -/
theorem legible_of_compiled {d : Bool} {plan : QueryPlan}
    (h : (compiled (.object f) fields).outcomeWhen d = .ok plan) : Legible f := by
  obtain ⟨haskable, -⟩ := askable_of_compiled h
  exact ⟨haskable.query, haskable.sort⟩

end Plan

/-! ### what a message is read to say -/

namespace Message

open Filters Taxonomy Text

variable {known : List String} {text : List Char} {name x : String} {e : Extraction}

/-- The tokens of a vocabulary are single pieces. -/
theorem piece_of_token {d : Dimension} (h : x ∈ d.tokens) : Piece x := by
  have htokens : ∀ x ∈ d.tokens, ',' ∉ x.toList ∧ trim x.toList = x.toList ∧ x ≠ "" := by
    cases d <;> decide
  obtain ⟨hcomma, htrim, hne⟩ := htokens x h
  exact ⟨plain_of_trim hcomma htrim, hne⟩

theorem piece_of_isSize (h : IsSize x) : Piece x := by
  rcases h with hletters | ⟨hlength, hdigits⟩
  · have hall : ∀ x ∈ ["XS", "S", "M", "L", "XL"], ',' ∉ x.toList ∧ trim x.toList = x.toList ∧ x ≠ "" := by
      decide
    obtain ⟨hcomma, htrim, hne⟩ := hall x hletters
    exact ⟨plain_of_trim hcomma htrim, hne⟩
  · have hblank : ∀ c ∈ x.toList, isBlank c = false := fun c hc => by
      cases hb : isBlank c with
      | false => rfl
      | true => exact absurd (hdigits c hc) (by rw [isDigit_blank hb]; exact Bool.false_ne_true)
    refine ⟨⟨fun hmem => absurd (hdigits _ hmem) (by decide), ?_, ?_⟩, ?_⟩
    · exact fun c hc => hblank c (List.mem_of_head? hc)
    · exact fun c hc => hblank c (List.mem_of_getLast? hc)
    · rintro rfl
      rcases hlength with h | h <;> cases h

theorem parts_brandPhrase : brandPhrase.parts = [Pattern.run isBrandChar 2 none] :=
  rfl

/-- Of the blanks only the space may stand in a brand that is guessed, and never at its ends. -/
theorem blank_of_isBrandChar {c : Char} (hblank : isBlank c = true) (h : isBrandChar c = true) :
    " .-'&".toList.contains c = true := by
  have hall : blankChars.all (fun c => decide (isBrandChar c = true → " .-'&".toList.contains c = true)) = true := by
    decide +kernel
  exact of_isBlank hall hblank h

/-- A brand that is guessed is a single piece. -/
theorem piece_of_guessBrand (h : guessBrand text = some x) : Piece x := by
  obtain ⟨found, hfound, h⟩ := Option.bind_eq_some_iff.mp h
  obtain ⟨name, hname, h⟩ := Option.bind_eq_some_iff.mp h
  obtain ⟨-, q, hq, hreads⟩ := Pattern.parts_of_search hfound name (List.mem_of_head? hname)
  rw [parts_brandPhrase, List.mem_singleton] at hq
  subst hq
  obtain ⟨⟨hall, -, -⟩, -, -⟩ := Pattern.spelled_of_run hreads
  have hchars : ∀ c ∈ trimBy (" .-'&".toList.contains ·) name.text, isBrandChar c = true :=
    fun c hc => hall c (mem_trimBy hc)
  have hends := ends_trimBy (" .-'&".toList.contains ·) name.text
  dsimp only at h
  generalize trimBy (" .-'&".toList.contains ·) name.text = guess at h hchars hends
  have hsolid : ∀ c ∈ guess, " .-'&".toList.contains c = false → isBlank c = false := by
    intro c hc hmark
    cases hb : isBlank c with
    | false => rfl
    | true => cases hmark.symm.trans (blank_of_isBrandChar hb (hchars c hc))
  split at h
  · rename_i hlength
    obtain rfl := Option.some.inj h
    refine ⟨⟨?_, ?_, ?_⟩, ?_⟩
    · rw [String.toList_ofList]
      exact fun hmem => absurd (hchars _ hmem) (by decide)
    · rw [String.toList_ofList]
      exact fun c hc => hsolid c (List.mem_of_head? hc) (hends.1 c hc)
    · rw [String.toList_ofList]
      exact fun c hc => hsolid c (List.mem_of_getLast? hc) (hends.2 c hc)
    · intro hempty
      have hnil : guess = [] := String.toList_ofList.symm.trans (congrArg String.toList hempty)
      rw [hnil] at hlength
      exact absurd hlength.1 (by decide)
  · cases h

theorem piece_of_speakable (hname : name ≠ "brand") (h : Speakable known name x) : Piece x := by
  unfold Speakable at h
  split at h
  · exact piece_of_token (d := .categories) h
  · exact piece_of_token (d := .colors) h.1
  · exact piece_of_isSize h
  · exact absurd rfl hname
  · exact piece_of_token (d := .occasion) h
  · exact piece_of_token (d := .season) h
  · exact piece_of_token (d := .fit) h
  · exact piece_of_token (d := .silhouette) h
  · exact piece_of_token (d := .pattern) h
  · exact piece_of_token (d := .material) h
  · cases h

theorem piece_or_known_of_brands (h : x ∈ brands text known) : Piece x ∨ x ∈ known := by
  have hfirsts : knownBrands text known = firsts [] (known.filter (namesBrand text)) := rfl
  unfold brands at h
  split at h
  · exact .inl (piece_of_guessBrand (Option.mem_toList.mp h))
  · rw [hfirsts] at h
    exact .inr (List.mem_filter.mp ((mem_firsts.mp h).resolve_left List.not_mem_nil)).1

/-- The brands of a message are those that are read in its cleaned text. -/
theorem brands_of_extractWith (h : extractWith text (.ok known) = .ok e)
    (hx : x ∈ textsOf (Fields.value e.filters "brand")) : x ∈ brands (clean text) known := by
  rcases cases_of_extractWith h with ⟨-, rfl⟩ | ⟨found, -, rfl⟩
  · cases hx
  · have hraw : Fields.get? (rawFilters (clean text) found known) "brand" =
        some (.ofStrings (brands (clean text) known)) := rfl
    have hrule : (brands (clean text) known).map (ruleOf "brand") = brands (clean text) known :=
      List.map_id _
    unfold Fields.value at hx
    dsimp only [Extraction.ofCleaned] at hx
    rw [get?_normalize_list (holds_rawFilters (clean text) found known).nodup (by decide) hraw] at hx
    have htidied : x ∈ tidied "brand" (brands (clean text) known) := by
      rcases listValue_cases (tidied "brand" (brands (clean text) known)) with he | ⟨he, -⟩
      · rwa [he, Option.getD_some, textsOf_ofStrings] at hx
      · rw [he] at hx
        cases hx
    have hmem := mem_tidied htidied
    rwa [hrule] at hmem

/-- What a message lists is a single piece, if it is not a known brand. -/
theorem piece_or_known (h : extractWith text (.ok known) = .ok e) (hname : name ∈ Plan.askedFields)
    (hx : x ∈ textsOf (Fields.value e.filters name)) : Piece x ∨ name = "brand" ∧ x ∈ known := by
  by_cases hbrand : name = "brand"
  · subst hbrand
    exact (piece_or_known_of_brands (brands_of_extractWith h hx)).imp_right fun hk => ⟨rfl, hk⟩
  · left
    unfold Fields.value at hx
    cases hv : Fields.get? e.filters name with
    | none =>
      rw [hv] at hx
      cases hx
    | some v =>
      obtain ⟨xs, rfl, hxs⟩ :=
        (spoken_list (Plan.askedFields_subset name hname) v).mp ((holds_extractWith h).1.get? hv)
      rw [hv, Option.getD_some, textsOf_ofStrings] at hx
      exact piece_of_speakable hbrand (hxs.each x hx)

/-- Under a name that nothing is spoken of there is nothing. -/
theorem value_of_unspoken (h : extractWith text (.ok known) = .ok e) (hprice : name ≠ "price")
    (hstock : name ≠ "in_stock") (hname : ∀ c, ¬ Speakable known name c) :
    Fields.value e.filters name = .null := by
  unfold Fields.value
  cases hv : Fields.get? e.filters name with
  | none => rfl
  | some v =>
    have hspoken := (holds_extractWith h).1.get? hv
    unfold Spoken at hspoken
    rw [if_neg hprice, if_neg hstock] at hspoken
    obtain ⟨xs, -, hxs⟩ := hspoken
    obtain ⟨x, hx⟩ := List.exists_mem_of_ne_nil xs hxs.nonempty
    exact absurd (hxs.each x hx) (hname x)

theorem normalize_extractWith (h : extractWith text (.ok known) = .ok e) :
    normalize e.filters = e.filters := by
  rcases cases_of_extractWith h with ⟨-, rfl⟩ | ⟨found, -, rfl⟩
  · rfl
  · have hflat : HasFlatLists (rawFilters (clean text) found known) := by
      intro name hname items hitems v hv
      have hother : ∀ name ∈ listFields, name ≠ "price" ∧ name ≠ "in_stock" := by decide
      rcases texts_of_rawFilters (Fields.mem_of_get? hitems) with he | he | ⟨xs, he⟩
      · exact absurd (Key.text.inj he) (hother name hname).1
      · exact absurd (Key.text.inj he) (hother name hname).2
      · cases he
        obtain ⟨s, -, rfl⟩ := List.mem_map.mp hv
        trivial
    dsimp only [Extraction.ofCleaned]
    exact normalize_normalize (holds_rawFilters (clean text) found known).nodup hflat

/-- The filters of a message are tidy, and legible. -/
theorem tidy_extractWith (h : extractWith text (.ok known) = .ok e) : Tidy e.filters ∧ Legible e.filters := by
  have hquery : Fields.value e.filters "q" = .null :=
    value_of_unspoken h (by decide) (by decide) fun c => by simp [Speakable]
  have hsort : Fields.value e.filters "sort" = .null :=
    value_of_unspoken h (by decide) (by decide) fun c => by simp [Speakable]
  refine ⟨⟨normalize_extractWith h, fun name hname v hv => ?_⟩, ⟨?_, ?_⟩⟩
  · obtain ⟨xs, rfl, -⟩ := (spoken_list hname v).mp ((holds_extractWith h).1.get? hv)
    exact ⟨xs, rfl⟩
  · rw [hquery]
    rfl
  · rw [hsort]
    rfl

end Message

namespace Plan

open Filters Journal Message

/-- **A plan keeps a list of tidy filters exactly if each text in it is one piece**: under each name it asks for
the pieces of the texts that are listed there. There is a plan whenever what is searched for and the order can be
written. Of what a message is read to say, only a known brand can be more or less than one piece. -/
theorem kept_iff_pieces (c : Context) (fields : Value) (hfields : fields.isWritable = true) :
    (∀ f, Tidy f →
      ((∃ plan, ((compiled (.object f) fields).runFrom c).1 = .ok plan) ↔ Legible f) ∧
      ∀ plan, ((compiled (.object f) fields).runFrom c).1 = .ok plan → ∀ name ∈ askedFields,
        plan.asked? name = listValue ((textsOf (Fields.value f name)).flatMap splitList) ∧
        (plan.asked? name = Fields.get? f name ↔ ∀ x ∈ textsOf (Fields.value f name), Piece x)) ∧
    ∀ text known e, extractWith text (.ok known) = .ok e →
      Tidy e.filters ∧ Legible e.filters ∧ ∀ name ∈ askedFields, ∀ x ∈ textsOf (Fields.value e.filters name),
        Piece x ∨ name = "brand" ∧ x ∈ known := by
  constructor
  · intro f htidy
    rw [(steady_compiled (.object f) fields).outcome c]
    refine ⟨⟨fun ⟨_, hplan⟩ => legible_of_compiled hplan, fun hlegible =>
      ⟨_, outcomeWhen_of_tidy htidy hlegible hfields _⟩⟩, fun plan hplan name hname => ?_⟩
    rw [outcomeWhen_of_tidy htidy (legible_of_compiled hplan) hfields] at hplan
    obtain rfl := Except.ok.inj hplan
    exact asked?_of_tidy htidy hname
  · intro text known e he
    obtain ⟨htidy, hlegible⟩ := tidy_extractWith he
    exact ⟨htidy, hlegible, fun name hname x hx => piece_or_known he hname hx⟩

/-- Filters by a brand with a comma in its name. -/
def oneBrand : Fields :=
  [("brand", .ofStrings ["Smith, Jones"])]

theorem tidy_oneBrand : Tidy oneBrand := by
  refine ⟨rfl, fun name _ v hv => ?_⟩
  have hmem := Fields.mem_of_get? hv
  rw [oneBrand, List.mem_singleton] at hmem
  cases hmem
  exact ⟨_, rfl⟩

/-- Two brands are asked for, and no color. -/
theorem kept_iff_pieces_of_brand : Value.isWritable .null = true ∧ Tidy oneBrand ∧
    ∃ plan, ((compiled (.object oneBrand) .null).runFrom (.initial true)).1 = .ok plan ∧
      plan.asked? "brand" = some (.ofStrings ["Smith", "Jones"]) ∧
      plan.asked? "colors" = Fields.get? oneBrand "colors" := by
  obtain ⟨hreturns, hasked⟩ := (kept_iff_pieces (.initial true) .null rfl).1 oneBrand tidy_oneBrand
  obtain ⟨plan, hplan⟩ := hreturns.mpr ⟨rfl, rfl⟩
  exact ⟨rfl, tidy_oneBrand, plan, hplan, (hasked plan hplan "brand" (by decide)).1,
    (hasked plan hplan "colors" (by decide)).1⟩

/-- Not every plan keeps what normalized filters list. -/
theorem not_kept_of_comma : ¬ ∀ (f : Fields) (c : Context), Tidy f → Legible f →
    ∃ plan, ((compiled (.object f) .null).runFrom c).1 = .ok plan ∧
      ∀ name ∈ askedFields, plan.asked? name = Fields.get? f name := by
  intro hkept
  obtain ⟨plan, hplan, hasked⟩ := hkept oneBrand (.initial true) tidy_oneBrand ⟨rfl, rfl⟩
  rw [(steady_compiled _ _).outcome, outcomeWhen_of_tidy tidy_oneBrand ⟨rfl, rfl⟩ rfl] at hplan
  obtain rfl := Except.ok.inj hplan
  have hbrand : listValue ["Smith", "Jones"] = listValue ["Smith, Jones"] :=
    (asked?_compile (by decide)).symm.trans (hasked "brand" (by decide))
  exact absurd (listValue_injective hbrand) (by decide)

end Plan

end Outfitter
