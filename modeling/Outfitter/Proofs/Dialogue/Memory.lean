import Outfitter.Proofs.Dialogue.Conversation

/-!
Nothing that has been said is forgotten before a reset.

A message that is no reset adds to what is asked for (`Look.Within`, `within_join`), as long as no number in
it is beyond all doubles. So lists grow at their ends, price bounds stay, and a slot that is filled is never
asked for again (`Conversation.nothing_forgotten`).
-/

namespace Outfitter

namespace Filters

/-! ### growing looks -/

/-- Everything that the first look asks for stands in the second, and lists at the front; bounds may have
changed. -/
structure Look.Within (l l' : Look) : Prop where
  tokens : ∀ name, l.tokens name <+: l'.tokens name
  least : l.least.isSome = true → l'.least.isSome = true
  most : l.most.isSome = true → l'.most.isSome = true

theorem Look.within_refl (l : Look) : l.Within l :=
  ⟨fun _ => List.prefix_refl _, id, id⟩

theorem Look.Within.trans {l₁ l₂ l₃ : Look} (h : l₁.Within l₂) (h' : l₂.Within l₃) : l₁.Within l₃ :=
  ⟨fun name => (h.tokens name).trans (h'.tokens name), h'.least ∘ h.least, h'.most ∘ h.most⟩

theorem Look.within_join (l d : Look) : l.Within (l.join d) where
  tokens name := prefix_firsts (l.tokens name) (d.tokens name)
  least h := by
    show (d.least.or l.least).isSome = true
    rw [Option.isSome_or, h, Bool.or_true]
  most h := by
    show (d.most.or l.most).isSome = true
    rw [Option.isSome_or, h, Bool.or_true]

/-! ### price bounds -/

/-- The bound of this name in the price of some filters. -/
def boundOf (filters : Fields) (key : String) : Option Value :=
  match Fields.get? filters "price" with
  | some (.object bounds) => Fields.get? bounds key
  | _ => none

variable {counts : Value → Double.Finite → Prop} {filters : Fields} {l : Look}

theorem Shows.boundOf (h : Shows counts filters l) :
    Option.Rel counts (boundOf filters "min") l.least ∧ Option.Rel counts (boundOf filters "max") l.most := by
  obtain ⟨least, most, hleast, hmost, hp⟩ := h.price
  have hbounds : Filters.boundOf filters "min" = least ∧ Filters.boundOf filters "max" = most := by
    unfold Filters.boundOf
    rw [hp]
    cases least <;> cases most <;> exact ⟨rfl, rfl⟩
  rw [hbounds.1, hbounds.2]
  exact ⟨hleast, hmost⟩

theorem isSome_of_rel {α β : Type} {r : α → β → Prop} {a : Option α} {b : Option β} (h : Option.Rel r a b) :
    a.isSome = b.isSome := by
  cases h <;> rfl

/-- Whole bounds are those of the look. -/
theorem eq_of_is {v : Option Value} {x : Option Double.Finite} (h : Option.Rel Is v x)
    (hv : ∀ w ∈ v, ∃ n, w = .int n) : v = x.map fun y => .int y.truncate := by
  cases h with
  | none => rfl
  | some h =>
    cases h with
    | int => rfl
    | float =>
      obtain ⟨n, hn⟩ := hv _ rfl
      cases hn

end Filters

namespace Dialogue

open Filters Journal Message Text

/-! ### slots -/

theorem isFilledIn_of_within {filters filters' : Fields} {l l' : Look} (h : Shows Is filters l)
    (h' : Shows Is filters' l') (hw : l.Within l') (slot : Slot) (hf : slot.isFilledIn filters = true) :
    slot.isFilledIn filters' = true := by
  have htokens : ∀ name ∈ listFields, isFilledAt (.object filters) [name] = true →
      isFilledAt (.object filters') [name] = true := by
    intro name hname hfilled
    rw [isFilledAt_tokens h hname] at hfilled
    rw [isFilledAt_tokens h' hname]
    obtain ⟨more, he⟩ := hw.tokens name
    rw [← he]
    cases hl : l.tokens name with
    | nil =>
      rw [hl] at hfilled
      cases hfilled
    | cons x xs => rfl
  cases slot with
  | season => exact htokens "season" (by decide) hf
  | colors => exact htokens "colors" (by decide) hf
  | maxPrice =>
    have hmost : l.most.isSome = true := (isFilledAt_max h).symm.trans hf
    exact (isFilledAt_max h').trans (hw.most hmost)

theorem Slot.name_inj {slot slot' : Slot} (h : slot.name = slot'.name) : slot = slot' := by
  revert h
  cases slot <;> cases slot' <;> decide

/-- A slot that is filled is not missing. -/
theorem not_missing_of_filled {text : List Char} {intent : Intent} {filters : Fields} {r : Reply}
    (hr : Reply.ofMerged text intent filters = .ok r) {slot : Slot} (hf : slot.isFilledIn filters = true) :
    slot.name ∉ r.missing := by
  rw [(filters_of_ofMerged hr).2]
  intro hmem
  obtain ⟨other, hother, he⟩ := List.mem_map.mp hmem
  obtain rfl := Slot.name_inj he
  split at hother
  · have := (List.mem_filter.mp hother).2
    rw [hf] at this
    cases this
  · cases hother

/-! ### conversations without a reset -/

/-- The message is no reset, and has no run of more than three hundred digits. -/
structure Continuing (text : String) : Prop where
  noReset : isReset text.toList = false
  runs : RunsWithin 300 text.toList

instance : DecidablePred Continuing := fun _ =>
  decidable_of_iff (_ ∧ _) ⟨fun h => ⟨h.1, h.2⟩, fun h => ⟨h.1, h.2⟩⟩

namespace Conversation

variable {known : List String} {s : Conversation} {text : String} {l : Look}

/-- The filters ask for this. -/
structure Asks (s : Conversation) (l : Look) : Prop where
  shows : Shows Is s.filters l
  settled : l.Settled

theorem asks_nothing (journal : Context) : Asks ⟨[], journal⟩ Look.none :=
  ⟨shows_none, Look.settled_none⟩

/-- **A message that goes on is answered**, and what it asks for joins what has been asked for. -/
theorem Asks.answered (h : s.Asks l) (known : List String) (ht : Continuing text) :
    ∃ r e d, (s.answer known text).1 = .ok r ∧
      extract text known = .ok e ∧
      Reply.ofMerged (trim text.toList) e.intent (merge s.filters e.filters) = .ok r ∧
      Shows Means e.filters d ∧ (s.hear known text).Asks (l.join d) := by
  have hbudget := hasFiniteBudget_of_runs ht.runs
  obtain ⟨d', hreads⟩ := exists_reads (brandNames_texts known) hbudget
  obtain ⟨r, -, hr, -⟩ := hreads.reply s.journal.debugging s.journal.debugging h.settled (.inr rfl) h.shows
    h.shows (orElse_object s.filters) (orElse_object s.filters)
  rw [← answer_eq] at hr
  rcases cases_of_answer hr with ⟨hreset, -⟩ | ⟨-, e, he, hmerged⟩
  · rw [ht.noReset] at hreset
    cases hreset
  · obtain ⟨e', d, he', hshows, hd, -⟩ := exists_extractWith known hbudget
    obtain rfl : e = e' := by
      rw [extract, he'] at he
      exact (Except.ok.inj he).symm
    refine ⟨r, e, d, hr, he, hmerged, hshows, ?_, h.settled.join hd⟩
    rw [hear_of_ok hr, (filters_of_ofMerged hmerged).1]
    exact shows_merge h.shows h.settled.toNeat hshows hd.toNeat

/-- What is asked for only grows while the conversation goes on. -/
theorem Asks.after (h : s.Asks l) (known : List String) {texts : List String}
    (ht : ∀ text ∈ texts, Continuing text) :
    ∃ l', (texts.foldl (hear known) s).Asks l' ∧ l.Within l' := by
  induction texts generalizing s l with
  | nil => exact ⟨l, h, l.within_refl⟩
  | cons text texts ih =>
    obtain ⟨htext, hrest⟩ := List.forall_mem_cons.mp ht
    obtain ⟨-, -, d, -, -, -, -, hnext⟩ := h.answered known htext
    obtain ⟨l', hl', hw⟩ := ih hnext hrest
    exact ⟨l', hl', (l.within_join d).trans hw⟩

/-- What stood in the filters stands in the later ones. -/
structure Remembers (filters later : Fields) : Prop where
  /-- A list is the front of the later one. -/
  lists : ∀ name ∈ listFields, ∀ v, Fields.get? filters name = some v →
    ∃ xs ys, v = .ofStrings xs ∧ Fields.get? later name = some (.ofStrings (xs ++ ys))
  bounds : ∀ key ∈ ["min", "max"], (boundOf filters key).isSome = true → (boundOf later key).isSome = true
  slots : ∀ slot : Slot, slot.isFilledIn filters = true → slot.isFilledIn later = true

theorem remembers_of_within {filters later : Fields} {l' : Look} (h : Shows Is filters l)
    (h' : Shows Is later l') (hw : l.Within l') : Remembers filters later where
  lists name hname v hv := by
    rw [h.tokens name hname] at hv
    obtain ⟨more, he⟩ := hw.tokens name
    refine ⟨l.tokens name, more, ?_, ?_⟩
    · rcases listValue_cases (l.tokens name) with hsome | ⟨hnone, -⟩
      · exact Option.some.inj (hv.symm.trans hsome)
      · rw [hnone] at hv
        cases hv
    · rw [h'.tokens name hname, ← he]
      cases hl : l.tokens name with
      | nil =>
        rw [hl] at hv
        cases hv
      | cons x xs => rfl
  bounds key hkey hsome := by
    simp only [List.mem_cons, List.not_mem_nil, or_false] at hkey
    rcases hkey with rfl | rfl
    · rw [isSome_of_rel h.boundOf.1] at hsome
      rw [isSome_of_rel h'.boundOf.1]
      exact hw.least hsome
    · rw [isSome_of_rel h.boundOf.2] at hsome
      rw [isSome_of_rel h'.boundOf.2]
      exact hw.most hsome
  slots := isFilledIn_of_within h h' hw

theorem Proper.whole {filters : Fields} (h : Proper known filters) (key : String) :
    ∀ v ∈ boundOf filters key, ∃ n, v = .int n := by
  intro v hv
  unfold boundOf at hv
  split at hv
  · rename_i bounds hprice
    obtain ⟨fields, he, hbounds⟩ : Prices IsNatural (.object bounds) := h.holds.get? hprice
    obtain rfl : bounds = fields := by
      cases he
      rfl
    obtain ⟨-, n, hn⟩ := hbounds.each _ (Fields.mem_of_get? hv)
    exact ⟨n, hn⟩
  · cases hv

/-- A bound that a message does not mention stays as it was. -/
theorem boundOf_of_unmentioned {filters delta later : Fields} {d : Look} (h : Shows Is filters l)
    (hd : Shows Means delta d) (h' : Shows Is later (l.join d)) (hp : Proper known filters)
    (hp' : Proper known later) : ∀ key ∈ ["min", "max"], boundOf delta key = none →
      boundOf later key = boundOf filters key := by
  intro key hkey hnone
  have hjoin : ∀ {x : Option Double.Finite}, Option.Rel Means (boundOf delta key) x → x = none := by
    intro x hrel
    exact none_of_rel hrel hnone
  simp only [List.mem_cons, List.not_mem_nil, or_false] at hkey
  rcases hkey with rfl | rfl
  · rw [eq_of_is h'.boundOf.1 (hp'.whole "min"), eq_of_is h.boundOf.1 (hp.whole "min")]
    show (d.least.or l.least).map _ = _
    rw [hjoin hd.boundOf.1, Option.none_or]
  · rw [eq_of_is h'.boundOf.2 (hp'.whole "max"), eq_of_is h.boundOf.2 (hp.whole "max")]
    show (d.most.or l.most).map _ = _
    rw [hjoin hd.boundOf.2, Option.none_or]

/-- **Nothing that has been said is forgotten** while the conversation goes on: the next message is answered,
every list, price bound and filled slot of an earlier turn is still there, a bound that the message does not
mention stays as it was, and no slot that was filled once is missing. -/
theorem nothing_forgotten (known : List String) (journal : Context) {texts more : List String}
    {text : String} (h : ∀ t ∈ texts ++ more ++ [text], Continuing t) :
    ∃ r e, ((after known journal (texts ++ more)).answer known text).1 = .ok r ∧
      (after known journal (texts ++ more ++ [text])).filters = r.filters ∧
      extract text known = .ok e ∧
      Remembers (after known journal texts).filters r.filters ∧
      (∀ key ∈ ["min", "max"], boundOf e.filters key = none →
        boundOf r.filters key = boundOf (after known journal (texts ++ more)).filters key) ∧
      ∀ slot : Slot, slot.isFilledIn (after known journal texts).filters = true → slot.name ∉ r.missing := by
  have htexts : ∀ t ∈ texts, Continuing t := fun t ht => h t (by simp [ht])
  have hmore : ∀ t ∈ more, Continuing t := fun t ht => h t (by simp [ht])
  have htext : Continuing text := h text (by simp)
  obtain ⟨l, hl, -⟩ := (asks_nothing journal).after known htexts
  obtain ⟨l', hl', hw⟩ := hl.after known hmore
  have hbefore : more.foldl (hear known) (texts.foldl (hear known) ⟨[], journal⟩) =
      after known journal (texts ++ more) := List.foldl_append.symm
  rw [hbefore] at hl'
  obtain ⟨r, e, d, hr, he, hmerged, hdelta, hnext⟩ := hl'.answered known htext
  have hfilters : (after known journal (texts ++ more ++ [text])).filters = r.filters := by
    rw [after_append]
    exact hear_of_ok hr
  have hshows : Shows Is r.filters (l'.join d) := by
    rw [← hear_of_ok hr]
    exact hnext.shows
  have hproper : Proper known r.filters := by
    rw [← hfilters]
    exact proper_after ..
  have hremembers := remembers_of_within hl.shows hshows (hw.trans (l'.within_join d))
  refine ⟨r, e, hr, hfilters, he, hremembers,
    boundOf_of_unmentioned hl'.shows hdelta hshows (proper_after ..) hproper, fun slot hf => ?_⟩
  rw [← (filters_of_ofMerged hmerged).1] at hmerged
  exact not_missing_of_filled hmerged (hremembers.slots slot hf)

theorem nothing_forgotten_of_summer :
    ∃ r, ((after [] (.initial false) (["wedding in summer"] ++ ["under 90"])).answer [] "silk").1 = .ok r ∧
      Slot.season.name ∉ r.missing ∧ (boundOf r.filters "max").isSome = true ∧
      boundOf r.filters "max" =
        boundOf (after [] (.initial false) (["wedding in summer"] ++ ["under 90"])).filters "max" := by
  have hcontinuing : ∀ t ∈ ["wedding in summer"] ++ ["under 90"] ++ ["silk"], Continuing t := by decide +kernel
  have hseason : Slot.season.isFilledIn (after [] (.initial false) ["wedding in summer"]).filters = true := by
    decide +kernel
  have hmost : (boundOf (after [] (.initial false) (["wedding in summer"] ++ ["under 90"])).filters "max").isSome =
      true := by
    decide +kernel
  have hsilk : (extract "silk" []).toOption.all (fun e => (boundOf e.filters "max").isNone) = true := by
    decide +kernel
  obtain ⟨r, e, hr, -, he, -, hbounds, hslots⟩ :=
    nothing_forgotten [] (.initial false) hcontinuing
  rw [he] at hsilk
  have hmax := hbounds "max" (by decide) (Option.isNone_iff_eq_none.mp hsilk)
  exact ⟨r, hr, hslots .season hseason, hmax ▸ hmost, hmax⟩

end Conversation

end Dialogue

end Outfitter
