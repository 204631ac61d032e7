import Outfitter.Proofs.Dialogue.Returning
import Outfitter.Proofs.Schema.Fitting

/-!
Every message is answered, whatever filters are active.

Filters that fit a payload still do when the filters of a message are merged into them (`merges_fitting`), a
bound that is beyond all doubles being left out. A short message can be read, and the reply to fitting filters is
planned (`exists_replied`). The filters of the message alone fit only if its budget is not beyond all doubles
(`isOk_check_iff`).
-/

namespace Outfitter

open Filters Schema

namespace Message

open Text

/-! ### merging into filters that fit -/

theorem isPrice_of_ofDouble? {x : Double} (hx : isNonNegative x = true) {q : Quantity}
    (hq : q ∈ Quantity.ofDouble? x) : IsPrice q.toValue := by
  cases x with
  | infinite | nan => cases hq
  | finite x =>
    have hunits : 0 ≤ x.units := of_decide_eq_true hx
    obtain rfl : (if x.isWhole then Quantity.whole x.truncate else .fraction x) = q := Option.some.inj hq
    split
    · rename_i hwhole
      left
      cases hnegative : x.negative with
      | false =>
        have htruncate : 0 ≤ x.truncate := Int.tdiv_nonneg hunits (Int.natCast_nonneg _)
        obtain ⟨n, hn⟩ := Int.eq_ofNat_of_zero_le htruncate
        refine ⟨n, congrArg Value.int hn, x, ?_⟩
        rw [← hn]
        exact Double.ofInt_truncate hwhole hnegative
      | true =>
        -- a zero with a sign
        have hzero : x.units = 0 := by
          unfold Double.Finite.units at hunits ⊢
          rw [hnegative, if_pos rfl] at hunits ⊢
          omega
        refine ⟨0, ?_, Double.exists_ofInt (Nat.zero_le _)⟩
        show Value.int (x.units.tdiv Double.unitsPerOne) = .int 0
        rw [hzero, Int.zero_tdiv]
    · exact .inr ⟨.finite x, rfl, hx⟩

/-- A bound of a price that is merged is one that may be in it. -/
theorem isPrice_of_boundQuantity {v : Value} (h : IsPrice v ∨ IsNatural v) {q : Quantity}
    (hq : q ∈ boundQuantity? v) : IsPrice q.toValue := by
  have hwhole : ∀ n : Nat, v = .int n → IsPrice q.toValue := by
    rintro n rfl
    have hdouble : q ∈ Quantity.ofDouble? (Double.ofInt n) := hq
    refine isPrice_of_ofDouble? ?_ hdouble
    cases hx : Double.ofInt n with
    | infinite | nan =>
      rw [hx] at hdouble
      cases hdouble
    | finite x =>
      refine decide_eq_true ?_
      unfold Double.Finite.units
      rw [(Double.isWhole_of_ofInt hx).2, if_neg Bool.false_ne_true]
      exact Int.natCast_nonneg _
  rcases h with (⟨n, he, -⟩ | ⟨x, rfl, hx⟩) | ⟨n, he⟩
  · exact hwhole n he
  · exact isPrice_of_ofDouble? hx hq
  · exact hwhole n he

/-- What has been spoken fits, if the price does. -/
theorem fitting_of_spoken {known : List String} {name : String} {v : Value} (h : Spoken known name v)
    (hprice : name = "price" → Prices IsPrice v) : Fitting name v := by
  by_cases hlist : name ∈ listFields
  · exact (fitting_list hlist v).mpr (((spoken_list hlist v).mp h).mono fun _ _ => trivial)
  unfold Spoken at h
  split at h
  · rename_i hname
    subst hname
    exact hprice rfl
  split at h
  · rename_i hname
    subst hname h
    exact ⟨true, rfl⟩
  · obtain ⟨xs, -, hxs⟩ := h
    obtain ⟨x, hx⟩ := List.exists_mem_of_ne_nil xs hxs.nonempty
    have hspeakable := hxs.each x hx
    unfold Speakable at hspeakable
    split at hspeakable
    all_goals first | exact absurd (by decide) hlist | cases hspeakable

/-- **What has been spoken can be merged into filters that fit**, however large its budget is. -/
theorem merges_fitting (known : List String) : Merges Fitting (Spoken known) where
  kept _ _ h := h.pruned?
  list name hname b v hb hv := by
    have hleaves := leaves_union (fun w hw => (fitting_list hname w).mp (hb w hw))
      (((spoken_list hname v).mp hv).mono fun _ _ => trivial)
    exact fun u hu => (fitting_list hname u).mpr (hleaves u hu)
  price b v hb hv :=
    leaves_mergePrice hb hv (fun _ => IsPrice.isNumber) fun _ h _ hq => isPrice_of_boundQuantity h hq
  scalar name hname v hv u hu := by
    have hfits : Fitting name v := by
      refine fitting_of_spoken hv ?_
      rintro rfl
      exact absurd hname (by decide)
    rw [hfits.pruned?] at hu
    exact Option.some.inj hu ▸ hfits

/-- What has been spoken can be merged into filters that fit and can be written. -/
theorem merges_kept (known : List String) : Merges Kept (Spoken known) where
  kept _ _ h := h.1.pruned?
  list name hname b v hb hv u hu :=
    ((merges_fitting known).list name hname b v (fun w hw => (hb w hw).1) hv u hu).kept
      (ne_of_mem_of_not_mem hname (by decide))
  price b v hb hv u hu :=
    ((merges_fitting known).price b v (fun w hw => (hb w hw).1) hv u hu).kept (by decide)
  scalar name hname v hv u hu := by
    refine ((merges_fitting known).scalar name hname v hv u hu).kept ?_
    exact ne_of_mem_of_not_mem hv.name (by decide)

/-! ### the filters of a message alone -/

section

variable {text : List Char} {known : List String} {e : Extraction} {found : Option BudgetFound}

/-- The bounds of a price are those of the budget. -/
theorem prices_of_budget (h : extractWith text (.ok known) = .ok e)
    (hprice : Fields.get? e.filters "price" =
      priceValue (boundIn found Budget.least) (boundIn found Budget.most)) {B : Value → Prop}
    (hbound : ∀ b ∈ found, ∀ n : Nat, b.budget.least = some n ∨ b.budget.most = some n → B (.int n))
    {v : Value} (hv : Fields.get? e.filters "price" = some v) : Prices B v := by
  have hspoken : Prices IsNatural v := (holds_extractWith h).1.get? hv
  obtain ⟨fields, rfl, hfields⟩ := hspoken
  refine ⟨fields, rfl, hfields.nonempty, hfields.nodup, fun p hp => ⟨(hfields.each p hp).1, ?_⟩⟩
  rw [hprice] at hv
  unfold priceValue at hv
  split at hv
  · cases hv
  · obtain rfl := Value.object.inj (Option.some.inj hv)
    rcases mem_boundFields hp with hmem | hmem
    · obtain ⟨b, hb, n, hn, he⟩ := mem_boundIn hmem
      exact he ▸ hbound b hb n (.inl hn)
    · obtain ⟨b, hb, n, hn, he⟩ := mem_boundIn hmem
      exact he ▸ hbound b hb n (.inr hn)

/-- **The filters of a message make a payload exactly if its budget is not beyond all doubles.** -/
theorem isOk_check_iff (h : extractWith text (.ok known) = .ok e) (otherwise : String → Mismatch) :
    (Payload.check otherwise (.object e.filters)).IsOk ↔ HasFiniteBudget text := by
  obtain ⟨found, hfound, hprice⟩ := price_extractWith h
  constructor
  · rintro ⟨p, hp⟩
    refine ⟨found, hfound, fun b hb n hn => ?_⟩
    obtain rfl := Option.mem_def.mp hb
    have hfinite : (nonNegativeNumber (.int n)).IsOk → ∃ x, Double.ofInt n = .finite x := by
      rintro ⟨x, hx⟩
      obtain ⟨y, hy, -⟩ := Checked.andThen_eq_ok hx
      unfold number at hy
      cases hd : Double.ofInt n with
      | finite x => exact ⟨x, rfl⟩
      | infinite | nan =>
        simp only [hd] at hy
        cases hy
    rcases hn with hn | hn
    · have hleast : boundIn (some b) Budget.least = some (.int n) := by
        unfold boundIn
        rw [Option.bind_some, hn]
        rfl
      rw [hleast] at hprice
      refine hfinite (isOk_bound hp hprice "min" (by decide) _ ?_ nofun)
      cases boundIn (some b) Budget.most <;> rfl
    · have hmost : boundIn (some b) Budget.most = some (.int n) := by
        unfold boundIn
        rw [Option.bind_some, hn]
        rfl
      rw [hmost] at hprice
      have hsome : priceValue (boundIn (some b) Budget.least) (some (.int n)) =
          some (.object (boundFields (boundIn (some b) Budget.least) (some (.int n)))) := by
        cases boundIn (some b) Budget.least <;> rfl
      refine hfinite (isOk_bound hp (hprice.trans hsome) "max" (by decide) _ ?_ nofun)
      cases boundIn (some b) Budget.least <;> rfl
  · rintro ⟨found', hfound', hfinite⟩
    obtain rfl := Except.ok.inj (hfound.symm.trans hfound')
    have hspoken := (holds_extractWith h).1
    refine isOk_check (holds_of_get? hspoken.nodup fun key v hv => ?_) otherwise
    obtain ⟨name, rfl, hv'⟩ := hspoken.get?_text hv
    refine ⟨name, rfl, fitting_of_spoken hv' ?_⟩
    rintro rfl
    exact prices_of_budget h hprice (fun b hb n hn => .inl ⟨n, rfl, hfinite b hb n hn⟩) hv

/-- A message that is not too long can be read. -/
theorem exists_extraction (known : List String) (hlen : 2 * text.length + 2 ≤ Numeral.maxDigits) :
    ∃ e, extractWith text (.ok known) = .ok e := by
  have hclean := length_clean text
  obtain ⟨found, hfound, -⟩ := exists_findBudget_of_runs (runsWithin_length (clean text)) (by omega)
  rw [extractWith_eq, hfound]
  split <;> exact ⟨_, rfl⟩

/-- The filters of a message that is not too long can be written. -/
theorem haveWritable_extractWith (h : extractWith text (.ok known) = .ok e)
    (hlen : 2 * text.length + 2 ≤ Numeral.maxDigits) : Value.haveWritable e.filters = true := by
  obtain ⟨found, hfound, hprice⟩ := price_extractWith h
  have hclean := length_clean text
  have hshort : ∀ b ∈ found, ∀ n : Nat, b.budget.least = some n ∨ b.budget.most = some n →
      (Value.int n).isWritable = true := by
    obtain ⟨found', hfound', hbounds⟩ := exists_findBudget_of_runs
      (runsWithin_length (clean text)) (by omega)
    obtain rfl := Except.ok.inj (hfound.symm.trans hfound')
    intro b hb n hn
    have hpow : 10 ^ (clean text).length + 20 ≤ 10 ^ ((clean text).length + 2) := by
      have := Nat.pow_pos (show 0 < 10 by decide) (n := (clean text).length)
      rw [Nat.pow_add]
      omega
    exact isShort_of_lt_pow (Nat.lt_of_lt_of_le (hbounds b hb n hn) hpow) (by omega)
  have hspoken := (holds_extractWith h).1
  refine (Value.haveWritable_iff _).mpr fun p hp => ?_
  obtain ⟨name, hname, hv⟩ := hspoken.values p hp
  have hget : Fields.get? e.filters name = some p.2 := by
    rw [← hname]
    exact Fields.get?_of_mem hspoken.nodup hp
  unfold Spoken at hv
  split at hv
  · rename_i he
    subst he
    obtain ⟨fields, hfields, hbounds⟩ := prices_of_budget (B := fun v => v.isWritable = true) h hprice
      hshort hget
    rw [hfields]
    exact (Value.haveWritable_iff fields).mpr fun q hq => (hbounds.each q hq).2
  split at hv
  · rw [hv]
    rfl
  · obtain ⟨xs, he, -⟩ := hv
    rw [he]
    exact Value.isWritable_texts xs

end

end Message

namespace Dialogue

open Journal Message Text

/-! ### the reply to filters that fit -/

section

variable {filters : Fields}

/-- A field for a list says something, or nothing. -/
theorem exists_part (h : Holds Fitting filters) {name : String} (hname : name ∈ listFields)
    {say : Value → Except Fault String} {told : List String → String}
    (hsay : ∀ xs, say (.ofStrings xs) = .ok (told xs)) :
    ∃ said, part (.object filters) name say = .ok said := by
  have hvalue : Value.get (.object filters) name = (Fields.get? filters name).getD .null := rfl
  unfold part
  rw [hvalue]
  cases hv : Fields.get? filters name with
  | none => exact ⟨[], rfl⟩
  | some v =>
    obtain ⟨xs, rfl, hxs⟩ := (fitting_list hname v).mp (h.get? hv)
    cases xs with
    | nil => exact absurd rfl hxs.nonempty
    | cons x xs =>
      refine ⟨[told (x :: xs)], ?_⟩
      show (say (.ofStrings (x :: xs))).map ([·]) = _
      rw [hsay]
      rfl

theorem exists_pricePart (h : Holds Fitting filters) : ∃ said, pricePartOf (.object filters) = .ok said := by
  have hvalue : Value.get (.object filters) "price" = (Fields.get? filters "price").getD .null := rfl
  unfold pricePartOf
  rw [hvalue]
  cases hv : Fields.get? filters "price" with
  | none => exact ⟨[], rfl⟩
  | some v =>
    obtain ⟨fields, rfl, hbounds⟩ : Prices IsPrice v := h.get? hv
    refine returns_pricePart_iff.mpr fun key _ => ?_
    show ((Fields.get? fields key).getD .null).isWritable = true
    cases hb : Fields.get? fields key with
    | none => rfl
    | some w => exact isWritable_of_isPrice (hbounds.each _ (Fields.mem_of_get? hb)).2

/-- Filters that fit can be summed up. -/
theorem exists_summary_of_fitting (h : Holds Fitting filters) :
    ∃ sentence, summary (.object filters) = .ok sentence := by
  obtain ⟨categories, hcategories⟩ : ∃ said, part (.object filters) "include_categories" (joinTexts ", ") =
      .ok said :=
    exists_part h (by decide) (joinTexts_ofStrings ", ")
  have hslashed : ∀ (before : String) {name : String}, name ∈ listFields → ∃ said,
      part (.object filters) name (fun v => (joinTexts "/" v).map (before ++ ·)) = .ok said :=
    fun before _ hname => exists_part h hname (slashed_ofStrings before)
  obtain ⟨occasion, hoccasion⟩ := hslashed "for " (show "occasion" ∈ listFields by decide)
  obtain ⟨season, hseason⟩ := hslashed "in " (show "season" ∈ listFields by decide)
  obtain ⟨colors, hcolors⟩ : ∃ said, part (.object filters) "colors" (fun v => do
      return "colors: " ++ (← joinTexts ", " (← firstElements 4 v))) = .ok said :=
    exists_part h (by decide) colors_ofStrings
  obtain ⟨price, hprice⟩ := exists_pricePart h
  have hparts : parts (.object filters) = .ok (categories ++ occasion ++ season ++ colors ++ price) := by
    unfold parts
    rw [hcategories, hoccasion, hseason, hcolors, hprice]
    rfl
  unfold summary
  rw [hparts]
  cases categories ++ occasion ++ season ++ colors ++ price with
  | nil => exact ⟨_, rfl⟩
  | cons => exact ⟨_, rfl⟩

theorem exists_complementsFor (text : List Char) (h : Holds Fitting filters) :
    ∃ complements, Reply.complementsFor text filters = .ok complements := by
  have hvalue : Fields.value filters "include_categories" =
      (Fields.get? filters "include_categories").getD .null := rfl
  unfold Reply.complementsFor
  rw [hvalue]
  cases hv : Fields.get? filters "include_categories" with
  | none => exact ⟨_, rfl⟩
  | some v =>
    obtain ⟨xs, rfl, hxs⟩ := (fitting_list (by decide) v).mp (h.get? hv)
    cases xs with
    | nil => exact absurd rfl hxs.nonempty
    | cons x xs => exact ⟨_, complements_ofStrings (x :: xs)⟩

theorem exists_ofMerged_of_fitting (text : List Char) (intent : Intent) (h : Holds Fitting filters) :
    ∃ r, Reply.ofMerged text intent filters = .ok r := by
  obtain ⟨sentence, hsentence⟩ := exists_summary_of_fitting h
  obtain ⟨complements, hcomplements⟩ := exists_complementsFor text h
  unfold Reply.ofMerged
  rw [hsentence, hcomplements]
  generalize (if intent.isEventFlow then missingSlots filters else []) = missing
  cases missing <;> exact ⟨_, rfl⟩

end

/-! ### every message is answered -/

variable {known : List Value} {names : List String} {text : String} {active : Value} {base : Fields}

/-- A reply comes with filters that hold what the active ones may, if what has been spoken can be merged into
it. -/
theorem holds_of_replied {may : String → Value → Prop} (hmay : Merges may (Spoken names))
    (hknown : brandNames known = .ok names) (ha : active.orElse (.object []) = .object base)
    (hbase : Holds may base) {debugging : Bool} {r : Reply}
    (h : (replied (.str text) active (.list known)).outcomeWhen debugging = .ok r) : Holds may r.filters := by
  rcases cases_of_replied ha h with ⟨-, rfl⟩ | ⟨-, e, he, hmerged⟩
  · exact holds_nil
  · rw [hknown] at he
    rw [(filters_of_ofMerged hmerged).1]
    exact hbase.merge hmay (holds_extractWith he).1

/-- **A message that is not too long is answered**, whatever filters that fit are active. -/
theorem exists_replied (hknown : brandNames known = .ok names)
    (hlen : 2 * text.toList.length + 2 ≤ Numeral.maxDigits) (ha : active.orElse (.object []) = .object base)
    (hbase : Holds Fitting base) (debugging : Bool) :
    ∃ r, (replied (.str text) active (.list known)).outcomeWhen debugging = .ok r := by
  rw [Assistant.Turn.outcomeWhen_replied (demandOptionalText_str text "strip")]
  cases isReset text.toList with
  | true => exact ⟨_, rfl⟩
  | false =>
    obtain ⟨e, he⟩ := exists_extraction names hlen
    have hspoken := (holds_extractWith he).1
    obtain ⟨r, hr⟩ := exists_ofMerged_of_fitting (trim text.toList) e.intent
      (hbase.merge (merges_fitting names) hspoken)
    refine ⟨r, ?_⟩
    rw [if_neg Bool.false_ne_true, hknown,
      outcomeWhen_extracted he (haveWritable_extractWith he hlen) debugging]
    exact outcomeWhen_concluded ha hbase.named hspoken.named hr debugging

end Dialogue

end Outfitter
