import Outfitter.Proofs.Dialogue.Answered
import Outfitter.Proofs.Dialogue.Memory

/-!
The bounds of the price after a message that names one.

Each bound is the one that the message states, and where it states none the one that was active; the merged price
holds the double nearest to it (`boundOf_merge`). So a bound stays as it was stated exactly if it is a double, and one
beyond all doubles is lost (`bounds_of_replied`).
-/

namespace Outfitter

namespace Filters

variable {base delta : Fields}

/-- The bound of this name that later filters state, else that of earlier ones. -/
def statedBound (base delta : Fields) (key : String) : Option Value :=
  (boundOf delta key).or (boundOf base key)

/-- The whole bound as the nearest double, unless it is beyond all doubles. -/
def rounded? : Value → Option Value
  | .int n => (Double.ofInt n).toInt?.map .int
  | _ => none

theorem rounded?_int (n : Int) : rounded? (.int n) = (Double.ofInt n).toInt?.map .int :=
  rfl

/-- If there is a price, its bounds are whole numbers. -/
def HasWholeBounds (filters : Fields) : Prop :=
  ∀ v ∈ Fields.get? filters "price", ∃ bounds, v = .object bounds ∧
    ∀ key ∈ ["min", "max"], ∀ w ∈ Fields.get? bounds (.text key), ∃ n : Int, w = .int n

theorem HasWholeBounds.boundOf {filters : Fields} (h : HasWholeBounds filters) {key : String}
    (hkey : key ∈ ["min", "max"]) : ∀ v ∈ boundOf filters key, ∃ n : Int, v = .int n := by
  intro v hv
  unfold Filters.boundOf at hv
  split at hv
  · rename_i bounds hprice
    obtain ⟨bounds', he, hwhole⟩ := h _ hprice
    obtain rfl := Value.object.inj he
    exact hwhole key hkey v hv
  · cases hv

theorem whole_of_statedBound (hbase : HasWholeBounds base) (hdelta : HasWholeBounds delta) {key : String}
    (hkey : key ∈ ["min", "max"]) : ∀ v ∈ statedBound base delta key, ∃ n : Int, v = .int n := by
  intro v hv
  rcases Option.or_eq_some_iff.mp hv with h | ⟨-, h⟩
  · exact hdelta.boundOf hkey v h
  · exact hbase.boundOf hkey v h

/-! ### merged bounds -/

theorem get_price (filters : Fields) (key : String) :
    (Fields.value filters "price").get key = (boundOf filters key).getD .null := by
  unfold Fields.value boundOf
  cases Fields.get? filters "price" with
  | none => rfl
  | some v => cases v <;> rfl

/-- A bound counts as the nearest double. -/
theorem boundQuantity?_whole {v : Value} (h : ∃ n : Int, v = .int n) :
    (boundQuantity? v).map Quantity.toValue = rounded? v := by
  obtain ⟨n, rfl⟩ := h
  rw [rounded?_int]
  show (Quantity.ofDouble? (Double.ofInt n)).map Quantity.toValue = _
  cases hx : Double.ofInt n with
  | finite x =>
    have hwhole : x.isWhole = true := Double.isWhole_of_ofInt_int hx
    show some (if x.isWhole then _ else _ : Quantity).toValue = (if x.isWhole then some _ else none).map _
    rw [if_pos hwhole, if_pos hwhole]
    rfl
  | infinite | nan => rfl

/-- What counts as the bound of a merged price is the one that was stated. -/
theorem laterBound_eq_statedBound (hdelta : HasWholeBounds delta) {key : String} (hkey : key ∈ ["min", "max"]) :
    laterBound (Fields.value base "price") (Fields.value delta "price") key =
      (statedBound base delta key).getD .null := by
  unfold laterBound statedBound
  rw [get_price, get_price]
  cases hv : boundOf delta key with
  | none => rfl
  | some v =>
    obtain ⟨n, rfl⟩ := hdelta.boundOf hkey v hv
    rfl

/-- The bounds of a price are those that it was made of. -/
theorem boundOf_priceValue {filters : Fields} {least most : Option Value}
    (h : Fields.get? filters "price" = priceValue least most) :
    boundOf filters "min" = least ∧ boundOf filters "max" = most := by
  unfold boundOf
  rw [h]
  cases least <;> cases most <;> exact ⟨rfl, rfl⟩

/-- A bound of a merged price is what the later of both prices says, as a number. -/
theorem boundOf_merge_later (hkeys : base.keys.Nodup) (hpriced : Fields.has delta "price" = true) {key : String}
    (hkey : key ∈ ["min", "max"]) : boundOf (merge base delta) key =
      (boundQuantity? (laterBound (Fields.value base "price") (Fields.value delta "price") key)).map
        Quantity.toValue := by
  have hnumber : ∀ (v : Value), ∀ w ∈ (boundQuantity? v).map Quantity.toValue, IsNumber w := by
    intro v w hw
    obtain ⟨q, -, rfl⟩ := Option.map_eq_some_iff.mp hw
    cases q with
    | whole n => exact .inl ⟨n, rfl⟩
    | fraction x => exact .inr ⟨.finite x, rfl⟩
  have hprice := @get?_merge base delta hkeys "price"
  rw [get?_overlay_price, laterPrice, if_pos hpriced, Option.some_or, Option.bind_some, mergePrice_boundFields,
    pruned?_bounds (hnumber _) (hnumber _)] at hprice
  obtain ⟨hmin, hmax⟩ := boundOf_priceValue hprice
  simp only [List.mem_cons, List.not_mem_nil, or_false] at hkey
  rcases hkey with rfl | rfl
  · exact hmin
  · exact hmax

/-- A bound that the later filters state is merged as the nearest double, whatever the earlier ones hold. -/
theorem boundOf_merge_of_stated (hkeys : base.keys.Nodup) (hdelta : HasWholeBounds delta) {key : String}
    (hkey : key ∈ ["min", "max"]) {v : Value} (hv : boundOf delta key = some v) :
    boundOf (merge base delta) key = rounded? v := by
  have hpriced : Fields.has delta "price" = true := by
    unfold boundOf at hv
    unfold Fields.has
    cases hprice : Fields.get? delta "price" with
    | none =>
      rw [hprice] at hv
      cases hv
    | some w => rfl
  rw [boundOf_merge_later hkeys hpriced hkey, laterBound_eq_statedBound hdelta hkey, statedBound, hv,
    Option.some_or, Option.getD_some]
  exact boundQuantity?_whole (hdelta.boundOf hkey v hv)

/-- A price stays as it was if the later filters hold none. -/
theorem boundOf_merge_of_unpriced {l : Look} (h : Shows Is base l) (hl : l.Neat)
    (hnone : Fields.get? delta "price" = none) (key : String) : boundOf (merge base delta) key = boundOf base key := by
  obtain ⟨least, most, hleast, hmost, hp⟩ := h.price
  have hprice : Fields.get? (merge base delta) "price" = Fields.get? base "price" := by
    rw [get?_merge h.nodup, get?_overlay_price, laterPrice, Fields.has, hnone, Option.isSome_none,
      if_neg Bool.false_ne_true, Option.none_or, hp]
    exact bind_pruned?_priceValue (isNumber_of_rel (rel_means hleast hl.least))
      (isNumber_of_rel (rel_means hmost hl.most))
  unfold boundOf
  rw [hprice]

/-- **A merged bound is the double nearest to the one that was stated.** -/
theorem boundOf_merge (hkeys : base.keys.Nodup) (hbase : HasWholeBounds base) (hdelta : HasWholeBounds delta)
    (hpriced : Fields.has delta "price" = true) {key : String} (hkey : key ∈ ["min", "max"]) :
    boundOf (merge base delta) key = (statedBound base delta key).bind rounded? := by
  rw [boundOf_merge_later hkeys hpriced hkey, laterBound_eq_statedBound hdelta hkey]
  cases hv : statedBound base delta key with
  | none => rfl
  | some v => exact boundQuantity?_whole (whole_of_statedBound hbase hdelta hkey v hv)

/-- A whole bound is rounded to itself exactly if it is a double. -/
theorem bind_rounded?_eq {v : Option Value} (h : ∀ w ∈ v, ∃ n : Int, w = .int n) :
    v.bind rounded? = v ↔ ∀ w ∈ v, w.isDouble = true := by
  cases v with
  | none => exact iff_of_true rfl nofun
  | some v =>
    obtain ⟨n, rfl⟩ := h v rfl
    have hdouble : (Value.int n).isDouble = true ↔ (Double.ofInt n).toInt? = some n := beq_iff_eq
    rw [Option.bind_some]
    simp only [Option.mem_some_iff, forall_eq', hdouble]
    rw [rounded?_int]
    cases (Double.ofInt n).toInt? <;> simp

end Filters

namespace Dialogue

open Filters Journal Message Text

/-- The bounds that a message states are whole. -/
theorem hasWholeBounds_extractWith {text : List Char} {known : List String} {e : Extraction}
    (h : extractWith text (.ok known) = .ok e) : HasWholeBounds e.filters := by
  intro v hv
  obtain ⟨fields, rfl, hfields⟩ : Prices IsNatural v := (holds_extractWith h).1.get? hv
  refine ⟨fields, rfl, fun key _ w hw => ?_⟩
  obtain ⟨-, n, hn⟩ := hfields.each _ (Fields.mem_of_get? hw)
  exact ⟨n, hn⟩

/-- A message that is no reset gets the reply to the filters that it is merged into. -/
theorem outcome_replied_iff {active : Fields} {text : String} {known : List String} {e : Extraction} {r : Reply}
    (hnamed : Named active) (hreset : isReset text.toList = false) (he : extract text known = .ok e)
    (hwritable : Value.haveWritable e.filters = true) (c : Context) :
    ((replied (.str text) (.object active) (.ofStrings known)).runFrom c).1 = .ok r ↔
      Reply.ofMerged (trim text.toList) e.intent (merge active e.filters) = .ok r := by
  have hread := (extractWith_named text.toList known).trans he
  rw [(steady_replied _ _ _).outcome c]
  show (replied _ _ (.list _)).outcomeWhen _ = _ ↔ _
  constructor
  · intro hr
    rcases cases_of_replied (orElse_object active) hr with ⟨hreset', -⟩ | ⟨-, e', he', hmerged⟩
    · cases hreset.symm.trans hreset'
    · rw [brandNames_texts, hread] at he'
      obtain rfl := Except.ok.inj he'
      exact hmerged
  · intro hmerged
    rw [Assistant.Turn.outcomeWhen_replied (demandOptionalText_str text "strip"), hreset,
      if_neg Bool.false_ne_true, brandNames_texts, outcomeWhen_extracted hread hwritable]
    exact outcomeWhen_concluded (orElse_object active) hnamed (holds_extractWith he).1.named hmerged _

/-- **The latest bounds win, as far as they are doubles.** A message of up to a thousand characters that is no reset is
read, and answered if the merged filters get a reply at all. If it names a price, each bound of the reply is the
double nearest to the one that it states, and where it states none to the active one: the bound itself exactly if
that is a double. -/
theorem bounds_of_replied (c : Context) (known : List String) {active : Fields} {text : String}
    (hnamed : Named active) (hkeys : active.keys.Nodup) (hwhole : HasWholeBounds active)
    (hreset : isReset text.toList = false) (hlength : text.toList.length ≤ 1000) :
    ∃ e, extract text known = .ok e ∧
      (Returns ((replied (.str text) (.object active) (.ofStrings known)).runFrom c).1 ↔
        Answerable e.intent (merge active e.filters)) ∧
      ∀ r, ((replied (.str text) (.object active) (.ofStrings known)).runFrom c).1 = .ok r →
        Fields.has e.filters "price" = true → ∀ key ∈ ["min", "max"],
          boundOf r.filters key = (statedBound active e.filters key).bind rounded? ∧
          (boundOf r.filters key = statedBound active e.filters key ↔
            ∀ v ∈ statedBound active e.filters key, v.isDouble = true) := by
  have hshort : 2 * text.toList.length + 2 ≤ Numeral.maxDigits := by
    show _ ≤ 4300
    omega
  obtain ⟨e, he⟩ := exists_extraction known hshort
  have hanswered := fun r => outcome_replied_iff (r := r) hnamed hreset he (haveWritable_extractWith he hshort) c
  refine ⟨e, he, ?_, fun r hr hpriced key hkey => ?_⟩
  · exact (exists_congr hanswered).trans (returns_ofMerged_iff _)
  · have hdelta := hasWholeBounds_extractWith he
    have hbound : boundOf r.filters key = (statedBound active e.filters key).bind rounded? := by
      rw [(filters_of_ofMerged ((hanswered r).mp hr)).1]
      exact boundOf_merge hkeys hwhole hdelta hpriced hkey
    refine ⟨hbound, ?_⟩
    rw [hbound]
    exact bind_rounded?_eq (whole_of_statedBound hwhole hdelta hkey)

/-- The filters ask for a price of at least five. -/
def fromFive : Fields :=
  [("price", .object [("min", .int 5)])]

theorem holds_fromFive : Holds Schema.Fitting fromFive := by
  have hfive : Schema.IsPrice (.int 5) := by
    obtain ⟨x, hx, -⟩ := Double.exists_ofInt_of_lt (n := 5) (by decide)
    exact .inl ⟨5, rfl, x, hx⟩
  refine ⟨by decide, fun p hp => ⟨"price", ?_⟩⟩
  rw [List.mem_singleton.mp hp]
  refine ⟨rfl, _, rfl, List.cons_ne_nil _ _, by decide, fun q hq => ?_⟩
  rw [List.mem_singleton.mp hq]
  exact ⟨.inl rfl, hfive⟩

theorem hasWholeBounds_fromFive : HasWholeBounds fromFive := by
  intro v hv
  obtain rfl : Value.object [("min", .int 5)] = v := Option.some.inj hv
  refine ⟨_, rfl, fun key hkey w hw => ⟨5, ?_⟩⟩
  simp only [List.mem_cons, List.not_mem_nil, or_false] at hkey
  rcases hkey with rfl | rfl
  · exact (Option.some.inj hw).symm
  · cases hw

/-- A bound of more than 53 binary digits is not the one that was stated, and the other one stays. -/
theorem bounds_of_replied_rounded : ∃ e r, extract "under 9007199254740993" [] = .ok e ∧
    ((replied (.str "under 9007199254740993") (.object fromFive) (.ofStrings [])).runFrom (.initial false)).1 = .ok r ∧
    boundOf e.filters "max" = some (.int 9007199254740993) ∧
    boundOf r.filters "max" = some (.int 9007199254740992) ∧ boundOf r.filters "min" = some (.int 5) := by
  have hbudget : ((findBudget (clean "under 9007199254740993".toList)).toOption.any fun found =>
      found.any fun b => b.budget.least.isNone && b.budget.most == some 9007199254740993) = true := by
    decide +kernel
  have hrounded : (Double.ofInt 9007199254740993).toInt? = some 9007199254740992 := by decide +kernel
  have hfive : (Double.ofInt 5).toInt? = some 5 := by decide +kernel
  have hreset : isReset "under 9007199254740993".toList = false := by decide
  obtain ⟨e, he, -, hbounds⟩ := bounds_of_replied (.initial false) [] holds_fromFive.named holds_fromFive.nodup
    hasWholeBounds_fromFive hreset (by decide)
  obtain ⟨found, hfound, hprice⟩ := price_extractWith he
  rw [hfound] at hbudget
  cases found with
  | none => cases hbudget
  | some b =>
  obtain ⟨hleast, hmost⟩ := Bool.and_eq_true_iff.mp hbudget
  have hleast : boundIn (some b) Budget.least = none := by
    unfold boundIn
    rw [Option.bind_some, Option.isNone_iff_eq_none.mp hleast]
    rfl
  have hmost : boundIn (some b) Budget.most = some (.int 9007199254740993) := by
    unfold boundIn
    rw [Option.bind_some, beq_iff_eq.mp hmost]
    rfl
  rw [hleast, hmost] at hprice
  obtain ⟨hmin, hmax⟩ := boundOf_priceValue hprice
  have hpriced : Fields.has e.filters "price" = true := by
    unfold Fields.has
    rw [hprice]
    rfl
  obtain ⟨r, hr⟩ : Returns ((replied (.str "under 9007199254740993") (.object fromFive) (.ofStrings [])).runFrom
      (.initial false)).1 := by
    rw [(steady_replied _ _ _).outcome]
    exact exists_replied (brandNames_texts []) (by decide) (orElse_object fromFive) holds_fromFive _
  refine ⟨e, r, he, hr, hmax, ?_, ?_⟩
  · rw [(hbounds r hr hpriced "max" (by decide)).1, statedBound, hmax]
    rw [Option.some_or, Option.bind_some, rounded?_int, hrounded, Option.map_some]
  · rw [(hbounds r hr hpriced "min" (by decide)).1, statedBound, hmin]
    rw [Option.none_or, show boundOf fromFive "min" = some (.int 5) from rfl, Option.bind_some, rounded?_int, hfive,
      Option.map_some]

end Dialogue

end Outfitter
