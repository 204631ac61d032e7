import Outfitter.Proofs.Json.Exchange
import Outfitter.Proofs.Json.Codec
import Outfitter.Proofs.Plan.AsksFor
import Outfitter.Proofs.Plan.Order

/-!
Plans that are read again.

A stage that asks for something passes the check of its kind with all its fields as they are written, whether
they were given or stand for a default (`Plan.Stage.ofValue_toValue`); so does a plan of such stages
(`QueryPlan.ofValue_toValue`), and every plan that is compiled is one (`isSound_compile`). It is a value that can be
sent (`isSent_compile`), so that it comes back from its text as it was by any codec that may be relied on
(`reread_compiled`). Limits keep some plans from being read and change none (`rereadBy_limited_iff`).
-/

namespace Outfitter

/-! ### checking again -/

section

open Schema

namespace Plan.Stage

/-- The stage asks for something. -/
def isSound : Stage → Bool
  | categoricalMatch conditions => !conditions.isEmpty
  | textSearch query _ => !query.isEmpty
  | variantMatch colors sizes inStock => !(isBare colors && isBare sizes && !inStock)
  | priceMatch least most _ => least.isSome || most.isSome
  | sort keys => !keys.isEmpty
  | limit count => 1 ≤ count
  | projection fields => !fields.isEmpty
  | _ => true

/-- A bound is checked to be what it is. -/
theorem orNone_number (bound : Option Double) : orNone number (optionalValue .float bound) = .ok bound := by
  cases bound <;> rfl

/-- **A sound stage passes the check of its kind**, and comes to itself. -/
theorem ofKind_toFields {s : Stage} (h : s.isSound = true) : ofKind s.kind s.toFields = .ok s := by
  cases s with
  | categoricalMatch conditions => exact ofKind_categoricalMatch rfl h
  | textSearch query scoreField => exact ofKind_textSearch rfl (optional_present rfl _ rfl) h
  | variantMatch colors sizes inStock => exact ofKind_variantMatch rfl rfl rfl (Bool.not_eq_true' _ ▸ h)
  | derivedMinPrice field => exact ofKind_derivedMinPrice (optional_present rfl _ rfl)
  | priceMatch least most field =>
    exact ofKind_priceMatch (optional_present rfl _ (orNone_number least))
      (optional_present rfl _ (orNone_number most)) (optional_present rfl _ rfl) h
  | sort keys =>
    have hkeys : (!keys.isEmpty) = true := h
    exact ofKind_sort rfl (by simpa using hkeys)
  | skip count => exact ofKind_skip rfl
  | limit count => exact ofKind_limit rfl (of_decide_eq_true h)
  | projection fields => exact ofKind_projection rfl h

theorem kind_mem_kinds (s : Stage) : s.kind ∈ kinds := by
  cases s <;> simp [kinds, kind]

/-- A sound stage is the stage that it is written as. -/
theorem ofValue_toValue {s : Stage} (h : s.isSound = true) : ofValue s.toValue = .ok s := by
  have hkind : Fields.get? s.toFields "kind" = some (.str s.kind) := rfl
  unfold ofValue toValue
  dsimp only
  rw [hkind]
  dsimp only
  rw [if_pos s.kind_mem_kinds]
  exact part_ok _ (ofKind_toFields h)

end Plan.Stage

/-- **A plan of sound stages is the plan that it is written as.** -/
theorem QueryPlan.ofValue_toValue {plan : QueryPlan} (h : ∀ s ∈ plan.stages, s.isSound = true) :
    ofValue plan.toValue = .ok plan := by
  have hstages : listOf Plan.Stage.ofValue (.list (plan.stages.map Plan.Stage.toValue)) = .ok (plan.stages.map id) :=
    listOf_map fun s hs => Plan.Stage.ofValue_toValue (h s hs)
  rw [List.map_id] at hstages
  unfold ofValue toValue record
  dsimp only
  rw [required_present rfl hstages, required_present rfl (a := plan.sort) rfl,
    required_present rfl (a := plan.page) rfl, required_present rfl (a := plan.limit) rfl]
  rfl

/-- So it is the plan that is read from its text, if the text is read as what was printed. -/
theorem QueryPlan.rereadBy_eq {codec : Json.Codec} {plan : QueryPlan} (h : ∀ s ∈ plan.stages, s.isSound = true)
    {text : String} (hprint : codec.print plan.toValue = .ok text) (hread : codec.read text = .ok plan.toValue) :
    plan.rereadBy codec = .ok plan := by
  unfold rereadBy
  rw [hprint, Plan.bind_ok, hread]
  show (ofValue plan.toValue).toExcept Fault.invalid = _
  rw [ofValue_toValue h]
  rfl

namespace Plan

open Filters

variable {filters : Fields} {fields : Value} {stage : Stage}

/-- What holds of every stage that there may be, where it is wanted, holds of all stages of a plan. -/
theorem forall_stages {P : Stage → Prop}
    (categorical : (!(categoricalConditions filters).isEmpty) = true →
      P (.categoricalMatch (categoricalConditions filters)))
    (search : (!(queryText filters).isEmpty) = true → P (.textSearch (queryText filters) textScoreField))
    (variant : ∀ colors sizes : List String, ∀ inStock,
      (!colors.isEmpty || !sizes.isEmpty || inStock) = true →
        P (.variantMatch (someList colors) (someList sizes) inStock))
    (derived : P (.derivedMinPrice minPriceField))
    (price : isPriced filters = true →
      P (.priceMatch ((priceBounds (Fields.value filters "price")).1.map double)
        ((priceBounds (Fields.value filters "price")).2.map double) minPriceField))
    (sorted : ∀ order hasQuery, P (.sort (sortKeys order hasQuery)))
    (skipped : P (.skip ((page (Fields.value filters "page") - 1) * limit (Fields.value filters "limit"))))
    (limited : P (.limit (limit (Fields.value filters "limit"))))
    (projected : (!(projectionFields fields).isEmpty) = true → P (.projection (projectionFields fields))) :
    ∀ s ∈ (compile filters fields).stages, P s := by
  intro s h
  unfold compile at h
  simp only [List.mem_append, mem_stageIf, List.mem_cons, List.not_mem_nil, or_false] at h
  rcases h with (((((⟨h, rfl⟩ | ⟨h, rfl⟩) | ⟨h, rfl⟩) | ⟨-, rfl⟩) | ⟨h, rfl⟩) | rfl | rfl | rfl) | ⟨h, rfl⟩
  · exact categorical h
  · exact search h
  · exact variant _ _ _ h
  · exact derived
  · exact price h
  · exact sorted _ _
  · exact skipped
  · exact limited
  · exact projected h

/-- **The plan that is compiled is made of sound stages.** -/
theorem isSound_compile (filters : Fields) (fields : Value) :
    ∀ s ∈ (compile filters fields).stages, s.isSound = true := by
  have hlimit := (limit_bounds (Fields.value filters "limit")).1
  apply forall_stages
  case categorical => exact fun h => h
  case search => exact fun h => h
  case variant =>
    intro colors sizes inStock h
    unfold Stage.isSound
    dsimp only
    rw [isBare_someList, isBare_someList]
    revert h
    cases colors.isEmpty <;> cases sizes.isEmpty <;> cases inStock <;> decide
  case derived => rfl
  case price =>
    intro h
    unfold Stage.isSound
    dsimp only
    rwa [Option.isSome_map, Option.isSome_map]
  case sorted => exact fun order hasQuery => by simpa [Stage.isSound] using sortKeys_ne_nil order hasQuery
  case skipped => rfl
  case limited => exact decide_eq_true hlimit
  case projected => exact fun h => h

end Plan

end

namespace Plan

open Filters Value

variable {filters : Fields} {fields : Value}

/-! ### numbers in a plan -/

/-- So many pages of products can be written. -/
theorem isWritable_skipped {page limit : Nat} (hpage : (Value.int page).isDouble = true) (hlimit : limit ≤ 100) :
    (Value.int ((page - 1) * limit : Nat)).isWritable = true := by
  obtain ⟨x, hx, -⟩ := Value.isDouble_int.mp hpage
  -- the power is too great to be written out
  obtain ⟨k, hk, hlt⟩ : ∃ k, k = 1023 + 1 ∧ page < 2 ^ k := ⟨_, rfl, Double.lt_of_ofInt hx⟩
  have hmost : k + 2 ≤ Numeral.maxDigits := hk ▸ by decide
  clear hk
  have hten : 2 ^ k * 100 ≤ 10 ^ k * 100 := Nat.mul_le_mul_right 100 (Nat.pow_le_pow_left (by decide) k)
  have hmul : (page - 1) * limit ≤ (page - 1) * 100 := Nat.mul_le_mul_left _ hlimit
  have hshort : Numeral.isShort ((page - 1) * limit : Nat) = true := by
    refine isShort_of_lt_pow ?_ hmost
    rw [Nat.pow_add]
    omega
  exact hshort

/-- A bound of a price is finite. -/
theorem isSent_bound {bound : Option Quantity} (h : ∀ q ∈ bound, ∃ x, Quantity.ofDouble? x = some q) :
    IsSent (Stage.optionalValue .float (bound.map double)) := by
  cases bound with
  | none => exact isSent_null
  | some q =>
    obtain ⟨x, hx⟩ := h q rfl
    obtain ⟨y, hy, -⟩ := exists_double hx
    show IsSent (.float (double q))
    rw [hy]
    exact isSent_finite y

/-! ### projections -/

/-- Names that are listed are kept once each. -/
theorem keepsNames (names : List String) (kept : List (String × Value)) (hn : (kept.map (·.1)).Nodup)
    (hone : ∀ p ∈ kept, p.2 = .int 1) :
    ((names.foldl (fun kept name => Keyed.put kept name (.int 1)) kept).map (·.1)).Nodup ∧
      ∀ p ∈ names.foldl (fun kept name => Keyed.put kept name (.int 1)) kept, p.2 = .int 1 := by
  induction names generalizing kept with
  | nil => exact ⟨hn, hone⟩
  | cons name names ih =>
    refine ih _ (Keyed.nodup_put hn name (.int 1)) fun p hp => ?_
    have hlookup := Keyed.lookup_of_mem (Keyed.nodup_put hn name (.int 1)) hp
    by_cases hname : p.1 = name
    · rw [hname, Keyed.lookup_put_self] at hlookup
      exact (Option.some.inj hlookup).symm
    · rw [Keyed.lookup_put_of_ne _ _ hname] at hlookup
      exact hone p (Keyed.mem_of_lookup hlookup)

/-- A projection names every field once, and says something that can be sent about it. -/
theorem isSent_projectionFields (h : fields.IsSent) :
    ((projectionFields fields).map (·.1)).Nodup ∧ ∀ p ∈ projectionFields fields, p.2.IsSent := by
  by_cases hobject : ∃ named, fields = .object named
  · obtain ⟨named, rfl⟩ := hobject
    obtain ⟨hn, hj⟩ := Bool.and_eq_true_iff.mp h.json
    have hj := (haveJson_iff named).mp hj
    have hkeys : (((projectionFields (.object named)).map (·.1)).map Key.text) = named.map (·.1) := by
      show ((named.map fun p => (p.1.shown, p.2)).map (·.1)).map Key.text = _
      rw [List.map_map, List.map_map]
      refine List.map_congr_left fun p hp => ?_
      obtain ⟨name, hname⟩ := Key.isText_iff.mp (hj p hp).1
      show Key.text p.1.shown = p.1
      rw [hname]
      rfl
    constructor
    · have hnodup := hkeys ▸ of_decide_eq_true hn
      exact (List.pairwise_map.mp hnodup).imp fun hne he => hne (congrArg Key.text he)
    · intro q hq
      obtain ⟨p, hp, rfl⟩ := List.mem_map.mp hq
      exact ⟨(haveFinite_iff named).mp h.finite p hp, (hj p hp).2, (haveWritable_iff named).mp h.writable p hp⟩
  · have hfields : projectionFields fields =
        (listed fields).foldl (fun kept name => Keyed.put kept name (.int 1)) [] := by
      cases fields with
      | object named => exact absurd ⟨named, rfl⟩ hobject
      | _ => rfl
    obtain ⟨hn, hone⟩ := keepsNames (listed fields) [] List.nodup_nil fun _ h => absurd h List.not_mem_nil
    rw [hfields]
    refine ⟨hn, fun p hp => ?_⟩
    rw [hone p hp]
    exact isSent_int (by decide +kernel)

/-! ### the stages of a plan as values -/

/-- The fields of a stage have names of their own. -/
theorem nodup_toFields (s : Stage) : (s.toFields.map (·.1)).Nodup ∧ ∀ p ∈ s.toFields, p.1.isText = true := by
  cases s <;> simp [Stage.toFields, Key.isText]

theorem isSent_toValue {s : Stage} (h : ∀ p ∈ s.toFields, p.2.IsSent) : s.toValue.IsSent :=
  isSent_object (nodup_toFields s).1 fun p hp => ⟨(nodup_toFields s).2 p hp, h p hp⟩

theorem isSent_texts (values : Option (List String)) : (Stage.optionalValue .ofStrings values).IsSent := by
  cases values with
  | none => exact isSent_null
  | some texts => exact isSent_ofStrings texts

theorem isSent_conditions (filters : Fields) :
    IsSent (.object ((categoricalConditions filters).map fun c => (.text c.1, .list c.2))) := by
  have hnamed : (categoricalConditions filters).map (fun c => (Key.text c.1, Value.list c.2)) =
      Fields.ofNamed ((categoricalConditions filters).map fun c => (c.1, .list c.2)) := by
    simp [Fields.ofNamed]
  rw [hnamed]
  refine isSent_ofNamed ?_ fun p hp => ?_
  · rw [List.map_map]
    exact nodup_categoricalConditions filters
  · obtain ⟨c, hc, rfl⟩ := List.mem_map.mp hp
    obtain ⟨texts, htexts⟩ := exists_of_mem_categoricalConditions hc
    show IsSent (.list c.2)
    rw [htexts]
    exact isSent_ofStrings texts

theorem isSent_keys (keys : List (String × Direction)) : IsSent (.list (keys.map sortPair)) := by
  refine isSent_list fun v hv => ?_
  obtain ⟨key, -, rfl⟩ := List.mem_map.mp hv
  refine isSent_list (List.forall_mem_cons.mpr ⟨isSent_str _, List.forall_mem_singleton.mpr ?_⟩)
  cases key.2 <;> exact isSent_int (by decide +kernel)

/-- The stages that a plan is made of can be sent. -/
theorem isSent_stages (h : fields.IsSent) : ∀ s ∈ (compile filters fields).stages, s.toValue.IsSent := by
  have hlimit := limit_bounds (Fields.value filters "limit")
  have hrange := isRange_priceBounds (Fields.value filters "price")
  have hskipped := isSent_int (isWritable_skipped (isDouble_page (Fields.value filters "page")) hlimit.2)
  have hlimited := isSent_int (isWritable_of_isDouble (isDouble_limit (Fields.value filters "limit")))
  obtain ⟨hn, hsent⟩ := isSent_projectionFields h
  apply forall_stages <;> intros <;> apply isSent_toValue <;>
    simp only [Stage.toFields, List.forall_mem_cons, List.not_mem_nil, false_implies, implies_true, and_true]
  case categorical => exact ⟨isSent_str _, isSent_conditions filters⟩
  case search => exact ⟨isSent_str _, isSent_str _, isSent_str _⟩
  case variant => exact ⟨isSent_str _, isSent_texts _, isSent_texts _, isSent_bool _⟩
  case derived => exact ⟨isSent_str _, isSent_str _⟩
  case price => exact ⟨isSent_str _, isSent_bound hrange.lower, isSent_bound hrange.upper, isSent_str _⟩
  case sorted => exact ⟨isSent_str _, isSent_keys _⟩
  case skipped => exact ⟨isSent_str _, hskipped⟩
  case limited => exact ⟨isSent_str _, hlimited⟩
  case projected => exact ⟨isSent_str _, isSent_ofNamed hn hsent⟩

/-- A plan can be sent. -/
theorem isSent_compile (h : fields.IsSent) : (compile filters fields).toValue.IsSent := by
  have hpage := isWritable_of_isDouble (isDouble_page (Fields.value filters "page"))
  have hlimit := isWritable_of_isDouble (isDouble_limit (Fields.value filters "limit"))
  refine isSent_object (by simp) ?_
  simp only [List.forall_mem_cons, List.not_mem_nil, false_implies, implies_true, and_true]
  refine ⟨⟨rfl, isSent_list (List.forall_mem_map.mpr (isSent_stages h))⟩, ⟨rfl, isSent_str _⟩,
    ⟨rfl, isSent_int hpage⟩, rfl, isSent_int hlimit⟩

/-! ### the plan that is read again -/

/-- A plan is read again as it was where a faithful codec has limits, exactly if it fits within them; in no case
is another plan read. -/
theorem rereadBy_limited_iff {codec : Json.Codec} (hcodec : codec.IsFaithful) (filters : Fields) (h : fields.IsSent)
    {deepest room : Nat} {plan : QueryPlan} :
    (compile filters fields).rereadBy (codec.limited deepest room) = .ok plan ↔
      ((compile filters fields).toValue.depth ≤ deepest ∧ (compile filters fields).toValue.FitsWithin (room + 1)) ∧
        plan = compile filters fields := by
  have hsent : (compile filters fields).toValue.IsSent := isSent_compile h
  obtain ⟨text, hprint, hread⟩ := hcodec.carries hsent
  have hchecked := QueryPlan.ofValue_toValue (isSound_compile filters fields)
  have hfits := Json.obstacle?_eq_none_iff Json.shortest room (compile filters fields).toValue
  unfold QueryPlan.rereadBy Json.Codec.limited
  dsimp only
  split
  · rename_i hdeep
    exact iff_of_false nofun fun h => absurd hdeep (Nat.not_lt.mpr h.1.1)
  · rename_i hdeep
    rw [hprint, bind_ok, hread, ← hfits]
    unfold Schema.Checked.andThen
    dsimp only
    cases Json.shortest.obstacle? room (compile filters fields).toValue with
    | some found => exact iff_of_false nofun fun h => absurd h.1.2 (Option.some_ne_none found)
    | none =>
      dsimp only
      rw [hchecked]
      exact ⟨fun h => ⟨⟨Nat.not_lt.mp hdeep, rfl⟩, (Except.ok.inj h).symm⟩, fun h => congrArg Except.ok h.2.symm⟩

/-- **Every plan that is compiled comes back from its text as it was**, by any faithful codec. -/
theorem reread_compiled {codec : Json.Codec} (hcodec : codec.IsFaithful) {filters : Value}
    (hfilters : filters.isWritable = true) (hfields : fields.IsSent) :
    ∃ plan, constructValue filters fields = .ok plan ∧ plan.rereadBy codec = .ok plan := by
  have hsent : (compileValue filters fields).toValue.IsSent := isSent_compile hfields
  obtain ⟨text, hprint, hread⟩ := hcodec.carries hsent
  exact ⟨compileValue filters fields, constructValue_eq hfilters hfields.writable,
    QueryPlan.rereadBy_eq (isSound_compile _ fields) hprint hread⟩

/-- A search with a price, and a projection that asks for the score. -/
theorem reread_compiled_of_dress : ∃ plan,
    constructValue
        (.object [("q", .str "dress"), ("colors", .list [.str "red"]), ("price", .object [("max", .int 50)])])
        (.object [("name", .int 1), ("score", .object [("$meta", .str "textScore")])]) = .ok plan ∧
      plan.rereadBy .plain = .ok plan :=
  reread_compiled Json.Codec.isFaithful_plain (by decide +kernel)
    ⟨by decide +kernel, by decide +kernel, by decide +kernel⟩

end Plan

end Outfitter
