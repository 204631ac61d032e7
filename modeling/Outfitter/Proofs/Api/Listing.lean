import Outfitter.Proofs.Api.Bodies
import Outfitter.Proofs.Catalog.Listing
import Outfitter.Proofs.Filters.Reread
import Outfitter.Proofs.Schema.Crossing

/-!
The filters of a listing in a response.

Filters from parameters cross the boundary of the program unchanged, and so do they when category names have
been folded into them (`coerced_cross`). So the body of a response about a plan can always be built.
-/

namespace Outfitter.Api

open Filters Catalog Journal Schema

variable {table : Table} {filters params : Fields}

/-! ### filters from parameters -/

theorem isSpan_coerce {v : Value} (h : Fields.get? (coerce params) "price" = some v) : IsSpan v :=
  ⟨_, _, isRange_priceBounds params, (nonneg_priceBounds params).1, (nonneg_priceBounds params).2,
    (get?_coerce_price params).symm.trans h⟩

/-- The lists that parameters give. -/
theorem lists_coerce {name : String} (hname : name ∈ listFields) {v : Value}
    (h : Fields.get? (coerce params) name = some v) : Lists (fun _ => True) v := by
  obtain ⟨xs, -, hxs⟩ := @exists_list params name hname
  have hget : Fields.get? (coerce params) name = listValue (tidied name xs) :=
    get?_normalize_list (nodup_rawParams params) hname hxs
  exact lists_of_listValue (nodup_tidied name xs) (fun _ hx => nonempty_tidied hx) (fun _ _ => trivial)
    (hget.symm.trans h)

/-- The single values of filters that parameters give. -/
theorem fitting_scalar (h : Coerced filters) {name : String} (hname : name ∈ scalarFields) {v : Value}
    (hv : Fields.get? filters name = some v) : Fitting name v := by
  simp only [scalarFields, List.mem_cons, List.not_mem_nil, or_false] at hname
  rcases hname with rfl | rfl | rfl | rfl | rfl
  · obtain ⟨b, hb⟩ := h.inStock
    obtain ⟨t, -, rfl⟩ := Option.map_eq_some_iff.mp (hb.symm.trans hv)
    exact ⟨t, rfl⟩
  · obtain ⟨order, horder⟩ := h.sort
    obtain rfl := Option.some.inj (horder.symm.trans hv)
    exact ⟨order.name, List.mem_map_of_mem (by cases order <;> decide), rfl⟩
  · obtain ⟨w, hpage⟩ := h.page
    obtain rfl := Option.some.inj (hpage.symm.trans hv)
    exact ⟨_, rfl, Int.ofNat_le.mpr (one_le_page w)⟩
  · obtain ⟨w, hlimit⟩ := h.limit
    obtain rfl := Option.some.inj (hlimit.symm.trans hv)
    exact ⟨_, rfl, Int.ofNat_le.mpr (limit_bounds w).1, Int.ofNat_le.mpr (limit_bounds w).2⟩
  · obtain ⟨q, -, hq⟩ := h.query
    rw [hq] at hv
    split at hv
    · cases hv
    · rename_i hne
      obtain rfl := Option.some.inj hv
      exact ⟨q, rfl, Bool.eq_false_iff.mpr hne⟩

/-- Filters of the form in which parameters give them are settled, if their lists are normal, and their price
is a span. -/
theorem settled_of_coerced (h : Coerced filters)
    (hlists : ∀ name ∈ listFields, ∀ v, Fields.get? filters name = some v →
      Lists (fun _ => True) v ∧ IsNormal name v)
    (hprice : ∀ v, Fields.get? filters "price" = some v → IsSpan v) : Settled filters where
  fits := by
    refine holds_of_get? h.nodup fun key v hv => ?_
    have hkey : key ∈ (listFields ++ "price" :: scalarFields).map Key.text :=
      Classical.byContradiction fun hne => by rw [h.others key hne] at hv; cases hv
    obtain ⟨name, hname, rfl⟩ := List.mem_map.mp hkey
    refine ⟨name, rfl, ?_⟩
    rcases List.mem_append.mp hname with hlist | hname
    · exact (fitting_list hlist v).mpr (hlists name hlist v hv).1
    · rcases List.mem_cons.mp hname with rfl | hscalar
      · exact (hprice v hv).prices
      · exact fitting_scalar h hscalar hv
  normal name hname v hv := (hlists name hname v hv).2
  price := hprice

theorem settled_coerce (params : Fields) : Settled (coerce params) :=
  settled_of_coerced (coerced_coerce params) (fun _ hname _ hv => ⟨lists_coerce hname hv, normal_coerce hname hv⟩)
    fun _ => isSpan_coerce

/-! ### category names folded -/

/-- Identifiers that are found are not empty. -/
theorem nonempty_of_mem_resolve {names : List Value} {id : String} (h : id ∈ table.resolve names) :
    id.isEmpty = false := by
  rcases mem_firsts.mp h with h | h
  · cases h
  · obtain ⟨v, -, hv⟩ := List.mem_filterMap.mp h
    obtain ⟨name, -, hname⟩ := Option.bind_eq_some_iff.mp hv
    obtain ⟨found, -, hid⟩ := Option.bind_eq_some_iff.mp hname
    split at hid
    · cases hid
    · rename_i hne
      obtain rfl := Option.some.inj hid
      exact Bool.eq_false_iff.mpr hne

/-- There is no rule for identifiers. -/
theorem isNormal_ids {ids : List String} (h : ids.Nodup) : IsNormal "category_ids" (.ofStrings ids) where
  ruled := updated_mapTexts_id _
  broadened he := absurd he (by decide)
  distinct := by rw [updated_distinctList, firsts_nil h]

theorem settled_folded (h : Settled filters) {folded : Fields} {ids : List String} {names : List Value}
    (hids : Fields.get? filters "category_ids" = listValue ids) (hn : folded.keys.Nodup)
    (hget : ∀ key, Fields.get? folded key = if key = "include_categories" then none
      else if key = "category_ids" then listValue (firsts ids (table.resolve names))
      else Fields.get? filters key) : Settled folded := by
  have hgiven : ids.Nodup ∧ ∀ id ∈ ids, id.isEmpty = false := by
    rcases listValue_cases ids with he | ⟨-, rfl⟩
    · obtain ⟨xs, hxs, htexts⟩ := (fitting_list (by decide) _).mp (h.fits.get? (hids.trans he))
      obtain rfl : ids = xs := List.map_inj_right (fun _ _ => Value.str.inj) |>.mp (Value.list.inj hxs)
      exact ⟨htexts.nodup, htexts.texts⟩
    · exact ⟨List.nodup_nil, nofun⟩
  have hnodup : (firsts ids (table.resolve names)).Nodup := nodup_firsts hgiven.1
  have htexts : ∀ id ∈ firsts ids (table.resolve names), id.isEmpty = false := by
    intro id hid
    rcases mem_firsts.mp hid with hid | hid
    · exact hgiven.2 id hid
    · exact nonempty_of_mem_resolve hid
  -- a field that is found is one of the identifiers, or was there before
  have hcases : ∀ key v, Fields.get? folded key = some v →
      key = "category_ids" ∧ listValue (firsts ids (table.resolve names)) = some v ∨
        Fields.get? filters key = some v := by
    intro key v hv
    rw [hget] at hv
    split at hv
    · cases hv
    · split at hv
      · rename_i hkey
        exact .inl ⟨hkey, hv⟩
      · exact .inr hv
  have hlists : ∀ v, listValue (firsts ids (table.resolve names)) = some v → Lists (fun _ => True) v :=
    fun v hv => lists_of_listValue hnodup htexts (fun _ _ => trivial) hv
  constructor
  case fits =>
    refine holds_of_get? hn fun key v hv => ?_
    rcases hcases key v hv with ⟨rfl, hjoined⟩ | hbefore
    · exact ⟨_, rfl, (fitting_list (by decide) v).mpr (hlists v hjoined)⟩
    · exact h.fits.get?_text hbefore
  case normal =>
    intro name hname v hv
    rcases hcases name v hv with ⟨he, hjoined⟩ | hbefore
    · obtain rfl := Key.text.inj he
      obtain ⟨xs, rfl, hxs⟩ := hlists v hjoined
      exact isNormal_ids hxs.nodup
    · exact h.normal name hname v hbefore
  case price =>
    intro v hv
    rcases hcases "price" v hv with ⟨he, -⟩ | hbefore
    · exact absurd he (by decide)
    · exact h.price v hbefore

/-- What filters from parameters come to when category names are folded into them. -/
theorem exists_folded (table : Table) (params : Fields) :
    ∃ folded, foldCategories table (coerce params) = .ok folded ∧ Crosses folded ∧
      Value.haveWritable folded = true := by
  have hcoerced := coerced_coerce params
  obtain ⟨ids, -, hids⟩ := hcoerced.tokens "category_ids" (by decide)
  obtain ⟨folded, names, hfold, hn, hget⟩ := @exists_foldCategories_fields table _ hcoerced ids hids
  have hsettled : Settled folded := settled_folded (settled_coerce params) hids hn hget
  refine ⟨folded, hfold, crosses_of_settled hsettled, (Value.haveWritable_iff folded).mpr fun p hp => ?_⟩
  have hv := Fields.get?_of_mem hn hp
  rw [hget] at hv
  split at hv
  · cases hv
  · split at hv
    · rcases listValue_cases (firsts ids (table.resolve names)) with he | ⟨he, -⟩
      · rw [← Option.some.inj (he.symm.trans hv)]
        exact Value.isWritable_texts _
      · cases he.symm.trans hv
    · exact (Value.haveWritable_iff _).mp hcoerced.haveWritable _ (Fields.mem_of_get? hv)

/-! ### plans in responses -/

theorem haveWritable_addParameter {given : Fields} (h : Value.haveWritable given = true) (name value : String) :
    Value.haveWritable (Target.addParameter given name value) = true := by
  refine Value.haveWritable_put h _ ?_
  split
  · rfl
  · rename_i values hget
    have hvalues := (Value.haveWritable_iff given).mp h _ (Fields.mem_of_get? hget)
    refine (Value.areWritable_iff _).mpr fun v hv => ?_
    rcases List.mem_append.mp hv with hv | hv
    · exact (Value.areWritable_iff values).mp hvalues v hv
    · rw [List.mem_singleton.mp hv]
      rfl
  · rename_i earlier _ hget
    have hearlier := (Value.haveWritable_iff given).mp h _ (Fields.mem_of_get? hget)
    exact Bool.and_eq_true_iff.mpr ⟨hearlier, rfl⟩

/-- The parameters of a query are texts and lists of texts. -/
theorem haveWritable_params (t : Target) : Value.haveWritable t.params = true := by
  have hfold : ∀ (pairs : List (String × String)) (given : Fields), Value.haveWritable given = true →
      Value.haveWritable (pairs.foldl (fun params p => Target.addParameter params p.1 p.2) given) = true := by
    intro pairs
    induction pairs with
    | nil => exact fun _ h => h
    | cons p rest ih => exact fun given h => ih _ (haveWritable_addParameter h p.1 p.2)
  exact hfold t.pairs [] rfl

theorem haveWritable_without {fields : Fields} (h : Value.haveWritable fields = true) (key : Key) :
    Value.haveWritable (fields.without key) = true :=
  (Value.haveWritable_iff _).mpr fun p hp =>
    (Value.haveWritable_iff fields).mp h p (List.mem_filter.mp hp).1

theorem isWritable_shownFields (v : Value) : (Server.shownFields v).isWritable = true := by
  have hone : (Value.int 1).isWritable = true := by decide +kernel
  unfold Server.shownFields
  split
  · rfl
  · refine Value.haveWritable_ofPairs ((Value.haveWritable_iff _).mpr fun p hp => ?_)
    obtain ⟨name, -, rfl⟩ := List.mem_map.mp hp
    exact hone

/-- The filters and the plan for a listing. -/
theorem listed_of_folded {folded : Fields} (hparams : Value.haveWritable params = true)
    (hfold : foldCategories table (coerce params) = .ok folded) (hfolded : Value.haveWritable folded = true)
    {fields : Value} (hfields : fields.isWritable = true) (c : Context) :
    ((listed table (.object params) fields).runFrom c).1 = .ok (folded, Plan.compile folded fields) := by
  have hgiven := (Traced.outcomeWhen_liftExcept c.debugging _).trans (coerceValue_eq hparams)
  have hfolding := outcomeWhen_folding (coerced_coerce params) hfold c.debugging
  rw [(steady_listed table (.object params) fields).outcome c, listed_object,
    Traced.outcomeWhen_bind_of_ok ((Traced.steady_liftExcept _).inStage ..)
      (fun _ => ((steady_folding ..).inStage ..).bind fun _ => steady_planned ..)
      ((Traced.outcomeWhen_inStage (Traced.steady_liftExcept _) ..).trans hgiven),
    Traced.outcomeWhen_bind_of_ok ((steady_folding ..).inStage ..) (fun _ => steady_planned ..)
      ((Traced.outcomeWhen_inStage (steady_folding ..) ..).trans hfolding)]
  exact outcomeWhen_planned_of_writable hfolded hfields c.debugging

/-- Filters that make a payload stand as it in the body about a plan. -/
theorem planBody_of_ofFilters {p : Payload} (h : Payload.ofFilters (.object filters) = .ok p)
    (plan : QueryPlan) :
    ∃ body, planBody filters plan = .ok body ∧ body.get "filters" = .object p.toFields := by
  rw [ofFilters_object] at h
  unfold planBody payloadBody
  rw [h]
  exact ⟨_, rfl, rfl⟩

/-- A request for a plan is answered, with the filters that the plan was made from. -/
theorem exists_queryPlan (s : Server) (r : Request) :
    ∃ (filters : Fields) (plan : QueryPlan) (p : Payload) (body : Value),
      ((listed s.catalog (.object (r.target.params.without "fields"))
        (Server.shownFields (Fields.value r.target.params "fields"))).runFrom s.assistant.journal).1 =
          .ok (filters, plan) ∧
      Payload.ofFilters (.object filters) = .ok p ∧
      (Value.object p.toFilters).same (.object filters) = true ∧
      planBody filters plan = .ok body ∧
      body.get "filters" = .object p.toFields ∧
      (s.queryPlan r).1 = .ok (.ofBody 200 body) := by
  have hgiven := haveWritable_without (haveWritable_params r.target) "fields"
  have hshown := isWritable_shownFields (Fields.value r.target.params "fields")
  obtain ⟨joined, hfold, ⟨p, hp, hsame⟩, hwritable⟩ :=
    exists_folded s.catalog (r.target.params.without "fields")
  have hlisted := listed_of_folded hgiven hfold hwritable hshown s.assistant.journal
  obtain ⟨body, hbody, hfilters⟩ := planBody_of_ofFilters hp (Plan.compile joined _)
  refine ⟨joined, _, p, body, hlisted, hp, hsame, hbody, hfilters, ?_⟩
  unfold Server.queryPlan
  dsimp only
  rw [answerTraced_of_ok hlisted]
  show Server.respondWith (planBody joined _) = _
  rw [hbody]
  rfl

/-- **Filters from parameters cross the boundary unchanged**, with category names or without. So a request for
a plan is always answered, with the filters that the plan was made from. -/
theorem coerced_cross (params : Fields) (hparams : Value.haveWritable params = true) (table : Table)
    (c : Context) :
    (∃ given joined, coerceValue (.object params) = .ok given ∧ Crosses given ∧
      ((folded table (.object given)).runFrom c).1 = .ok joined ∧ Crosses joined) ∧
    ∀ (s : Server) (r : Request), ∃ (filters : Fields) (plan : QueryPlan) (p : Payload) (body : Value),
      ((listed s.catalog (.object (r.target.params.without "fields"))
        (Server.shownFields (Fields.value r.target.params "fields"))).runFrom s.assistant.journal).1 =
          .ok (filters, plan) ∧
      Payload.ofFilters (.object filters) = .ok p ∧
      (Value.object p.toFilters).same (.object filters) = true ∧
      body.get "filters" = .object p.toFields ∧
      (s.queryPlan r).1 = .ok (.ofBody 200 body) := by
  obtain ⟨joined, hfold, hcross, -⟩ := exists_folded table params
  refine ⟨⟨coerce params, joined, coerceValue_eq hparams, crosses_of_settled (settled_coerce params), ?_, hcross⟩,
    fun s r => ?_⟩
  case refine_2 =>
    obtain ⟨filters, plan, p, body, hlisted, hp, hsame, -, hfilters, hanswer⟩ := exists_queryPlan s r
    exact ⟨filters, plan, p, body, hlisted, hp, hsame, hfilters, hanswer⟩
  have hfolding := outcomeWhen_folding (coerced_coerce params) hfold c.debugging
  have hsteady : Traced.Steady (folded table (.object (coerce params))) := (steady_folding ..).inStage ..
  rw [hsteady.outcome c]
  exact (Traced.outcomeWhen_inStage (steady_folding ..) ..).trans hfolding

/-- Parameters of mixed shapes: bounds the wrong way round, one with a fraction, and a name of a category. -/
def mixedParams : Fields :=
  [("include_categories", .str "Dresses, hats"), ("category_ids", .str "64B000000000000000000009"),
    ("colors", .list [.str "Pastels", .str "gray"]), ("price_min", .str "80.5"), ("price_max", .int 20),
    ("page", .str "2.7"), ("limit", .int 1000), ("sort", .null)]

theorem coerced_cross_of_mixed : Value.haveWritable mixedParams = true ∧
    ∃ given joined, coerceValue (.object mixedParams) = .ok given ∧ Crosses given ∧
      ((folded (Table.ofCategories Category.defaults) (.object given)).runFrom (.initial true)).1 =
        .ok joined ∧ Crosses joined := by
  have hwritable : Value.haveWritable mixedParams = true := by decide +kernel
  exact ⟨hwritable, (coerced_cross mixedParams hwritable (Table.ofCategories Category.defaults)
    (.initial true)).1⟩

end Outfitter.Api
