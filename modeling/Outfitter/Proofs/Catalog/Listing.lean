import Outfitter.Catalog.Traced
import Outfitter.Proofs.Journal.Steady
import Outfitter.Proofs.Plan.AsksFor

/-!
Listing products.

The identifiers that category names stand for join those that are given, and the names are gone
(`exists_foldCategories`). So the plan for the parameters of a listing asks for exactly what the filters say
that are told beside it (`listed_asksFor`).
-/

namespace Outfitter

namespace Filters

variable {filters others : Fields}

/-- Filters in which lists of pieces have come in the place of the lists. -/
theorem Coerced.relisted (h : Coerced filters) (hn : others.keys.Nodup)
    (hkept : ∀ key, key ∉ listFields.map Key.text → Fields.get? others key = Fields.get? filters key)
    (htokens : ∀ name ∈ listFields, ∃ xs, (∀ s ∈ xs, Piece s) ∧
      Fields.get? others name = listValue xs) : Coerced others where
  nodup := hn
  others key hkey := by
    rw [List.map_append, List.mem_append, not_or] at hkey
    rw [hkept key hkey.1]
    exact h.others key (by rw [List.map_append, List.mem_append, not_or]; exact hkey)
  tokens := htokens
  query := by rw [hkept "q" (by decide)]; exact h.query
  price := by rw [hkept "price" (by decide)]; exact h.price
  inStock := by rw [hkept "in_stock" (by decide)]; exact h.inStock
  sort := by rw [hkept "sort" (by decide)]; exact h.sort
  page := by rw [hkept "page" (by decide)]; exact h.page
  limit := by rw [hkept "limit" (by decide)]; exact h.limit

end Filters

namespace Catalog

open Filters Journal Plan

variable {table : Table} {filters : Fields}

/-! ### identifiers -/

/-- Names stand for identifiers of the table. -/
theorem piece_of_mem_resolve (htable : ∀ row ∈ table, Piece row.2) {names : List Value} {id : String}
    (h : id ∈ table.resolve names) : Piece id := by
  rcases mem_firsts.mp h with h | h
  · cases h
  · obtain ⟨v, -, hv⟩ := List.mem_filterMap.mp h
    obtain ⟨name, -, hname⟩ := Option.bind_eq_some_iff.mp hv
    obtain ⟨found, hfound, hid⟩ := Option.bind_eq_some_iff.mp hname
    split at hid
    · cases hid
    · obtain rfl := Option.some.inj hid
      obtain ⟨before, after, he, -⟩ := List.lookup_eq_some_iff.mp hfound
      have hrow : (nameKey name, found) ∈ table := by
        rw [he]
        simp
      exact htable _ hrow

theorem joinIds_texts (ids resolved : List String) :
    joinIds (ids.map .str) resolved = (firsts ids resolved).map .str := by
  unfold joinIds firsts
  induction resolved generalizing ids with
  | nil => rfl
  | cons id rest ih =>
    rw [List.foldl_cons, List.foldl_cons, Value.isIn_texts, ← ih]
    by_cases hid : id ∈ ids <;> simp [hid]

/-! ### folding -/

/-- Given names are resolved, and what they stand for joins the identifiers. -/
theorem foldCategories_of_given {names given : List Value}
    (hnames : (Fields.value filters "include_categories").isGiven = true)
    (helements : (Fields.value filters "include_categories").demandElements = .ok names)
    (hgiven : (Fields.value filters "category_ids").demandOptionalElements = .ok given) :
    foldCategories table filters = match joinIds given (table.resolve names) with
      | [] => .ok (Fields.without filters "include_categories")
      | joined =>
        .ok (Fields.put (Fields.without filters "include_categories") "category_ids" (.list joined)) := by
  unfold foldCategories
  dsimp only
  rw [hnames, hgiven, helements]
  rfl

/-- The names are gone, and the identifiers that they stand for have joined the others. -/
theorem exists_foldCategories_fields (h : Coerced filters) {ids : List String}
    (hids : Fields.get? filters "category_ids" = listValue ids) :
    ∃ folded names, foldCategories table filters = .ok folded ∧ folded.keys.Nodup ∧
      ∀ key, Fields.get? folded key = if key = "include_categories" then none
        else if key = "category_ids" then listValue (firsts ids (table.resolve names))
        else Fields.get? filters key := by
  obtain ⟨names, -, hnames⟩ := h.tokens "include_categories" (by decide)
  have hgiven : (Fields.value filters "category_ids").demandOptionalElements = .ok (ids.map .str) := by
    unfold Fields.value
    rw [hids]
    cases ids <;> rfl
  cases names with
  | nil =>
    refine ⟨filters, [], ?_, h.nodup, fun key => ?_⟩
    · unfold foldCategories Fields.value
      rw [hnames]
      rfl
    · split
      · rename_i hkey
        exact hkey ▸ hnames
      · split
        · rename_i hkey
          exact hkey ▸ hids
        · rfl
  | cons name names =>
    have hvalue := Fields.value_of_get? hnames
    have helements : (Fields.value filters "include_categories").demandElements = .ok ((name :: names).map .str) := by
      rw [hvalue]
      rfl
    have hfold := @foldCategories_of_given table _ _ _ (by rw [hvalue]; rfl) helements hgiven
    rw [joinIds_texts] at hfold
    have hrest := Fields.nodup_without h.nodup "include_categories"
    have hother : Key.text "category_ids" ≠ .text "include_categories" := by decide
    cases hjoined : firsts ids (table.resolve ((name :: names).map .str)) with
    | nil =>
      -- there was no identifier before, either
      have hnone : ids = [] := by
        have hbegins := prefix_firsts ids (table.resolve ((name :: names).map .str))
        rw [hjoined] at hbegins
        exact List.prefix_nil.mp hbegins
      rw [hjoined] at hfold
      refine ⟨_, (name :: names).map .str, hfold, hrest, fun key => ?_⟩
      rw [Fields.get?_without, hjoined]
      split
      · rfl
      · split
        · rename_i hkey
          rw [hkey, hids, hnone]
        · rfl
    | cons id joined =>
      rw [hjoined] at hfold
      refine ⟨_, (name :: names).map .str, hfold, Fields.nodup_put hrest _ _, fun key => ?_⟩
      rw [Fields.get?_put, Fields.get?_without, hjoined]
      by_cases hkey : key = "category_ids"
      · rw [if_pos hkey, if_neg (hkey ▸ hother), if_pos hkey]
        rfl
      · rw [if_neg hkey, if_neg hkey]

/-- The filters without the names, and with the identifiers that the names stand for. -/
theorem exists_foldCategories (htable : ∀ row ∈ table, Piece row.2) (h : Coerced filters) :
    ∃ folded, foldCategories table filters = .ok folded ∧ Coerced folded ∧
      Fields.get? folded "include_categories" = none := by
  obtain ⟨ids, hpieces, hids⟩ := h.tokens "category_ids" (by decide)
  obtain ⟨folded, names, hfold, hn, hget⟩ := @exists_foldCategories_fields table filters h ids hids
  refine ⟨folded, hfold, h.relisted hn ?_ ?_, ?_⟩
  · intro key hkey
    rw [hget, if_neg, if_neg]
    · rintro rfl
      exact hkey (by decide)
    · rintro rfl
      exact hkey (by decide)
  · intro name hname
    rw [hget]
    split
    · exact ⟨[], fun _ hs => absurd hs List.not_mem_nil, rfl⟩
    · split
      · refine ⟨_, fun s hs => ?_, rfl⟩
        rcases mem_firsts.mp hs with hs | hs
        · exact hpieces s hs
        · exact piece_of_mem_resolve htable hs
      · exact h.tokens name hname
  · rw [hget, if_pos rfl]

/-! ### listing with entries -/

theorem steady_resolved (table : Table) (names : Value) : Traced.Steady (resolved table names) :=
  (Traced.steady_liftExcept _).bind fun _ => (Traced.steady_note _).bind fun _ => Traced.steady_pure _

/-- Only who debugs sees the entry about the names, so only then they have to be written. -/
theorem outcomeWhen_resolved (table : Table) {names : Value} {elements : List Value}
    (h : names.demandOptionalElements = .ok elements) {d : Bool}
    (helements : d = true → Value.areWritable elements = true) :
    (resolved table names).outcomeWhen d = .ok (table.resolve elements) := by
  have hnote : (Traced.note (resolvedEntry elements (table.resolve elements))).outcomeWhen d = .ok () := by
    cases d with
    | false =>
      have hkept : (resolvedEntry elements (table.resolve elements)).isKept false = false :=
        (Entry.isKept_info ..).trans (by decide +kernel)
      rw [Traced.outcomeWhen_note, hkept]
      rfl
    | true =>
      refine Traced.outcomeWhen_note_of_writable _ (Entry.isWritable_of_data ?_)
      rw [Value.haveWritable_iff]
      intro p hp
      simp only [resolvedEntry, Entry.info, List.mem_cons, List.not_mem_nil, or_false] at hp
      rcases hp with rfl | rfl
      · exact helements rfl
      · exact Value.isWritable_texts _
  unfold resolved
  rw [Traced.outcomeWhen_bind_of_ok (Traced.steady_liftExcept _)
    (fun _ => (Traced.steady_note _).bind fun _ => Traced.steady_pure _)
    ((Traced.outcomeWhen_liftExcept d _).trans h)]
  exact Traced.outcomeWhen_bind_of_ok (Traced.steady_note _) (fun _ => Traced.steady_pure _) hnote

/-- What is done in the stage that folds category names. -/
def folding (table : Table) (filters : Fields) : Traced Fields := do
  let result ← liftExcept (foldCategories table filters)
  if (Fields.value filters "include_categories").isGiven then
    let _ ← resolved table (Fields.value filters "include_categories")
  return result

theorem steady_noted (table : Table) (filters result : Fields) : Traced.Steady (do
    if (Fields.value filters "include_categories").isGiven then
      let _ ← resolved table (Fields.value filters "include_categories")
    return result) := by
  dsimp only
  split
  · exact (steady_resolved ..).bind fun _ => Traced.steady_pure _
  · exact Traced.steady_pure _

theorem steady_folding (table : Table) (filters : Fields) : Traced.Steady (folding table filters) :=
  (Traced.steady_liftExcept _).bind (steady_noted table filters)

theorem outcomeWhen_folding_of_elements {elements : List Value}
    (helements : (Fields.value filters "include_categories").demandOptionalElements = .ok elements) {d : Bool}
    (hwritable : d = true → Value.areWritable elements = true) {result : Fields}
    (hfold : foldCategories table filters = .ok result) : (folding table filters).outcomeWhen d = .ok result := by
  have hresolved := outcomeWhen_resolved table helements hwritable
  unfold folding
  rw [Traced.outcomeWhen_bind_of_ok (Traced.steady_liftExcept _) (steady_noted table filters)
    ((Traced.outcomeWhen_liftExcept d _).trans hfold)]
  split
  · exact Traced.outcomeWhen_bind_of_ok (steady_resolved ..) (fun _ => Traced.steady_pure _) hresolved
  · rfl

theorem outcomeWhen_folding (h : Coerced filters) {result : Fields}
    (hfold : foldCategories table filters = .ok result) (d : Bool) :
    (folding table filters).outcomeWhen d = .ok result := by
  obtain ⟨names, -, hnames⟩ := h.tokens "include_categories" (by decide)
  have helements : (Fields.value filters "include_categories").demandOptionalElements = .ok (names.map .str) := by
    unfold Fields.value
    rw [hnames]
    cases names <;> rfl
  exact outcomeWhen_folding_of_elements helements (fun _ => Value.isWritable_texts names) hfold

/-- The entry about a listing. -/
def listedEntry (plan : QueryPlan) : Entry :=
  latency "CATALOG" (.str "catalog_service.build_plan") 0 [("meta", .object [("stages", .int plan.stages.length)])]

/-- A plan has so few stages that their number can be written. -/
theorem isWritable_listedEntry (filters : Fields) (fields : Value) :
    (listedEntry (compile filters fields)).isWritable = true := by
  have hlength : (compile filters fields).stages.length ≤ 9 := by
    have hkinds := (sublist_kinds filters fields).length_le
    unfold QueryPlan.kinds at hkinds
    rwa [List.length_map] at hkinds
  have hwritable : (Value.int (compile filters fields).stages.length).isWritable = true :=
    isWritable_of_isDouble (Value.isDouble_of_lt (by omega))
  apply Entry.isWritable_of_data
  rw [Value.haveWritable_iff]
  intro p hp
  simp only [listedEntry, latency, Entry.info, List.mem_cons, List.not_mem_nil, or_false] at hp
  rcases hp with rfl | rfl | rfl
  · rfl
  · decide +kernel
  · refine (Value.haveWritable_iff _).mpr fun p hp => ?_
    rw [List.mem_singleton.mp hp]
    exact hwritable

/-- What is done with the filters of a listing. -/
def planned (filters : Fields) (fields : Value) : Traced (Fields × QueryPlan) := do
  let plan ← Traced.inStage "COMPILE" "compile_query" (compiled (.object filters) fields)
  Traced.note (listedEntry plan)
  return (filters, plan)

theorem listed_object (table : Table) (params fields : Value) : listed table params fields = (do
    let coerced ← Traced.inStage "CATALOG" "coerce_filters" (liftExcept (coerceValue params))
    let filters ← Traced.inStage "CATALOG" "resolve_categories" (folding table coerced)
    planned filters fields) :=
  rfl

theorem steady_told (filters : Fields) (plan : QueryPlan) :
    Traced.Steady (do Traced.note (listedEntry plan); return (filters, plan)) :=
  (Traced.steady_note _).bind fun _ => Traced.steady_pure _

theorem steady_planned (filters : Fields) (fields : Value) : Traced.Steady (planned filters fields) :=
  ((steady_compiled ..).inStage ..).bind (steady_told filters)

theorem outcomeWhen_planned_of_writable {filters : Fields} {fields : Value}
    (hfilters : Value.haveWritable filters = true) (hfields : fields.isWritable = true) (d : Bool) :
    (planned filters fields).outcomeWhen d = .ok (filters, compile filters fields) := by
  have hcompiled : (Traced.inStage "COMPILE" "compile_query" (compiled (.object filters) fields)).outcomeWhen d =
      .ok (compile filters fields) := by
    have hwritable : (Value.object filters).isWritable = true := hfilters
    rw [Traced.outcomeWhen_inStage (steady_compiled ..)]
    exact outcomeWhen_compiled hwritable hfields d
  unfold planned
  rw [Traced.outcomeWhen_bind_of_ok ((steady_compiled ..).inStage ..) (steady_told filters) hcompiled]
  exact Traced.outcomeWhen_bind_of_ok (Traced.steady_note _) (fun _ => Traced.steady_pure _)
    (Traced.outcomeWhen_note_of_writable d (isWritable_listedEntry filters fields))

theorem outcomeWhen_planned {filters : Fields} {fields : Value} (hfilters : Coerced filters)
    (hfields : fields.isWritable = true) (d : Bool) :
    (planned filters fields).outcomeWhen d = .ok (filters, compile filters fields) :=
  outcomeWhen_planned_of_writable hfilters.haveWritable hfields d

theorem steady_listed (table : Table) (params fields : Value) : Traced.Steady (listed table params fields) := by
  rw [listed_object]
  exact ((Traced.steady_liftExcept _).inStage ..).bind fun _ =>
    ((steady_folding ..).inStage ..).bind fun _ => steady_planned ..

/-- **The plan for the parameters of a listing asks for exactly what the filters say that are told beside it.**
No category name is left in them. -/
theorem listed_asksFor (htable : ∀ row ∈ table, Piece row.2) (params : Fields)
    (hparams : Value.haveWritable params = true) (fields : Value) (hfields : fields.isWritable = true)
    (c : Context) :
    ∃ filters plan, ((listed table (.object params) fields).runFrom c).1 = .ok (filters, plan) ∧
      Fields.get? filters "include_categories" = none ∧ plan.AsksFor filters := by
  have hcoerced := coerced_coerce params
  obtain ⟨filters, hfold, hfilters, hnames⟩ := exists_foldCategories htable hcoerced
  refine ⟨filters, compile filters fields, ?_, hnames, asksFor_compile hfilters fields⟩
  have hgiven := (Traced.outcomeWhen_liftExcept c.debugging _).trans (coerceValue_eq hparams)
  have hfolding := outcomeWhen_folding hcoerced hfold c.debugging
  rw [(steady_listed table (.object params) fields).outcome c, listed_object,
    Traced.outcomeWhen_bind_of_ok ((Traced.steady_liftExcept _).inStage ..)
      (fun _ => ((steady_folding ..).inStage ..).bind fun _ => steady_planned ..)
      ((Traced.outcomeWhen_inStage (Traced.steady_liftExcept _) ..).trans hgiven),
    Traced.outcomeWhen_bind_of_ok ((steady_folding ..).inStage ..) (fun _ => steady_planned ..)
      ((Traced.outcomeWhen_inStage (steady_folding ..) ..).trans hfolding)]
  exact outcomeWhen_planned hfilters hfields c.debugging

/-- Parameters of mixed shapes with the built-in categories, and price bounds the wrong way round. -/
theorem listed_asksFor_of_mixed :
    ∃ filters plan, ((listed (Table.ofCategories Category.defaults)
        (.object [("include_categories", .str "Dresses, tops"), ("category_id", .str "64B000000000000000000009"),
          ("occasion", .list [.str "Black-Tie , party", .null]), ("colors", .str "Pastels"), ("q", .str "  silk "),
          ("price_min", .str "80.5"), ("price_max", .int 20), ("in_stock", .str "yes"), ("page", .str "2.7")])
        .null).runFrom (.initial true)).1 = .ok (filters, plan) ∧
      Fields.get? filters "include_categories" = none ∧ plan.AsksFor filters := by
  have hids : ∀ row ∈ Table.ofCategories Category.defaults,
      row.2 ≠ "" ∧ ',' ∉ row.2.toList ∧ Text.trim row.2.toList = row.2.toList := by decide +kernel
  refine listed_asksFor (fun row hrow => ?_) _ (by decide +kernel) _ rfl _
  obtain ⟨hne, hcomma, htrim⟩ := hids row hrow
  exact ⟨plain_of_trim hcomma htrim, hne⟩

end Catalog

end Outfitter
