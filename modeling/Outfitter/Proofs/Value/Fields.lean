import Outfitter.Filters.Canonical
import Outfitter.Proofs.Keyed

/-!
What is found in fields after they have been put, pruned and updated.

Where no key stands twice, a field is found after pruning exactly if its value does not become vacuous.
-/

namespace Outfitter

namespace Fields

theorem get?_cons (k key : Key) (v : Value) (rest : Fields) :
    get? ((k, v) :: rest) key = if key = k then some v else get? rest key :=
  Keyed.lookup_cons k key v rest

theorem get?_put (fields : Fields) (k key : Key) (v : Value) :
    get? (fields.put k v) key = if key = k then some v else get? fields key := by
  unfold get? put
  split
  · rename_i h
    subst h
    exact Keyed.lookup_put_self fields key v
  · rename_i h
    exact Keyed.lookup_put_of_ne fields v h

theorem get?_append (fields others : Fields) (key : Key) :
    get? (fields ++ others) key = (get? fields key).or (get? others key) := by
  induction fields with
  | nil => rfl
  | cons p rest ih =>
    obtain ⟨k, v⟩ := p
    rw [List.cons_append, get?_cons, get?_cons, ih]
    split <;> rfl

theorem mem_keys_iff (fields : Fields) (key : Key) : key ∈ fields.keys ↔ get? fields key ≠ none :=
  Keyed.mem_keys_iff fields key

theorem value_of_get? {fields : Fields} {key : Key} {v : Value} (h : get? fields key = some v) :
    value fields key = v := by
  unfold value
  rw [h]
  rfl

theorem mem_of_get? {fields : Fields} {key : Key} {v : Value} (h : get? fields key = some v) :
    (key, v) ∈ fields :=
  Keyed.mem_of_lookup h

theorem get?_of_mem {fields : Fields} (hn : fields.keys.Nodup) {key : Key} {v : Value}
    (h : (key, v) ∈ fields) : get? fields key = some v :=
  Keyed.lookup_of_mem hn h

theorem nodup_put {fields : Fields} (h : fields.keys.Nodup) (k : Key) (v : Value) :
    (fields.put k v).keys.Nodup :=
  Keyed.nodup_put h k v

/-- Pairs of which no two have one key are fields as they are. -/
theorem ofPairs_eq_self {pairs : List (Key × Value)} (h : (pairs.map (·.1)).Nodup) : ofPairs pairs = pairs := by
  have hfold : ∀ before : Fields, ((before ++ pairs).map (·.1)).Nodup →
      pairs.foldl (fun fields p => fields.put p.1 p.2) before = before ++ pairs := by
    clear h
    induction pairs with
    | nil => exact fun before _ => (List.append_nil before).symm
    | cons p pairs ih =>
      intro before hn
      have hnew : List.lookup p.1 before = none := by
        apply Classical.byContradiction
        intro hmem
        rw [List.map_append] at hn
        exact (List.nodup_append.mp hn).2.2 p.1 ((Keyed.mem_keys_iff before p.1).mpr hmem) p.1
          (List.mem_cons_self ..) rfl
      have hput : before.put p.1 p.2 = before ++ [p] := Keyed.put_of_lookup_none hnew p.2
      rw [List.foldl_cons, hput, ih, List.append_assoc, List.singleton_append]
      rwa [List.append_assoc, List.singleton_append]
  exact hfold [] h

theorem get?_without (fields : Fields) (k key : Key) :
    get? (fields.without k) key = if key = k then none else get? fields key := by
  by_cases h : key = k
  · rw [if_pos h, h]
    exact Keyed.lookup_without_self fields k
  · rw [if_neg h]
    exact Keyed.lookup_without_of_ne fields h

theorem value_without (fields : Fields) (k key : Key) :
    value (fields.without k) key = if key = k then .null else value fields key := by
  unfold value
  rw [get?_without]
  split <;> rfl

theorem nodup_without {fields : Fields} (h : fields.keys.Nodup) (k : Key) : (fields.without k).keys.Nodup := by
  unfold keys without
  rw [Keyed.keys_without]
  exact h.filter _

/-- Fields whose keys come in the order of a list are what is found under the keys of the list. -/
theorem eq_flatMap_of_sublist {keys : List Key} {fields : Fields} (hn : keys.Nodup)
    (h : fields.keys.Sublist keys) : fields = keys.flatMap fun key => ofOption key (get? fields key) := by
  induction keys generalizing fields with
  | nil => exact List.map_eq_nil_iff.mp (List.eq_nil_of_sublist_nil h)
  | cons k rest ih =>
    obtain ⟨hk, hrest⟩ := List.nodup_cons.mp hn
    rw [List.flatMap_cons]
    rcases List.sublist_cons_iff.mp h with h | ⟨tail, he, h⟩
    · have hnone : get? fields k = none :=
        Classical.byContradiction fun hne => hk (h.subset ((mem_keys_iff fields k).mpr hne))
      rw [hnone]
      exact ih hrest h
    · obtain ⟨⟨j, v⟩, tail, rfl, rfl, rfl⟩ := List.map_eq_cons_iff.mp he
      have htail : ∀ key ∈ rest, get? tail key = get? ((j, v) :: tail) key := by
        intro key hkey
        have hne : key ≠ j := fun he => hk (show j ∈ rest from he ▸ hkey)
        rw [get?_cons, if_neg hne]
      rw [get?_cons, if_pos rfl]
      refine congrArg ((j, v) :: ·) ((ih hrest h).trans (congrArg List.flatten ?_))
      exact List.map_congr_left fun key hkey => congrArg (ofOption key) (htail key hkey)

/-- Fields whose keys come in one order are the same if the same is found in both. -/
theorem eq_of_sublist {keys : List Key} {fields others : Fields} (hn : keys.Nodup)
    (hfields : fields.keys.Sublist keys) (hothers : others.keys.Sublist keys)
    (hget : ∀ key, get? fields key = get? others key) : fields = others := by
  have hsame : get? fields = get? others := funext hget
  rw [eq_flatMap_of_sublist hn hfields, eq_flatMap_of_sublist hn hothers, hsame]

/-! ### tables -/

/-- The fields of a table in which there is a value. -/
def ofTable (table : List (String × Option Value)) : Fields :=
  table.flatMap fun (name, v) => ofOption name v

theorem mem_keys_ofTable {table : List (String × Option Value)} {key : Key} (h : key ∈ (ofTable table).keys) :
    ∃ name ∈ table.map (·.1), Key.text name = key := by
  obtain ⟨⟨k, v⟩, hp, rfl⟩ := List.mem_map.mp h
  obtain ⟨⟨name, w⟩, htable, hmem⟩ := List.mem_flatMap.mp hp
  refine ⟨name, List.mem_map_of_mem htable, ?_⟩
  cases w with
  | none => cases hmem
  | some w => exact (congrArg Prod.fst (List.mem_singleton.mp hmem)).symm

theorem nodup_ofTable {table : List (String × Option Value)} (h : (table.map (·.1)).Nodup) :
    (ofTable table).keys.Nodup := by
  induction table with
  | nil => exact List.nodup_nil
  | cons p rest ih =>
    obtain ⟨name, v⟩ := p
    obtain ⟨hname, hrest⟩ := List.nodup_cons.mp h
    cases v with
    | none => exact ih hrest
    | some v =>
      refine List.nodup_cons.mpr ⟨fun hmem => ?_, ih hrest⟩
      obtain ⟨other, hother, he⟩ := mem_keys_ofTable hmem
      exact hname (Key.text.inj he ▸ hother)

theorem get?_ofTable {table : List (String × Option Value)} (h : (table.map (·.1)).Nodup) (name : String) :
    get? (ofTable table) name = (table.lookup name).join := by
  induction table with
  | nil => rfl
  | cons p rest ih =>
    obtain ⟨other, v⟩ := p
    obtain ⟨hother, hrest⟩ := List.nodup_cons.mp h
    have happend : ofTable ((other, v) :: rest) = ofOption other v ++ ofTable rest := rfl
    rw [happend, get?_append, Keyed.lookup_cons, ih hrest]
    by_cases he : name = other
    · subst he
      have hnone : rest.lookup name = none :=
        Classical.byContradiction fun hne => hother ((Keyed.mem_keys_iff rest name).mpr hne)
      rw [if_pos rfl, hnone]
      cases v with
      | none => rfl
      | some v => exact congrArg (Option.or · _) ((get?_cons ..).trans (if_pos rfl))
    · have hkey : Key.text name ≠ .text other := fun h => he (Key.text.inj h)
      rw [if_neg he]
      cases v with
      | none => rfl
      | some v => exact congrArg (Option.or · _) ((get?_cons ..).trans (if_neg hkey))

end Fields

/-! ### pruning -/

namespace Value

/-- The value without anything vacuous inside, unless it is vacuous then. -/
def pruned? (v : Value) : Option Value :=
  if (prune v).isVacuous then none else some (prune v)

/-- Pruning leaves the keys that it keeps in their order. -/
theorem sublist_keys_pruneFields (fields : Fields) : (Fields.keys (pruneFields fields)).Sublist fields.keys := by
  induction fields with
  | nil => exact .slnil
  | cons p rest ih =>
    obtain ⟨k, v⟩ := p
    unfold pruneFields
    split
    · exact ih.cons k
    · exact ih.cons_cons k

theorem mem_keys_pruneFields {fields : Fields} {k : Key} (h : k ∈ Fields.keys (pruneFields fields)) :
    k ∈ fields.keys :=
  (sublist_keys_pruneFields fields).subset h

theorem nodup_pruneFields {fields : Fields} (h : fields.keys.Nodup) :
    (Fields.keys (pruneFields fields)).Nodup :=
  h.sublist (sublist_keys_pruneFields fields)

theorem get?_pruneFields {fields : Fields} (h : fields.keys.Nodup) (key : Key) :
    Fields.get? (pruneFields fields) key = (Fields.get? fields key).bind pruned? := by
  induction fields with
  | nil => rfl
  | cons p rest ih =>
    obtain ⟨k, v⟩ := p
    obtain ⟨hk, hrest⟩ := List.nodup_cons.mp h
    have ih := ih hrest
    unfold pruneFields
    rw [Fields.get?_cons]
    by_cases hkey : key = k
    · subst hkey
      rw [if_pos rfl]
      show _ = pruned? v
      unfold pruned?
      split
      · -- the field is left out, and there is no other one of this key
        have hnone : Fields.get? rest key = none :=
          Classical.byContradiction fun hne => hk ((Fields.mem_keys_iff rest key).mpr hne)
        rw [ih, hnone]
        rfl
      · rw [Fields.get?_cons, if_pos rfl]
    · rw [if_neg hkey]
      split
      · exact ih
      · rw [Fields.get?_cons, if_neg hkey]
        exact ih

theorem pruneItems_texts (xs : List String) :
    pruneItems (xs.map .str) = (xs.filter (!·.isEmpty)).map .str := by
  induction xs with
  | nil => rfl
  | cons x xs ih =>
    rw [List.map_cons, pruneItems, ih]
    cases hx : x.isEmpty <;> simp [prune, isVacuous, hx]

end Value

/-! ### updates -/

namespace Filters

/-- The value with a function applied, if it says something. -/
def updated (f : Value → Value) (v : Value) : Value :=
  if v.isGiven then f v else v

theorem get?_updateGiven (filters : Fields) (k : String) (f : Value → Value) (key : Key) :
    Fields.get? (updateGiven filters k f) key =
      if key = .text k then (Fields.get? filters key).map (updated f) else Fields.get? filters key := by
  have hvalue : Fields.value filters k = (Fields.get? filters k).getD .null := rfl
  unfold updateGiven
  by_cases hkey : key = .text k
  · subst hkey
    rw [if_pos rfl, hvalue]
    cases hv : Fields.get? filters k with
    | none => exact hv
    | some v =>
      show Fields.get? (if v.isGiven then filters.put k (f v) else filters) k = some (updated f v)
      unfold updated
      split
      · rw [Fields.get?_put, if_pos rfl]
      · exact hv
  · rw [if_neg hkey]
    show Fields.get? (if (Fields.value filters k).isGiven then filters.put k (f (Fields.value filters k))
      else filters) key = _
    split
    · rw [Fields.get?_put, if_neg hkey]
    · rfl

/-- An update that leaves the value as it is leaves the fields as they are. -/
theorem updateGiven_eq_self {filters : Fields} {k : String} {f : Value → Value}
    (h : ∀ v, Fields.get? filters k = some v → updated f v = v) : updateGiven filters k f = filters := by
  have hvalue : Fields.value filters k = (Fields.get? filters k).getD .null := rfl
  unfold updateGiven
  rw [hvalue]
  cases hv : Fields.get? filters k with
  | none => rfl
  | some v =>
    show (if v.isGiven then filters.put k (f v) else filters) = filters
    have hself := h v hv
    unfold updated at hself
    split
    · rename_i hgiven
      rw [if_pos hgiven] at hself
      rw [hself]
      exact Keyed.put_self hv
    · rfl

theorem keys_updateGiven (filters : Fields) (k : String) (f : Value → Value) :
    Fields.keys (updateGiven filters k f) = filters.keys := by
  unfold updateGiven
  show Fields.keys (if (Fields.value filters k).isGiven then filters.put k (f (Fields.value filters k))
    else filters) = _
  split
  · rename_i hgiven
    have hmem : Key.text k ∈ filters.keys := by
      rw [Fields.mem_keys_iff]
      intro hnone
      unfold Fields.value at hgiven
      rw [hnone] at hgiven
      cases hgiven
    exact (Keyed.keys_put filters (.text k) _).trans (if_pos hmem)
  · rfl

end Filters

end Outfitter
