import Outfitter.Api.Target
import Outfitter.Proofs.Text.Decoded
import Outfitter.Proofs.Text.Split
import Outfitter.Proofs.Value.Fields

/-!
What the parameters of a query are, and parameters that are written together.

A parameter is all that the query gives under its name (`get?_params`). The values that stand under one name can
also be written in one place, with commas between them (`Joins`). Every query can be written that way
(`joins_joinedQuery`): a comma stands for itself wherever it stands in a query, so the values may be joined as they are
written.
-/

namespace Outfitter.Api.Target

open Text

/-! ### parameters by name -/

/-- The values that some pairs give under a name. -/
def values (name : String) (pairs : List (String × String)) : List String :=
  (pairs.filter (·.1 == name)).map (·.2)

/-- A parameter that was given with these values. -/
def given? : List String → Option Value
  | [] => none
  | [value] => some (.str value)
  | values => some (.ofStrings values)

variable {name : String} {params : Fields}

theorem values_cons (name : String) (p : String × String) (pairs : List (String × String)) :
    values name (p :: pairs) = if p.1 = name then p.2 :: values name pairs else values name pairs := by
  unfold values
  rw [List.filter_cons]
  by_cases hp : p.1 = name
  · rw [if_pos (beq_iff_eq.mpr hp), if_pos hp, List.map_cons]
  · rw [if_neg fun he => hp (beq_iff_eq.mp he), if_neg hp]

theorem get?_addParameter {before : List String} (h : Fields.get? params name = given? before) (value : String) :
    Fields.get? (addParameter params name value) name = given? (before ++ [value]) := by
  unfold addParameter
  rw [Fields.get?_put, if_pos rfl, h]
  cases before with
  | nil => rfl
  | cons first rest =>
    cases rest with
    | nil => rfl
    | cons second rest =>
      show some (Value.list (((first :: second :: rest).map Value.str) ++ [.str value])) =
        some (.list ((first :: second :: (rest ++ [value])).map Value.str))
      simp

theorem get?_addParameter_of_ne {other : String} (h : other ≠ name) (value : String) :
    Fields.get? (addParameter params name value) other = Fields.get? params other := by
  unfold addParameter
  rw [Fields.get?_put, if_neg fun he => h (Key.text.inj he)]

/-- A parameter is all that the query gives under its name. -/
theorem get?_params (t : Target) (name : String) : Fields.get? t.params name = given? (values name t.pairs) := by
  have hfold : ∀ (pairs : List (String × String)) (before : List String) (params : Fields),
      Fields.get? params name = given? before →
        Fields.get? (pairs.foldl (fun params p => addParameter params p.1 p.2) params) name =
          given? (before ++ values name pairs) := by
    intro pairs
    induction pairs with
    | nil =>
      intro before params h
      rw [show values name [] = [] from rfl, List.append_nil]
      exact h
    | cons p pairs ih =>
      intro before params h
      rw [List.foldl_cons, values_cons]
      split
      · rename_i hp
        subst hp
        rw [List.append_cons]
        exact ih _ _ (get?_addParameter h p.2)
      · rename_i hp
        exact ih _ _ ((get?_addParameter_of_ne (Ne.symm hp) p.2).trans h)
  exact hfold t.pairs [] [] rfl

/-! ### values in one place -/

/-- The values under a name stand in one place, joined by commas; all others stand where they stood. -/
structure Joins (name : String) (pairs joined : List (String × String)) : Prop where
  once : values name joined = [",".intercalate (values name pairs)]
  others : joined.filter (·.1 != name) = pairs.filter (·.1 != name)

/-- What is given under other names stays. -/
theorem Joins.values {pairs joined : List (String × String)} (h : Joins name pairs joined) {other : String}
    (hne : other ≠ name) : Target.values other joined = Target.values other pairs := by
  have hkept : ∀ pairs : List (String × String),
      pairs.filter (·.1 == other) = (pairs.filter (·.1 != name)).filter (·.1 == other) := by
    intro pairs
    rw [List.filter_filter]
    refine List.filter_congr fun p _ => ?_
    by_cases hp : p.1 = other
    · simp [hp, hne]
    · simp [hp]
  unfold Target.values
  rw [hkept joined, hkept pairs, h.others]

/-! ### queries as they are written -/

theorem cut_append {separator : Char} {text : List Char} (h : separator ∉ text) (rest : List Char) :
    cut separator (text ++ separator :: rest) = (text, rest) := by
  have hbefore : ∀ c ∈ text, (c != separator) = true := fun c hc =>
    bne_iff_ne.mpr fun he => h (he ▸ hc)
  unfold cut
  rw [List.takeWhile_append_of_pos hbefore, List.dropWhile_append_of_pos hbefore]
  simp

theorem not_mem_cut (separator : Char) (text : List Char) : separator ∉ (cut separator text).1 := by
  intro h
  have hbefore : (text.takeWhile (· != separator)).all (· != separator) = true := List.all_takeWhile
  exact bne_iff_ne.mp (List.all_eq_true.mp hbefore separator h) rfl

theorem mem_of_mem_cut {separator c : Char} {text : List Char}
    (h : c ∈ (cut separator text).1 ∨ c ∈ (cut separator text).2) : c ∈ text := by
  rcases h with h | h
  · exact (List.takeWhile_sublist _).subset h
  · exact (List.dropWhile_sublist _).subset (List.mem_of_mem_drop h)

/-- A comma stands for itself in a query. -/
theorem queryPart_append_comma (text rest : List Char) :
    queryPart (text ++ ',' :: rest) = queryPart text ++ "," ++ queryPart rest := by
  have hcomma : (if ',' = '+' then ' ' else ',') = ',' := if_neg (by decide)
  unfold queryPart
  rw [List.map_append, List.map_cons, hcomma, percentDecoded_append_cons standsAlone_comma, String.ofList_append,
    ← List.singleton_append, String.ofList_append, String.append_assoc]

theorem queryPart_intercalate (texts : List (List Char)) :
    queryPart ([','].intercalate texts) = ",".intercalate (texts.map queryPart) := by
  induction texts with
  | nil => rfl
  | cons text texts ih =>
    cases texts with
    | nil => rw [List.intercalate_singleton, List.map_singleton, String.intercalate_singleton]
    | cons other texts =>
      rw [List.intercalate_cons_cons, List.append_assoc, List.singleton_append, queryPart_append_comma, ih]
      exact String.intercalate_cons_cons.symm

/-- The parts of a query that give something. -/
def parts (query : List Char) : List (List Char) :=
  (splitAt '&' query).filter (!·.isEmpty)

/-- The name and the value that a part of a query gives. -/
def pairOf (part : List Char) : String × String :=
  (queryPart (cut '=' part).1, queryPart (cut '=' part).2)

theorem pairs_eq (t : Target) : t.pairs = (parts t.query).map pairOf :=
  rfl

/-- Parts that can be joined are the parts of the query. -/
theorem parts_intercalate {texts : List (List Char)} (h : texts ≠ [])
    (htexts : ∀ text ∈ texts, '&' ∉ text ∧ text ≠ []) : parts (['&'].intercalate texts) = texts := by
  unfold parts
  rw [splitAt_intercalate_of_not_mem h fun text htext => (htexts text htext).1]
  refine List.filter_eq_self.mpr fun text htext => ?_
  rw [Bool.not_eq_true', Bool.eq_false_iff]
  exact fun he => (htexts text htext).2 (List.isEmpty_iff.mp he)

theorem parts_plain {query part : List Char} (h : part ∈ parts query) : '&' ∉ part ∧ part ≠ [] := by
  obtain ⟨hsplit, hne⟩ := List.mem_filter.mp h
  refine ⟨mem_splitAt hsplit, ?_⟩
  rintro rfl
  cases hne

/-- Parts of one name as one part, with a comma between their values. -/
def joinedPart (mine : List (List Char)) : List Char :=
  (cut '=' (mine.headD [])).1 ++ '=' :: [','].intercalate (mine.map fun part => (cut '=' part).2)

/-- The query with the values under a name in one place, at its front. -/
def joinedQuery (name : String) (query : List Char) : List Char :=
  let mine := (parts query).filter fun part => (pairOf part).1 == name
  ['&'].intercalate (joinedPart mine :: (parts query).filter fun part => (pairOf part).1 != name)

theorem pairOf_joinedPart {mine : List (List Char)} (hne : mine ≠ [])
    (hname : ∀ part ∈ mine, (pairOf part).1 = name) :
    pairOf (joinedPart mine) = (name, ",".intercalate (mine.map fun part => (pairOf part).2)) := by
  obtain ⟨first, rest, rfl⟩ := List.exists_cons_of_ne_nil hne
  have hcut := cut_append (not_mem_cut '=' first)
    ([','].intercalate ((first :: rest).map fun part => (cut '=' part).2))
  unfold pairOf joinedPart
  rw [List.headD_cons, hcut, queryPart_intercalate, List.map_map]
  exact Prod.ext (hname first (List.mem_cons_self ..)) rfl

theorem joinedPart_plain {mine : List (List Char)} (h : ∀ part ∈ mine, '&' ∉ part) :
    '&' ∉ joinedPart mine ∧ joinedPart mine ≠ [] := by
  constructor
  · unfold joinedPart
    rw [List.mem_append, List.mem_cons, not_or, not_or]
    refine ⟨fun hmem => ?_, by decide, fun hmem => ?_⟩
    · cases mine with
      | nil => cases hmem
      | cons first rest => exact h first (List.mem_cons_self ..) (mem_of_mem_cut (.inl hmem))
    · rcases mem_intercalate hmem with he | ⟨text, htext, hmem⟩
      · exact absurd he (by decide)
      · obtain ⟨part, hpart, rfl⟩ := List.mem_map.mp htext
        exact h part hpart (mem_of_mem_cut (.inr hmem))
  · unfold joinedPart
    exact fun he => List.cons_ne_nil _ _ (List.append_eq_nil_iff.mp he).2

theorem parts_joinedQuery (name : String) (query : List Char) : parts (joinedQuery name query) =
    joinedPart ((parts query).filter fun part => (pairOf part).1 == name) ::
      (parts query).filter fun part => (pairOf part).1 != name := by
  refine parts_intercalate (List.cons_ne_nil _ _) (List.forall_mem_cons.mpr ⟨?_, fun part hpart => ?_⟩)
  · exact joinedPart_plain fun part hpart => (parts_plain (List.mem_filter.mp hpart).1).1
  · exact parts_plain (List.mem_filter.mp hpart).1

/-- **The values under a name can be written in one place**, whichever query they stand in. -/
theorem joins_joinedQuery (t : Target) (hgiven : values name t.pairs ≠ []) :
    Joins name t.pairs (Target.pairs ⟨t.path, joinedQuery name t.query⟩) := by
  have hvalues : values name t.pairs =
      ((parts t.query).filter fun part => (pairOf part).1 == name).map fun part => (pairOf part).2 := by
    unfold values
    rw [pairs_eq, List.filter_map, List.map_map]
    rfl
  have hpairs : Target.pairs ⟨t.path, joinedQuery name t.query⟩ =
      (name, ",".intercalate (values name t.pairs)) :: t.pairs.filter (·.1 != name) := by
    have hne : ((parts t.query).filter fun part => (pairOf part).1 == name) ≠ [] := by
      intro he
      rw [he] at hvalues
      exact hgiven hvalues
    have hname : ∀ part ∈ (parts t.query).filter fun part => (pairOf part).1 == name, (pairOf part).1 = name :=
      fun part hpart => beq_iff_eq.mp (List.mem_filter.mp hpart).2
    rw [pairs_eq, parts_joinedQuery, List.map_cons, pairOf_joinedPart hne hname, ← hvalues, pairs_eq,
      List.filter_map]
    rfl
  constructor
  case once =>
    have hothers : values name (t.pairs.filter (·.1 != name)) = [] := by
      refine List.map_eq_nil_iff.mpr (List.filter_eq_nil_iff.mpr fun p hp he => ?_)
      exact bne_iff_ne.mp (List.mem_filter.mp hp).2 (beq_iff_eq.mp he)
    rw [hpairs, values_cons, if_pos rfl, hothers]
  case others =>
    rw [hpairs, List.filter_cons_of_neg (by simp), List.filter_eq_self.mpr fun p hp => (List.mem_filter.mp hp).2]

end Outfitter.Api.Target
