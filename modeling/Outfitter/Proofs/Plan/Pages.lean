import Mathlib.Algebra.Group.Nat.Defs
import Mathlib.Logic.ExistsUnique
import Outfitter.Proofs.Number.Decimal
import Outfitter.Proofs.Plan.AsksFor

/-!
The pages of a result list.

The window of a page begins where the window of the page before it ends, so the pages tile the results
(`Tiles.existsUnique`). A page is read as it is written, as a number or as digits, up to `2 ^ 53`, beyond which not
every number is a double (`page_of_written`); and the stages that skip and limit are made of the same numbers that
the plan names. So each result is on one page exactly, whatever limit is asked for (`paged_of_compiled`).
-/

namespace Outfitter

/-! ### windows in a row -/

/-- The windows of the pages from 1 to `last`: there is something in each of them, the first begins with the first
result, and each of the others where the one before it ends. -/
structure Tiles (window : Nat → Nat × Nat) (last : Nat) : Prop where
  first : (window 1).1 = 0
  next : ∀ p, 1 ≤ p → p < last → (window (p + 1)).1 = (window p).2
  lt : ∀ p, 1 ≤ p → p ≤ last → (window p).1 < (window p).2

namespace Tiles

variable {window : Nat → Nat × Nat} {last n : Nat} {p q : Nat}

/-- A window ends before those behind it begin. -/
theorem le (h : Tiles window last) (hp : 1 ≤ p) (hpq : p < q) (hq : q ≤ last) : (window p).2 ≤ (window q).1 := by
  induction q with
  | zero => omega
  | succ q ih =>
    have hnext := h.next q (by omega) hq
    by_cases he : p = q
    · exact Nat.le_of_eq (he ▸ hnext.symm)
    · have hbefore := ih (by omega) (by omega)
      have hlt := h.lt q (by omega) (by omega)
      omega

/-- **No two windows overlap.** -/
theorem eq_of_mem (h : Tiles window last) (hp : 1 ≤ p ∧ p ≤ last) (hq : 1 ≤ q ∧ q ≤ last)
    (hnp : (window p).1 ≤ n ∧ n < (window p).2) (hnq : (window q).1 ≤ n ∧ n < (window q).2) : p = q := by
  rcases Nat.lt_trichotomy p q with hlt | he | hlt
  · have := h.le hp.1 hlt hq.2
    omega
  · exact he
  · have := h.le hq.1 hlt hp.2
    omega

/-- **Nothing is left out** up to the end of a window. -/
theorem exists_page (h : Tiles window last) (hp : 1 ≤ p) (hlast : p ≤ last) (hn : n < (window p).2) :
    ∃ q, 1 ≤ q ∧ q ≤ p ∧ (window q).1 ≤ n ∧ n < (window q).2 := by
  induction p with
  | zero => omega
  | succ p ih =>
    by_cases hbegun : (window (p + 1)).1 ≤ n
    · exact ⟨p + 1, hp, Nat.le_refl _, hbegun, hn⟩
    · have hone : p ≠ 0 := by
        rintro rfl
        rw [h.first] at hbegun
        omega
      rw [h.next p (by omega) hlast] at hbegun
      obtain ⟨q, hq, hle, hmem⟩ := ih (by omega) (by omega) (by omega)
      exact ⟨q, hq, by omega, hmem⟩

theorem existsUnique (h : Tiles window last) (hlast : 1 ≤ last) (hn : n < (window last).2) :
    ∃! p, (1 ≤ p ∧ p ≤ last) ∧ (window p).1 ≤ n ∧ n < (window p).2 := by
  obtain ⟨p, hp, hle, hmem⟩ := h.exists_page hlast (Nat.le_refl _) hn
  exact ⟨p, ⟨⟨hp, hle⟩, hmem⟩, fun q hq => h.eq_of_mem hq.1 ⟨hp, hle⟩ hq.2 hmem⟩

end Tiles

/-- The results on a page, if there are so many on each. -/
def pageWindow (size p : Nat) : Nat × Nat :=
  ((p - 1) * size, p * size)

theorem tiles_pageWindow {size : Nat} (h : 1 ≤ size) (last : Nat) : Tiles (pageWindow size) last where
  first := Nat.zero_mul size
  next _ _ _ := rfl
  lt _ hp _ := Nat.mul_lt_mul_of_pos_right (Nat.sub_lt hp Nat.one_pos) h

namespace QueryPlan

/-- The results that the plan lets through, by the stages that skip and limit. -/
def window? (plan : QueryPlan) : Option (Nat × Nat) :=
  match plan.stage? "skip", plan.stage? "limit" with
  | some (.skip count), some (.limit size) => some (count, count + size)
  | _, _ => none

/-- The plan lets the result with this index through. -/
def Shows (plan : QueryPlan) (n : Nat) : Prop :=
  ∃ window ∈ plan.window?, window.1 ≤ n ∧ n < window.2

theorem shows_iff {plan : QueryPlan} {window : Nat × Nat} (h : plan.window? = some window) (n : Nat) :
    plan.Shows n ↔ window.1 ≤ n ∧ n < window.2 := by
  unfold Shows
  rw [h]
  constructor
  · rintro ⟨_, ⟨⟩, hn⟩
    exact hn
  · exact fun hn => ⟨window, rfl, hn⟩

end QueryPlan

namespace Plan

open Filters Journal

variable {filters : Fields} {fields v : Value} {n p : Nat}

/-! ### pages that are written -/

/-- Every whole number up to here is a double. -/
def lastPage : Nat :=
  2 ^ 53

/-- A number that is the number of a page. -/
def IsPage (p : Nat) : Prop :=
  1 ≤ p ∧ p ≤ lastPage

theorem isDouble_of_isPage (h : IsPage p) : (Value.int p).isDouble = true := by
  rcases Nat.lt_or_eq_of_le h.2 with hlt | rfl
  · exact Value.isDouble_of_lt hlt
  · decide +kernel

/-- Digits are read as the number that they count, if it is a double. -/
theorem positive?_toString (h : (Value.int n).isDouble = true) (hn : 1 ≤ n) :
    positive? (.str (toString n)) = some n := by
  have htrim : String.ofList (Text.trim (toString n).toList) = toString n := by
    have hdigits : (toString n).toList = Nat.toDigits 10 n := by
      rw [show toString n = _ from Nat.repr_eq_ofList_toDigits, String.toList_ofList]
    rw [hdigits, Text.trim_of_areDigits (Text.areDigits_toDigits n), ← hdigits, String.ofList_toList]
  have hread : quantity? (.str (toString n)) = quantity? (.int n) := by
    unfold quantity?
    rw [htrim, Numeral.double?_toString, Option.bind_some]
  rw [← positive?_int h hn]
  unfold positive?
  rw [hread]

/-- The ways to write the number of a page. -/
def Writes (write : Nat → Value) : Prop :=
  ∀ p, write p = .int p ∨ write p = .str (toString p)

/-- **A page is read as it is written.** -/
theorem page_of_written {write : Nat → Value} (hwrite : Writes write) (h : IsPage p) : page (write p) = p := by
  have hread : positive? (write p) = some p := by
    rcases hwrite p with he | he
    · rw [he]
      exact positive?_int (isDouble_of_isPage h) h.1
    · rw [he]
      exact positive?_toString (isDouble_of_isPage h) h.1
  unfold page
  rw [hread]
  rfl

/-! ### plans for pages -/

/-- What compiling the filters comes to. -/
def planned (filters : Fields) (fields : Value) (c : Context) : Except Fault QueryPlan :=
  ((compiled (.object filters) fields).runFrom c).1

theorem planned_eq (filters : Fields) (fields : Value) (c : Context) :
    planned filters fields c = (compiled (.object filters) fields).outcomeWhen c.debugging :=
  (steady_compiled _ fields).outcome c

theorem value_put_of_ne (filters : Fields) (v : Value) {name other : String} (h : other ≠ name) :
    Fields.value (filters.put name v) other = Fields.value filters other := by
  unfold Fields.value
  rw [Fields.get?_put, if_neg fun he => h (Key.text.inj he)]

/-- The page and the limit are not asked for a text. -/
theorem Askable.put (h : Askable filters) {name : String} (hname : name ∈ ["page", "limit"]) (v : Value) :
    Askable (filters.put name v) := by
  have happart : ∀ name ∈ ["page", "limit"], "q" ≠ name ∧ "sort" ≠ name ∧
      ∀ asked ∈ categoricalFields.map Prod.fst ++ ["colors", "sizes"], asked ≠ name := by decide
  obtain ⟨hquery, hsort, hlists⟩ := happart name hname
  refine ⟨fun asked hasked => ?_, ?_, ?_⟩
  · rw [value_put_of_ne filters v (hlists asked hasked)]
    exact h.lists asked hasked
  · rw [value_put_of_ne filters v hquery]
    exact h.query
  · rw [value_put_of_ne filters v hsort]
    exact h.sort

/-- The window of a plan is made of its page and its limit. -/
theorem window?_compile (filters : Fields) (fields : Value) : (compile filters fields).window? =
    some (pageWindow (limit (Fields.value filters "limit")) (page (Fields.value filters "page"))) := by
  have hskip := QueryPlan.stage?_of_mem (nodup_kinds filters fields) (mem_skip.mpr rfl)
  have hlimit := QueryPlan.stage?_of_mem (nodup_kinds filters fields) (mem_limit.mpr rfl)
  have hpage := one_le_page (Fields.value filters "page")
  generalize limit (Fields.value filters "limit") = size at hskip hlimit ⊢
  generalize page (Fields.value filters "page") = p at hskip hpage ⊢
  unfold QueryPlan.window?
  rw [show (compile filters fields).stage? "skip" = _ from hskip,
    show (compile filters fields).stage? "limit" = _ from hlimit]
  dsimp only
  unfold pageWindow
  rw [← Nat.succ_mul, Nat.succ_eq_add_one, Nat.sub_add_cancel hpage]

/-- The pages that the plans show tile the results, so many on each. -/
structure Paged (plans : Nat → Except Fault QueryPlan) (size : Nat) : Prop where
  /-- Each page has a plan of its own, and its window. -/
  window : ∀ p, IsPage p → ∃ plan, plans p = .ok plan ∧ plan.page = p ∧ plan.limit = size ∧
    plan.window? = some (pageWindow size p)
  tiles : Tiles (pageWindow size) lastPage
  /-- A result is on one page exactly. -/
  once : ∀ n < lastPage, ∃! p, IsPage p ∧ ∃ plan, plans p = .ok plan ∧ plan.Shows n
  /-- No result is on two pages. -/
  apart : ∀ p q n, IsPage p → IsPage q → p ≠ q →
    ¬ ((∃ plan, plans p = .ok plan ∧ plan.Shows n) ∧ ∃ plan, plans q = .ok plan ∧ plan.Shows n)

theorem paged_of_window {plans : Nat → Except Fault QueryPlan} {size : Nat} (hsize : 1 ≤ size)
    (h : ∀ p, IsPage p → ∃ plan, plans p = .ok plan ∧ plan.page = p ∧ plan.limit = size ∧
      plan.window? = some (pageWindow size p)) : Paged plans size := by
  have htiles := tiles_pageWindow hsize lastPage
  have hshows : ∀ p n, IsPage p → ((∃ plan, plans p = .ok plan ∧ plan.Shows n) ↔
      (pageWindow size p).1 ≤ n ∧ n < (pageWindow size p).2) := by
    intro p n hp
    obtain ⟨plan, hplan, -, -, hwindow⟩ := h p hp
    rw [← QueryPlan.shows_iff hwindow]
    constructor
    · rintro ⟨other, hother, hshown⟩
      obtain rfl := Except.ok.inj (hplan.symm.trans hother)
      exact hshown
    · exact fun hshown => ⟨plan, hplan, hshown⟩
  refine ⟨h, htiles, fun n hn => ?_, fun p q n hp hq hne hboth => ?_⟩
  · have hlast : n < (pageWindow size lastPage).2 := Nat.lt_of_lt_of_le hn (Nat.le_mul_of_pos_right _ hsize)
    obtain ⟨p, ⟨hp, hmem⟩, hunique⟩ := htiles.existsUnique Nat.one_le_two_pow hlast
    exact ⟨p, ⟨hp, (hshows p n hp).mpr hmem⟩, fun q hq => hunique q ⟨hq.1, (hshows q n hq.1).mp hq.2⟩⟩
  · exact hne (htiles.eq_of_mem hp hq ((hshows p n hp).mp hboth.1) ((hshows q n hq).mp hboth.2))

/-- **The pages of a result list tile it**, whatever limit is asked for and however the pages are written. Filters that
can be written have a plan; and if filters have one, each of their pages has one, too, and its stages show a window
of the size that the plan names. -/
theorem paged_of_compiled (filters : Fields) (fields v : Value) (c : Context) (write : Nat → Value)
    (hwrite : Writes write) :
    (Value.haveWritable filters = true → fields.isWritable = true →
        ∃ plan, planned (filters.put "limit" v) fields c = .ok plan) ∧
      ∀ plan, planned (filters.put "limit" v) fields c = .ok plan → ∃ size : Nat, plan.limit = size ∧ 1 ≤ size ∧
        Paged (fun p => planned ((filters.put "limit" v).put "page" (write p)) fields c) size := by
  constructor
  · intro hfilters hfields
    have hname : "limit" ∈ ["page", "limit"] := by decide
    have haskable := (askable_of_haveWritable hfilters).put hname v
    rw [planned_eq]
    exact ⟨_, outcomeWhen_compiled_of_askable haskable (demandProjection_eq hfields) _⟩
  · intro plan hplan
    rw [planned_eq] at hplan
    obtain ⟨haskable, hfields⟩ := askable_of_compiled hplan
    obtain rfl := Except.ok.inj (hplan.symm.trans (outcomeWhen_compiled_of_askable haskable hfields _))
    have hlimit : Fields.value (filters.put "limit" v) "limit" = v :=
      Fields.value_of_get? ((Fields.get?_put ..).trans (if_pos rfl))
    refine ⟨limit v, ?_, (limit_bounds v).1, paged_of_window (limit_bounds v).1 fun p hp => ?_⟩
    · rw [limit_compile, hlimit]
    · have hpage : Fields.value ((filters.put "limit" v).put "page" (write p)) "page" = write p :=
        Fields.value_of_get? ((Fields.get?_put ..).trans (if_pos rfl))
      have hapart : "limit" ≠ "page" := by decide
      have hkept := value_put_of_ne (filters.put "limit" v) (write p) hapart
      rw [planned_eq]
      refine ⟨_, outcomeWhen_compiled_of_askable (haskable.put (by decide) (write p)) hfields _, ?_, ?_, ?_⟩
      · rw [page_compile, hpage, page_of_written hwrite hp]
      · rw [limit_compile, hkept, hlimit]
      · rw [window?_compile, hpage, page_of_written hwrite hp, hkept, hlimit]

/-- Pages of seven, with the limit in a text and with a fraction, and the pages in texts, too. -/
theorem paged_of_compiled_of_seven :
    ∃ plan, planned (Fields.put [("q", .str "linen"), ("page", .int 9)] "limit" (.str " 7.9 ")) .null
        (.initial true) = .ok plan ∧
      ∃ size : Nat, plan.limit = size ∧ 1 ≤ size ∧ Paged (fun p => planned
        ((Fields.put [("q", .str "linen"), ("page", .int 9)] "limit" (.str " 7.9 ")).put "page" (.str (toString p)))
        .null (.initial true)) size := by
  obtain ⟨hexists, hpaged⟩ := paged_of_compiled [("q", .str "linen"), ("page", .int 9)] .null (.str " 7.9 ")
    (.initial true) (fun p => .str (toString p)) fun _ => .inr rfl
  obtain ⟨plan, hplan⟩ := hexists (by decide +kernel) rfl
  exact ⟨plan, hplan, hpaged plan hplan⟩

end Plan

end Outfitter
