import Outfitter.Proofs.Api.Listing
import Outfitter.Proofs.Api.Parameters
import Outfitter.Proofs.Filters.Coerced

/-!
Lists that are given by several parameters or by one.

The values of a list may stand in a query under its name one after the other, or joined by commas in one place.
The parameters then differ in nothing but how that list is written (`sameLists_of_joins`), so the two queries ask
for the same filters and the same plan, and are answered alike (`queryPlan_of_joins`).
-/

namespace Outfitter.Api

open Filters Catalog Journal Target

variable {name : String} {t u : Target}

/-! ### parameters -/

/-- Several values of a parameter, and one with the same values joined by commas. -/
theorem alike_given {texts : List String} (h : texts ≠ []) :
    Alike ((given? texts).getD .null) ((given? [",".intercalate texts]).getD .null) := by
  cases texts with
  | nil => exact absurd rfl h
  | cons first rest =>
    cases rest with
    | nil =>
      rw [String.intercalate_singleton]
      exact .refl _
    | cons second rest => exact alike_joined first second rest

theorem value_params (t : Target) (name : String) :
    Fields.value t.params name = (given? (values name t.pairs)).getD .null :=
  congrArg (·.getD .null) (get?_params t name)

/-- **Values in one place** are another way to write the list. -/
theorem sameLists_of_joins (h : Joins name t.pairs u.pairs) (hname : Key.text name ∈ listKeys)
    (hgiven : values name t.pairs ≠ []) : SameLists t.params u.params := by
  have hother : ∀ other : String, other ≠ name →
      Fields.value t.params other = Fields.value u.params other := by
    intro other hne
    rw [value_params, value_params, h.values hne]
  constructor
  case lists =>
    have htext : ∀ key ∈ listKeys, ∃ other, key = .text other := by
      simp [listKeys, listParams]
    intro key hkey
    obtain ⟨other, rfl⟩ := htext key hkey
    by_cases he : other = name
    · rw [he, value_params, value_params, h.once]
      exact alike_given hgiven
    · rw [hother other he]
      exact .refl _
  case values =>
    intro other hnot
    exact hother other fun he => hnot (he ▸ hname)

/-! ### plans -/

theorem shownFields_of_listed {v w : Value} (h : Filters.listed v = Filters.listed w) :
    Server.shownFields v = Server.shownFields w := by
  unfold Server.shownFields
  rw [h]

/-- The filters and the plan that the parameters of a target ask for. -/
def Server.listing (s : Server) (t : Target) : Traced (Fields × QueryPlan) :=
  Catalog.listed s.catalog (.object (t.params.without "fields"))
    (shownFields (Fields.value t.params "fields"))

theorem listing_of_sameLists (h : SameLists t.params u.params) (s : Server) : s.listing u = s.listing t := by
  have hcoerced := coerceValue_of_sameLists (h.without "fields")
    (haveWritable_without (haveWritable_params t) "fields") (haveWritable_without (haveWritable_params u) "fields")
  unfold Server.listing Catalog.listed
  rw [hcoerced, shownFields_of_listed (h.lists "fields" (by decide)).listed]

/-- A response about a plan depends on the target only by what is listed. -/
theorem queryPlan_of_listing {s : Server} {r : Request} (h : s.listing u = s.listing r.target) :
    s.queryPlan { r with target := u } = s.queryPlan r := by
  show s.answerTraced (s.listing u) _ = s.answerTraced (s.listing r.target) _
  rw [h]

/-- **A list may be given by several parameters or by one with commas**, and there is such a query for every one.
The filters and the plan are the same, and so is the response. -/
theorem queryPlan_of_joins (s : Server) (r : Request) (hname : Key.text name ∈ listKeys)
    (hgiven : values name r.target.pairs ≠ []) :
    Joins name r.target.pairs (Target.pairs ⟨r.target.path, joinedQuery name r.target.query⟩) ∧
    ∀ u : Target, Joins name r.target.pairs u.pairs → ∃ (filters : Fields) (plan : QueryPlan) (body : Value),
      ((s.listing r.target).runFrom s.assistant.journal).1 = .ok (filters, plan) ∧
      ((s.listing u).runFrom s.assistant.journal).1 = .ok (filters, plan) ∧
      planBody filters plan = .ok body ∧
      (s.queryPlan r).1 = .ok (.ofBody 200 body) ∧
      s.queryPlan { r with target := u } = s.queryPlan r := by
  refine ⟨joins_joinedQuery r.target hgiven, fun u hu => ?_⟩
  have hlisting := listing_of_sameLists (sameLists_of_joins hu hname hgiven) s
  obtain ⟨filters, plan, p, body, hplan, -, -, hbody, -, hanswer⟩ := exists_queryPlan s r
  have hsame : ((s.listing u).runFrom s.assistant.journal).1 = .ok (filters, plan) := by
    rw [hlisting]
    exact hplan
  exact ⟨filters, plan, body, hplan, hsame, hbody, hanswer, queryPlan_of_listing hlisting⟩

/-- Brands in three places, one of which is empty and one spelled in another way. -/
def brandsRequest : Request :=
  ⟨"GET", ⟨"/api/products/query-plan".toList,
    "brand=Acme&page=2&br%61nd=&color=red&brand=+Zara,Levi%27s".toList⟩, .none⟩

/-- The same brands in one place. -/
def joinedBrands : Target :=
  ⟨brandsRequest.target.path, "page=2&color=red&brand=Acme%2C,+Zara%2CLevi's".toList⟩

theorem queryPlan_of_joinedBrands :
    values "brand" brandsRequest.target.pairs = ["Acme", "", " Zara,Levi's"] ∧
    values "brand" joinedBrands.pairs = ["Acme,, Zara,Levi's"] ∧
    (Server.started .defaults "http://localhost:8080" (Server.assistantOf (.initial false) .defaults)
      (Table.ofCategories Category.defaults)).queryPlan { brandsRequest with target := joinedBrands } =
        (Server.started .defaults "http://localhost:8080" (Server.assistantOf (.initial false) .defaults)
          (Table.ofCategories Category.defaults)).queryPlan brandsRequest := by
  have hvalues : values "brand" brandsRequest.target.pairs = ["Acme", "", " Zara,Levi's"] := by decide
  have hjoins : Joins "brand" brandsRequest.target.pairs joinedBrands.pairs := ⟨by decide, by decide⟩
  have hgiven : values "brand" brandsRequest.target.pairs ≠ [] := by
    rw [hvalues]
    exact List.cons_ne_nil _ _
  obtain ⟨filters, plan, body, -, -, -, -, hsame⟩ := (queryPlan_of_joins _ brandsRequest (by decide) hgiven).2
    joinedBrands hjoins
  exact ⟨hvalues, by decide, hsame⟩

end Outfitter.Api
