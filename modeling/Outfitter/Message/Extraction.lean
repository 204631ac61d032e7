import Outfitter.Filters.Canonical
import Outfitter.Message.Brand
import Outfitter.Message.Budget
import Outfitter.Message.Intent
import Outfitter.Message.Sizes
import Outfitter.Taxonomy.Dimension
import Outfitter.Text.Clean

/-!
Reading a message: the filters that it names, and its intent.

The message is read in its cleaned form. The numbers of a budget are no sizes, and the words of an
occasion are no colors: black tie is not black.
-/

namespace Outfitter.Message

open Text Taxonomy

structure Extraction where
  filters : Fields
  intent : Intent

/-- What an empty message says: whatever is in stock. -/
def Extraction.empty : Extraction :=
  ⟨[("in_stock", .bool true)], Intent.none⟩

/-- The fields that a cleaned text names, before normalization. -/
def rawFilters (text : List Char) (budget : Option BudgetFound) (known : List String) : Fields :=
  let occasion := Dimension.occasion.scan text
  let find (d : Dimension) := Value.ofStrings (d.find text)
  [("include_categories", find .categories),
    ("sizes", .ofStrings (sizes (withoutBudget text budget))),
    ("price", .object (priceFields budget)),
    ("brand", .ofStrings (brands text known)),
    ("in_stock", .bool true),
    ("occasion", .ofStrings occasion.hits),
    ("colors", .ofStrings (Dimension.colors.find occasion.remaining)),
    ("season", find .season),
    ("fit", find .fit),
    ("silhouette", find .silhouette),
    ("pattern", find .pattern),
    ("material", find .material)]

/-- What a cleaned text says. -/
def Extraction.ofCleaned (text : List Char) (budget : Option BudgetFound) (known : List String) :
    Extraction :=
  ⟨Filters.normalize (rawFilters text budget known), intentOf text (Dimension.occasion.find text)⟩

/-- What a message says. The known brands are asked for when they are needed, after the budget. -/
def extractWith (text : List Char) (known : Except Fault (List String)) :
    Except Fault Extraction := do
  let cleaned := clean text
  if cleaned.isEmpty then return Extraction.empty
  let budget ← findBudget cleaned
  return Extraction.ofCleaned cleaned budget (← known)

/-- What a message says, when these brands are known. -/
def extract (text : String) (known : List String) : Except Fault Extraction :=
  extractWith text.toList (.ok known)

end Outfitter.Message
