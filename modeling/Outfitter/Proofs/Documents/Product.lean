import Mathlib.Data.List.Forall2
import Outfitter.Plan.Compile
import Outfitter.Proofs.Documents.Semantics

/-!
Products, and the documents in which they are stored.

A document may have further fields. A price that there is none of is null in it or absent, and so is a list
without items. `Product.Meets` tells which products some filters ask for.
-/

namespace Outfitter.Documents

/-- A number that has a rank. -/
structure Price where
  value : Value
  rank : Rank
  ranked : rank? value = some rank

structure Size where
  label : String
  stock : Int
  /-- The price of this size, if it has one of its own. -/
  price : Option Price

structure Variant where
  color : String
  sizes : List Size

structure Product where
  /-- The values of the categorical fields. -/
  trait : String → Option Value
  base : Option Price
  variants : List Variant

/-- The prices of a product: the base price and the prices of all sizes, which are the base price unless they
have one of their own. -/
def Product.prices (p : Product) : List Price :=
  p.base.toList ++ (p.variants.flatMap (·.sizes)).filterMap fun s => s.price.or p.base

/-! ### documents -/

/-- A single value, and no list or object. -/
def isSingle : Value → Bool
  | .list _ | .object _ => false
  | _ => true

/-- The price stands in a field, and null or nothing if there is none. -/
def PriceIn (fields : Fields) (name : String) : Option Price → Prop
  | some x => Fields.get? fields name = some x.value
  | none => Fields.get? fields name = none ∨ Fields.get? fields name = some .null

/-- The items stand in a field, and perhaps null or nothing if there is none. -/
def ListIn {α : Type} (fields : Fields) (name : String) (written : α → Value → Prop) (xs : List α) : Prop :=
  (∃ items, Fields.get? fields name = some (.list items) ∧ List.Forall₂ written xs items) ∨
    xs = [] ∧ (Fields.get? fields name = none ∨ Fields.get? fields name = some .null)

structure Size.WrittenIn (s : Size) (fields : Fields) : Prop where
  label : Fields.get? fields "sizeLabel" = some (.str s.label)
  stock : Fields.get? fields "stockQty" = some (.int s.stock)
  price : PriceIn fields "priceOverride" s.price

/-- The value is an object with this in its fields. -/
def AsObject {α : Type} (written : α → Fields → Prop) (a : α) (v : Value) : Prop :=
  ∃ fields, v = .object fields ∧ written a fields

structure Variant.WrittenIn (v : Variant) (fields : Fields) : Prop where
  color : Fields.get? fields "color" = some (.str v.color)
  sizes : ListIn fields "sizes" (AsObject Size.WrittenIn) v.sizes

/-- The document is one of the product. -/
structure Product.WrittenIn (p : Product) (doc : Fields) : Prop where
  traits : ∀ pair ∈ Plan.categoricalFields, Fields.get? doc pair.2 = p.trait pair.2 ∧
    ∀ v ∈ p.trait pair.2, isSingle v = true
  base : PriceIn doc "basePrice" p.base
  variants : ListIn doc "variants" (AsObject Variant.WrittenIn) p.variants

/-! ### what filters ask for -/

section

variable (filters : Fields)

/-- The field of the filters lists the text, if it is there. -/
def Admits (name text : String) : Prop :=
  ∀ xs, Fields.get? filters name = some (.ofStrings xs) → text ∈ xs

/-- What is in stock is asked for. -/
def WantsStock : Prop :=
  Fields.get? filters "in_stock" = some (.bool true)

/-- The size is one that is asked for. -/
structure Size.Meets (s : Size) : Prop where
  label : Admits filters "sizes" s.label
  stock : WantsStock filters → 0 < s.stock

/-- The variant has a color that is asked for and, if anything is asked about sizes, such a size. -/
structure Variant.Meets (v : Variant) : Prop where
  color : Admits filters "colors" v.color
  size : Fields.has filters "sizes" = true ∨ WantsStock filters → ∃ s ∈ v.sizes, s.Meets filters

/-- The number is not below the least bound and not above the greatest one. -/
structure Price.Within (x : Price) (bounds : Fields) : Prop where
  least : ∀ bound, Fields.get? bounds "min" = some bound → ∃ r, rank? bound = some r ∧ r ≤ x.rank
  most : ∀ bound, Fields.get? bounds "max" = some bound → ∃ r, rank? bound = some r ∧ x.rank ≤ r

/-- The product is one that is asked for. -/
structure Product.Meets (p : Product) (finds : String → Prop) : Prop where
  traits : ∀ pair ∈ Plan.categoricalFields, ∀ xs, Fields.get? filters pair.1 = some (.ofStrings xs) →
    ∃ s ∈ xs, p.trait pair.2 = some (.str s)
  text : ∀ q, Fields.get? filters "q" = some (.str q) → finds q
  /-- With colors or sizes, one variant is as asked in every respect. -/
  variant : Fields.has filters "colors" = true ∨ Fields.has filters "sizes" = true →
    ∃ v ∈ p.variants, v.Meets filters
  /-- With neither, any size of any variant may be the one in stock. -/
  stock : Fields.has filters "colors" = false → Fields.has filters "sizes" = false → WantsStock filters →
    ∃ v ∈ p.variants, ∃ s ∈ v.sizes, 0 < s.stock
  /-- There is a least price, and it lies within the bounds. -/
  price : ∀ bounds, Fields.get? filters "price" = some (.object bounds) →
    ∃ x ∈ p.prices, (∀ y ∈ p.prices, x.rank ≤ y.rank) ∧ x.Within bounds

end

end Outfitter.Documents
