import Outfitter.Fault
import Outfitter.Text.Pattern

/-!
The budget in a message. Of the rules that read one, the first that fits anywhere decides: a range, an
upper bound, another way to put an upper bound, and an approximate price, which stands for twenty more
or less.
-/

namespace Outfitter.Message

open Text

/-- Price bounds. -/
structure Budget where
  least : Option Nat
  most : Option Nat
  deriving DecidableEq

namespace Budget

/-- Bounds of a price around an amount. -/
def around (amount : Nat) : Budget :=
  ⟨some (amount - 20), some (amount + 20)⟩

/-- The bounds as price fields. -/
def toFields (b : Budget) : Fields :=
  Fields.ofOption "min" (b.least.map fun n => .int n) ++
    Fields.ofOption "max" (b.most.map fun n => .int n)

end Budget

/-- Blanks, perhaps a dollar sign, and a number. -/
def amount : Pattern :=
  Pattern.all [Pattern.blanks 0, Pattern.optional (Pattern.exactly "$"), Pattern.part Pattern.digits]

def words (texts : List String) : Pattern :=
  Pattern.any (texts.map Pattern.exactly)

def range : Pattern :=
  Pattern.all [Pattern.exactly "between", amount, Pattern.blanks 0, words ["and", "to", "-"], amount]

def upperBound : Pattern :=
  Pattern.all [words ["under", "below", "less than", "<=", "≤"], amount]

def budgetWord : Pattern :=
  Pattern.all [Pattern.exactly "budget",
    Pattern.optional (Pattern.all [Pattern.blanks 1, words ["of", "is"]])]

def maximum : Pattern :=
  Pattern.all [Pattern.wordEdge,
    Pattern.any [Pattern.all [Pattern.exactly "max", Pattern.optional (Pattern.exactly ".")],
      Pattern.exactly "up to", budgetWord, Pattern.exactly "no more than"],
    amount]

def approximation : Pattern :=
  Pattern.all [Pattern.wordEdge, Pattern.exactly "around", amount]

/-- The number that some digits write, if there are not too many of them. -/
def readAmount (digits : Stretch) : Except Fault Nat :=
  if Numeral.maxDigits < digits.size then .error (.tooManyDigits digits.size)
  else .ok (ofDigits digits.text)

/-- A rule for budgets: its pattern, and the bounds that the numbers in it give. -/
structure BudgetRule where
  pattern : Pattern
  bounds : List Nat → Budget

/-- The rules in the order in which they are tried. -/
def budgetRules : List BudgetRule :=
  [⟨range, fun amounts => ⟨amounts[0]?, amounts[1]?⟩⟩,
    ⟨upperBound, fun amounts => ⟨none, amounts[0]?⟩⟩,
    ⟨maximum, fun amounts => ⟨none, amounts[0]?⟩⟩,
    ⟨approximation, fun amounts => Budget.around (amounts[0]?.getD 0)⟩]

/-- A budget and the stretch of the text that it was read from. -/
structure BudgetFound where
  budget : Budget
  stretch : Stretch

/-- The budget that the first fitting rule of some reads. -/
def findBudgetBy (text : List Char) : List BudgetRule → Except Fault (Option BudgetFound)
  | [] => .ok none
  | rule :: rules =>
    match rule.pattern.search text with
    | some found => do
      let amounts ← found.parts.mapM readAmount
      return some ⟨rule.bounds amounts, found.toStretch⟩
    | none => findBudgetBy text rules

/-- The budget in a text, if there is one. -/
def findBudget (text : List Char) : Except Fault (Option BudgetFound) :=
  findBudgetBy text budgetRules

/-- The price fields of a budget, none if there is no budget. -/
def priceFields (found : Option BudgetFound) : Fields :=
  (found.map (·.budget.toFields)).getD []

/-- The text with the stretch of the budget made one space. -/
def withoutBudget (text : List Char) (found : Option BudgetFound) : List Char :=
  match found with
  | some b => text.take b.stretch.start ++ ' ' :: text.drop b.stretch.stop
  | none => text

end Outfitter.Message
