import Outfitter.Assistant.Step

/-!
What the assistant answers without a session: the caller holds the filters.
-/

namespace Outfitter.Assistant

open Journal

/-- The assistant after a computation that leaves its marks in the journal, with the outcome. -/
def observe {α : Type} (a : Assistant) (x : Traced α) : Except Fault α × Assistant :=
  let (outcome, journal) := x.runFrom a.journal
  (outcome, { a with journal := journal })

/-- The reply to a message with these active filters. -/
def replyTo (known : List Value) (text active : Value) : Traced Dialogue.Reply :=
  Traced.inTurn text (.str "") (.str "reply") <| Traced.inStage "PLAN" "plan_reply" <|
    Dialogue.replied text active (.list known)

/-- The known brands, and behind them those of the caller that are not known. -/
def withBrands (known : List Value) (further : Value) : Except Fault (List Value) := do
  return (known ++ (← further.demandOptionalElements).filter fun b => !b.isIn known)

/-- What a message says when the brands of the caller are known too. -/
def extractFrom (known : List Value) (text further : Value) : Traced Message.Extraction := do
  let brands ← liftExcept (withBrands known further)
  Traced.inTurn text (.str "") (.str "extract") <| Traced.inStage "EXTRACT" "extract_filters" <|
    Message.extractedFrom text (.list brands)

end Outfitter.Assistant
