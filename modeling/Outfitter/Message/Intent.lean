import Outfitter.Text.Pattern

/-!
What a message is about: an event, for which more has to be known, or an outfit, which is made of
several pieces.
-/

namespace Outfitter.Message

open Text

structure Intent where
  isEventFlow : Bool
  wantsOutfit : Bool
  deriving DecidableEq

namespace Intent

/-- Neither an event nor an outfit. -/
def none : Intent :=
  ⟨false, false⟩

end Intent

/-- A word in any case, perhaps in the plural. -/
def singularOrPlural (word : String) : Pattern :=
  Pattern.all [Pattern.letters word.toList, Pattern.optional (Pattern.letters ['s'])]

/-- Words of events. -/
def eventWord : Pattern :=
  Pattern.whole (Pattern.any [singularOrPlural "wedding", singularOrPlural "bridesmaid",
    Pattern.letters "ceremony".toList, Pattern.letters "reception".toList,
    Pattern.all [Pattern.letters "black".toList,
      Pattern.optional (Pattern.one fun c => c == '-' || isBlank c), Pattern.letters "tie".toList],
    Pattern.letters "formal".toList])

/-- Words of outfits. -/
def outfitWord : Pattern :=
  Pattern.whole (Pattern.any [singularOrPlural "outfit", Pattern.letters "complete the look".toList,
    Pattern.letters "match with".toList, Pattern.letters "pair with".toList])

/-- The intent of a text that names these occasions. -/
def intentOf (text : List Char) (occasions : List String) : Intent :=
  ⟨occasions.contains "wedding" || eventWord.foundIn text, outfitWord.foundIn text⟩

end Outfitter.Message
