import Outfitter.Text.Blank

/-!
Slugs: names for use in file names.
-/

namespace Outfitter.Text

/-- Characters that stay in a slug. -/
def isSlugChar (c : Char) : Bool :=
  c.isAlphanum || c == '.' || c == '_' || c == '-'

/-- The text with a hyphen for every run of other characters; `inRun` tells that such a run is already
under way. -/
def hyphenated (inRun : Bool) : List Char → List Char
  | [] => []
  | c :: rest =>
    if isSlugChar c then c :: hyphenated false rest
    else if inRun then hyphenated true rest
    else '-' :: hyphenated true rest

/-- The slug of a text, `fallback` if nothing is left of it. -/
def slug (fallback text : String) : String :=
  match hyphenated false (trim text.toList) with
  | [] => fallback
  | chars => String.ofList chars

end Outfitter.Text
