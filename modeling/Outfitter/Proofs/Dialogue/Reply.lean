import Outfitter.Dialogue.Reply
import Outfitter.Proofs.Journal.Writable
import Outfitter.Proofs.Text.Reads

/-!
The reply to merged filters depends only on what they ask for.

Two writings of the same filters, with whole numbers or with doubles, in any order of the fields, are
summed up in the same words, lack the same slots and get the same chips (`exists_ofMerged`). Whether a message is a
reset does not depend on the blanks at its ends (`isReset_trim`).
-/

namespace Outfitter

namespace Filters

variable {counts : Value → Double.Finite → Prop} {filters : Fields} {l : Look}

theorem Shows.get_tokens (h : Shows counts filters l) {name : String} (hname : name ∈ listFields) :
    Value.get (.object filters) name = (listValue (l.tokens name)).getD .null :=
  congrArg (Option.getD · Value.null) (h.tokens name hname)

end Filters

namespace Dialogue

open Filters Message

variable {filters filters' : Fields} {l : Look}

/-! ### slots -/

theorem isFilledAt_cons (fields : Fields) (key : String) (keys : List String) :
    isFilledAt (.object fields) (key :: keys) =
      ((Fields.get? fields key).map (isFilledAt · keys)).getD false := by
  rw [isFilledAt]
  cases Fields.get? fields key <;> rfl

theorem isFilledAt_tokens (h : Shows Is filters l) {name : String} (hname : name ∈ listFields) :
    isFilledAt (.object filters) [name] = !(l.tokens name).isEmpty := by
  rw [isFilledAt_cons, h.tokens name hname]
  cases l.tokens name <;> rfl

theorem isFilledAt_max (h : Shows Is filters l) :
    isFilledAt (.object filters) ["price", "max"] = l.most.isSome := by
  obtain ⟨least, most, -, hmost, hp⟩ := h.price
  have hfilled : ∀ {x y}, Is x y → isFilled x = true := by
    intro x y h
    cases h <;> rfl
  rw [isFilledAt_cons, hp]
  generalize l.most = bound at hmost
  cases hmost with
  | none => cases least <;> rfl
  | some hb => cases least <;> exact hfilled hb

theorem isFilledIn_of_shows (h : Shows Is filters l) (h' : Shows Is filters' l) (slot : Slot) :
    slot.isFilledIn filters = slot.isFilledIn filters' := by
  cases slot with
  | season => exact (isFilledAt_tokens h (by decide)).trans (isFilledAt_tokens h' (by decide)).symm
  | colors => exact (isFilledAt_tokens h (by decide)).trans (isFilledAt_tokens h' (by decide)).symm
  | maxPrice => exact (isFilledAt_max h).trans (isFilledAt_max h').symm

theorem chips_of_shows (h : Shows Is filters l) (h' : Shows Is filters' l) (complement : Option String) :
    chips (.object filters) complement = chips (.object filters') complement := by
  have hname : ∀ name ∈ listFields, isFilledAt (.object filters) [name] = isFilledAt (.object filters') [name] :=
    fun name hn => (isFilledAt_tokens h hn).trans (isFilledAt_tokens h' hn).symm
  unfold chips
  simp only [hname "season" (by decide), hname "colors" (by decide), hname "include_categories" (by decide),
    isFilledAt_max h, isFilledAt_max h']

/-! ### the summary -/

/-- A whole number is written alike as a whole number and as a double. -/
theorem money_of_is {v : Value} {x : Double.Finite} (h : Is v x) (hx : Natural x) :
    money v = .ok s!"${x.truncate}" := by
  cases h with
  | int =>
    unfold money
    dsimp only
    rw [Value.writtenText_of_isWritable ((Is.int.means hx).isWritable hx)]
    show Except.ok ("$" ++ String.ofList (toString x.truncate).toList) = _
    rw [String.ofList_toList]
    rfl
  | float =>
    have htoInt : (Double.finite x).toInt? = some x.truncate := if_pos hx.whole
    unfold money
    simp only [htoInt]

theorem mapM_textAt (xs : List String) (n : Nat) :
    (((xs.map Value.str).zipIdx n).mapM fun (e, i) => textAt i e) = .ok xs := by
  induction xs generalizing n with
  | nil => rfl
  | cons x xs ih =>
    rw [List.map_cons, List.zipIdx_cons, List.mapM_cons, ih]
    rfl

theorem joinTexts_ofStrings (separator : String) (xs : List String) :
    joinTexts separator (.ofStrings xs) = .ok (separator.intercalate xs) := by
  have hjoin : joinTexts separator (.ofStrings xs) = Except.ok xs >>= fun texts =>
      pure (separator.intercalate texts) := by
    rw [← mapM_textAt xs 0]
    rfl
  exact hjoin

theorem firstElements_ofStrings (count : Nat) (xs : List String) :
    firstElements count (.ofStrings xs) = .ok (.ofStrings (xs.take count)) := by
  show Except.ok (Value.list ((xs.map Value.str).take count)) = _
  rw [← List.map_take]
  rfl

theorem colors_ofStrings (xs : List String) : (do return "colors: " ++ (← joinTexts ", "
    (← firstElements 4 (.ofStrings xs))) : Except Fault String) =
      .ok ("colors: " ++ ", ".intercalate (xs.take 4)) := by
  rw [firstElements_ofStrings]
  show (joinTexts ", " (.ofStrings (xs.take 4)) >>= _) = _
  rw [joinTexts_ofStrings]
  rfl

theorem slashed_ofStrings (before : String) (xs : List String) :
    (joinTexts "/" (.ofStrings xs)).map (before ++ ·) = .ok (before ++ "/".intercalate xs) := by
  rw [joinTexts_ofStrings]
  rfl

/-- What is said of the tokens of a field, if there are any. -/
def tokensPart (tokens : List String) (say : List String → String) : List String :=
  if tokens.isEmpty then [] else [say tokens]

theorem part_of_shows (h : Shows Is filters l) {name : String} (hname : name ∈ listFields)
    {say : Value → Except Fault String} {told : List String → String}
    (hsay : ∀ xs, say (.ofStrings xs) = .ok (told xs)) :
    part (.object filters) name say = .ok (tokensPart (l.tokens name) told) := by
  unfold part
  rw [h.get_tokens hname]
  cases l.tokens name with
  | nil => rfl
  | cons x xs =>
    show (say (.ofStrings (x :: xs))).map ([·]) = _
    rw [hsay]
    rfl

/-- What is said of price bounds. -/
def boundsPart : Option Double.Finite → Option Double.Finite → List String
  | none, none => []
  | none, some high => ["under " ++ s!"${high.truncate}"]
  | some low, none => ["over " ++ s!"${low.truncate}"]
  | some low, some high => ["between " ++ s!"${low.truncate}" ++ "–" ++ s!"${high.truncate}"]

theorem pricePart_of_shows (h : Shows Is filters l) (hl : l.Neat) :
    pricePartOf (.object filters) = .ok (boundsPart l.least l.most) := by
  obtain ⟨least, most, hleast, hmost, hp⟩ := h.price
  have hget : Value.get (.object filters) "price" = (priceValue least most).getD .null :=
    congrArg (Option.getD · Value.null) hp
  have hlow := hl.least
  have hhigh := hl.most
  unfold pricePartOf
  rw [hget]
  generalize l.least = low at hleast hlow
  generalize l.most = high at hmost hhigh
  cases hleast with
  | none =>
    cases hmost with
    | none => rfl
    | some hm =>
      have hmoney := money_of_is hm (hhigh _ rfl)
      cases hm <;> exact congrArg (· >>= fun s => pure ["under " ++ s]) hmoney
  | some hn =>
    have hmoney := money_of_is hn (hlow _ rfl)
    cases hmost with
    | none => cases hn <;> exact congrArg (· >>= fun s => pure ["over " ++ s]) hmoney
    | some hm =>
      have hmoney' := money_of_is hm (hhigh _ rfl)
      cases hn <;> cases hm <;>
        exact congr (congrArg (fun s t => s >>= fun s => t >>= fun t => pure ["between " ++ s ++ "–" ++ t])
          hmoney) hmoney'

/-- What is said of a look. -/
def saidOf (l : Look) : List String :=
  tokensPart (l.tokens "include_categories") (", ".intercalate ·) ++
    tokensPart (l.tokens "occasion") (fun xs => "for " ++ "/".intercalate xs) ++
    tokensPart (l.tokens "season") (fun xs => "in " ++ "/".intercalate xs) ++
    tokensPart (l.tokens "colors") (fun xs => "colors: " ++ ", ".intercalate (xs.take 4)) ++
    boundsPart l.least l.most

theorem parts_of_shows (h : Shows Is filters l) (hl : l.Neat) :
    parts (.object filters) = .ok (saidOf l) := by
  unfold parts
  rw [part_of_shows h (by decide) fun xs => joinTexts_ofStrings ", " xs,
    part_of_shows h (by decide) (slashed_ofStrings "for "),
    part_of_shows h (by decide) (slashed_ofStrings "in "), part_of_shows h (by decide) colors_ofStrings,
    pricePart_of_shows h hl]
  rfl

theorem summary_of_shows (h : Shows Is filters l) (hl : l.Neat) :
    summary (.object filters) = match saidOf l with
      | [] => .ok fallback
      | said => .ok ("Here are picks " ++ " ".intercalate said ++ ".") := by
  unfold summary
  rw [parts_of_shows h hl]
  cases saidOf l <;> rfl

/-- The sentence depends only on what the filters ask for. -/
theorem exists_summary (l : Look) (hl : l.Neat) :
    ∃ sentence, ∀ filters, Shows Is filters l → summary (.object filters) = .ok sentence := by
  cases hsaid : saidOf l with
  | nil => exact ⟨fallback, fun filters h => by rw [summary_of_shows h hl, hsaid]⟩
  | cons s said => exact ⟨_, fun filters h => by rw [summary_of_shows h hl, hsaid]⟩

/-! ### the reply -/

theorem complements_ofStrings (xs : List String) :
    complements (.ofStrings xs) = .ok (complementsOf (xs.map Value.str)) := by
  have hforM : ∀ xs : List String, (xs.map Value.str).forM checkLookedUp = .ok () := by
    intro xs
    induction xs with
    | nil => rfl
    | cons x xs ih =>
      show (checkLookedUp (.str x) >>= fun _ => (xs.map Value.str).forM checkLookedUp) = _
      rw [ih]
      rfl
  cases xs with
  | nil => rfl
  | cons x xs =>
    show (((x :: xs).map Value.str).forM checkLookedUp >>= _) = _
    rw [hforM]
    rfl

theorem complementsFor_of_shows (text : List Char) (l : Look) :
    ∃ complements, ∀ filters, Shows Is filters l → Reply.complementsFor text filters = .ok complements := by
  have hvalue : ∀ filters, Shows Is filters l → Fields.value filters "include_categories" =
      (listValue (l.tokens "include_categories")).getD .null := fun filters h => h.get_tokens (by decide)
  unfold Reply.complementsFor
  cases htokens : l.tokens "include_categories" with
  | nil => exact ⟨_, fun filters h => by rw [hvalue filters h, htokens]; rfl⟩
  | cons x xs =>
    refine ⟨complementsOf ((x :: xs).map Value.str), fun filters h => ?_⟩
    rw [hvalue filters h, htokens]
    exact complements_ofStrings (x :: xs)

/-- **The reply to merged filters** depends only on what they ask for, but for the filters themselves. -/
theorem exists_ofMerged (text : List Char) (intent : Intent) {l : Look} (hl : l.Neat)
    (h : Shows Is filters l) :
    ∃ r, Reply.ofMerged text intent filters = .ok r ∧ r.filters = filters ∧
      ∀ filters', Shows Is filters' l →
        Reply.ofMerged text intent filters' = .ok { r with filters := filters' } := by
  obtain ⟨sentence, hsentence⟩ := exists_summary l hl
  obtain ⟨complements, hcomplements⟩ := complementsFor_of_shows text l
  let missing := if intent.isEventFlow then missingSlots filters else []
  have hmissing : ∀ filters', Shows Is filters' l →
      (if intent.isEventFlow then missingSlots filters' else []) = missing := by
    intro filters' h'
    have hslots : missingSlots filters' = missingSlots filters :=
      List.filter_congr fun slot _ => congrArg (!·) (isFilledIn_of_shows h' h slot)
    rw [hslots]
  have hreply : ∀ filters', Shows Is filters' l → Reply.ofMerged text intent filters' =
      .ok ⟨if missing.isEmpty then sentence else Reply.questions missing, filters', missing.isEmpty,
        missing.map Slot.name, complements, chips (.object filters) complements.head?, false⟩ := by
    intro filters' h'
    unfold Reply.ofMerged
    rw [hmissing filters' h', hsentence filters' h', hcomplements filters' h', ← chips_of_shows h' h]
    cases missing <;> rfl
  exact ⟨_, hreply filters h, rfl, hreply⟩

/-! ### resets -/

open Text Pattern

/-- What stands between the edges of words in a reset. -/
def resetWords : Pattern :=
  seq (either (letters "clear".toList) (letters "reset".toList)) <|
    seq (blanks 1) (either (letters "filters".toList) (letters "all".toList))

theorem resetPhrase_eq : resetPhrase = whole resetWords :=
  rfl

theorem blind_resetWords : resetWords.Blind :=
  ⟨⟨blind_letters _, blind_letters _⟩, trivial, blind_letters _, blind_letters _⟩

/-- The words of a reset begin and end with letters. -/
theorem tight_of_spells_resetWords {word : List Char} (h : resetWords.Spells word) : Tight word := by
  obtain ⟨u, _, hu, ⟨v, w, -, hw, rfl⟩, rfl⟩ := h
  rw [← List.append_assoc]
  have htight : ∀ text ∈ ["clear".toList, "reset".toList, "filters".toList, "all".toList],
      ∀ word, (letters text).Spells word → Tight word := by
    intro text ht word hword
    have hall : (["clear".toList, "reset".toList, "filters".toList, "all".toList].all fun text =>
        !text.isEmpty && text.all fun c => !isBlank (foldCase c)) = true := by
      decide
    have hletters := List.all_eq_true.mp hall text ht
    rw [Bool.and_eq_true, Bool.not_eq_true', List.isEmpty_eq_false_iff, List.all_eq_true] at hletters
    exact tight_of_spells_letters hletters.1 (fun c hc => Bool.not_eq_true' .. ▸ hletters.2 c hc) hword
  have hfirst : Tight u := by
    rcases hu with hu | hu <;> exact htight _ (by simp) u hu
  have hlast : Tight w := by
    rcases hw with hw | hw <;> exact htight _ (by simp) w hw
  exact hfirst.append hlast v

/-- **The blanks at the ends do not decide whether a text is a reset.** -/
theorem isReset_trim (text : List Char) : isReset (trim text) = isReset text := by
  unfold isReset
  rw [resetPhrase_eq]
  exact foundIn_whole_trim blind_resetWords (fun _ h => tight_of_spells_resetWords h) text

end Dialogue

end Outfitter
