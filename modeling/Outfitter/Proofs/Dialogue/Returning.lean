import Outfitter.Message.Image
import Outfitter.Proofs.Dialogue.Planned
import Outfitter.Proofs.Filters.Coerced
import Outfitter.Proofs.Message.Heard

/-!
Which requests come to something, and which are at fault.

Filters of any shape can be normalized, merged and coerced. A sentence about filters is at fault where a
field is to be listed that does not hold texts, or a price is to be told that cannot be written
(`returns_summary_iff`), a reply where the sentence is, or where the categories cannot be looked up
(`returns_ofMerged_iff`), and a picture where the kind of its piece is no text (`returns_imageFiltersOf_iff`).
Everything else comes to something (`core_returns_iff`).
-/

namespace Outfitter

variable {α β : Type}

/-- A computation comes to something. -/
def Returns (x : Except Fault α) : Prop :=
  ∃ a, x = .ok a

namespace Returns

theorem ok (a : α) : Returns (.ok a) :=
  ⟨a, rfl⟩

theorem not_error (f : Fault) : ¬ Returns (.error f : Except Fault α) :=
  nofun

theorem bind_iff {x : Except Fault α} {f : α → Except Fault β} :
    Returns (x >>= f) ↔ ∃ a, x = .ok a ∧ Returns (f a) := by
  cases x with
  | error e => exact ⟨nofun, nofun⟩
  | ok a => exact ⟨fun h => ⟨a, rfl, h⟩, fun ⟨_, ha, h⟩ => Except.ok.inj ha ▸ h⟩

/-- Of two computations, the second may come to something whatever the first one comes to. -/
theorem seq_iff {x : Except Fault α} {f : α → Except Fault β} {p : Prop} (h : ∀ a, Returns (f a) ↔ p) :
    Returns (x >>= f) ↔ Returns x ∧ p :=
  bind_iff.trans ⟨fun ⟨a, ha, hf⟩ => ⟨⟨a, ha⟩, (h a).mp hf⟩, fun ⟨⟨a, ha⟩, hp⟩ => ⟨a, ha, (h a).mpr hp⟩⟩

theorem tail_iff {x : Except Fault α} {f : α → Except Fault β} (h : ∀ a, Returns (f a)) :
    Returns (x >>= f) ↔ Returns x :=
  (seq_iff fun a => iff_true_intro (h a)).trans (and_iff_left trivial)

theorem map_iff {x : Except Fault α} {f : α → β} : Returns (x.map f) ↔ Returns x := by
  cases x with
  | error e => exact ⟨nofun, nofun⟩
  | ok a => exact iff_of_true (ok _) (ok _)

end Returns

namespace Dialogue

open Filters Journal Message Text

/-! ### sentences -/

/-- If the value says something, it can be gone through, and all that comes up are texts. -/
def ListsTexts (v : Value) : Prop :=
  v.isGiven = true → ∃ xs : List String, v.elements? = some (xs.map .str)

/-- If the value says something, it begins with texts, as far as colors are named. -/
def BeginsWithTexts (v : Value) : Prop :=
  v.isGiven = true → (∃ s, v = .str s) ∨
    ∃ items, v = .list items ∧ ∃ xs : List String, items.take 4 = xs.map .str

/-- Filters that can be summed up. -/
structure Sayable (filters : Fields) : Prop where
  lists : ∀ key ∈ ["include_categories", "occasion", "season"], ListsTexts (Fields.value filters key)
  colors : BeginsWithTexts (Fields.value filters "colors")
  price : (Fields.value filters "price").isGiven = true →
    ∃ bounds, Fields.value filters "price" = .object bounds ∧
      ∀ key ∈ ["min", "max"], (Fields.value bounds key).isWritable = true

section

variable {filters : Fields}

theorem returns_textAt_iff {index : Nat} {v : Value} : Returns (textAt index v) ↔ ∃ s, v = .str s := by
  cases v with
  | str s => exact iff_of_true ⟨s, rfl⟩ ⟨s, rfl⟩
  | _ => exact ⟨nofun, nofun⟩

theorem returns_textsAt_iff {elements : List Value} {n : Nat} :
    Returns ((elements.zipIdx n).mapM fun (e, i) => textAt i e) ↔ ∃ xs : List String, elements = xs.map .str := by
  induction elements generalizing n with
  | nil => exact iff_of_true ⟨[], rfl⟩ ⟨[], rfl⟩
  | cons e elements ih =>
    rw [List.zipIdx_cons, List.mapM_cons]
    refine (Returns.seq_iff fun _ => (Returns.tail_iff fun _ => Returns.ok _).trans ih).trans ⟨?_, ?_⟩
    · rintro ⟨h, xs, rfl⟩
      obtain ⟨s, rfl⟩ := returns_textAt_iff.mp h
      exact ⟨s :: xs, rfl⟩
    · rintro ⟨xs, hxs⟩
      cases xs with
      | nil => cases hxs
      | cons s xs =>
        obtain ⟨rfl, rfl⟩ := List.cons.inj hxs
        exact ⟨Returns.ok s, xs, rfl⟩

theorem returns_joinTexts_iff {separator : String} {v : Value} :
    Returns (joinTexts separator v) ↔ ∃ xs : List String, v.elements? = some (xs.map .str) := by
  unfold joinTexts
  cases v.elements? with
  | none => exact ⟨nofun, nofun⟩
  | some elements =>
    refine ((Returns.tail_iff fun _ => Returns.ok _).trans returns_textsAt_iff).trans ?_
    exact exists_congr fun xs => ⟨congrArg some, Option.some.inj⟩

/-- The characters of a text are texts. -/
theorem exists_elements_of_text (s : String) : ∃ xs : List String, (Value.str s).elements? = some (xs.map .str) :=
  ⟨s.toList.map Char.toString, by rw [List.map_map]; rfl⟩

theorem returns_colors_iff {v : Value} : Returns (do return "colors: " ++ (← joinTexts ", "
    (← firstElements 4 v))) ↔
      (∃ s, v = .str s) ∨ ∃ items, v = .list items ∧ ∃ xs : List String, items.take 4 = xs.map .str := by
  have hjoined : ∀ w : Value, Returns (do return "colors: " ++ (← joinTexts ", " w) : Except Fault String) ↔
      ∃ xs : List String, w.elements? = some (xs.map .str) := fun w =>
    (Returns.tail_iff fun _ => Returns.ok _).trans returns_joinTexts_iff
  cases v with
  | str s =>
    have hfirst : firstElements 4 (.str s) = .ok (.str (String.ofList (s.toList.take 4))) := rfl
    have hreturns := (hjoined (.str (String.ofList (s.toList.take 4)))).mpr (exists_elements_of_text _)
    exact iff_of_true (Returns.bind_iff.mpr ⟨_, hfirst, hreturns⟩) (.inl ⟨s, rfl⟩)
  | list items =>
    refine (hjoined (.list (items.take 4))).trans ⟨?_, ?_⟩
    · rintro ⟨xs, hxs⟩
      exact .inr ⟨items, rfl, xs, Option.some.inj hxs⟩
    · rintro (⟨_, h⟩ | ⟨_, h, xs, hxs⟩)
      · cases h
      · obtain rfl := Value.list.inj h
        exact ⟨xs, congrArg some hxs⟩
  | _ => exact ⟨nofun, by rintro (⟨_, h⟩ | ⟨_, h, -⟩) <;> cases h⟩

theorem returns_part_iff {key : String} {say : Value → Except Fault String} {p : Prop}
    (h : Returns (say (Fields.value filters key)) ↔ p) :
    Returns (part (.object filters) key say) ↔ ((Fields.value filters key).isGiven = true → p) := by
  show Returns (if (Fields.value filters key).isGiven then _ else _) ↔ _
  split
  · rename_i hgiven
    exact Returns.map_iff.trans (h.trans ⟨fun hp _ => hp, fun hp => hp hgiven⟩)
  · rename_i hgiven
    exact iff_of_true (Returns.ok _) fun hg => absurd hg hgiven

/-- An amount is at fault only over a whole number that is too long. -/
theorem returns_money_iff {v : Value} : Returns (money v) ↔ v.isWritable = true := by
  have hwritten : Returns (v.writtenText.map ("$" ++ ·)) ↔ v.isWritable = true := by
    refine Returns.map_iff.trans (Returns.map_iff.trans ?_)
    unfold Value.demandWritable
    split
    · rename_i h
      exact iff_of_true (Returns.ok _) h
    · rename_i h
      exact iff_of_false (Returns.not_error _) h
  cases v with
  | float x =>
    refine iff_of_true ?_ rfl
    unfold money
    dsimp only
    split <;> exact Returns.ok _
  | _ => exact hwritten

theorem returns_pricePart_iff {price : Value} :
    Returns (pricePart price) ↔ ∀ key ∈ ["min", "max"], (price.get key).isWritable = true := by
  have hbounds : (∀ key ∈ ["min", "max"], (price.get key).isWritable = true) ↔
      (price.get "min").isWritable = true ∧ (price.get "max").isWritable = true := by
    rw [List.forall_mem_cons, List.forall_mem_singleton]
  rw [hbounds]
  unfold pricePart
  split
  · rename_i hmin hmax
    rw [hmin, hmax]
    exact iff_of_true (Returns.ok _) ⟨rfl, rfl⟩
  · rename_i hmin _
    rw [hmin]
    refine ((Returns.tail_iff fun _ => Returns.ok _).trans returns_money_iff).trans ?_
    exact (and_iff_right rfl).symm
  · rename_i hmax _
    rw [hmax]
    refine ((Returns.tail_iff fun _ => Returns.ok _).trans returns_money_iff).trans ?_
    exact (and_iff_left rfl).symm
  · refine (Returns.seq_iff fun _ => ?_).trans (and_congr_left' returns_money_iff)
    exact (Returns.tail_iff fun _ => Returns.ok _).trans returns_money_iff

theorem returns_pricePartOf_iff : Returns (pricePartOf (.object filters)) ↔
    ((Fields.value filters "price").isGiven = true →
      ∃ bounds, Fields.value filters "price" = .object bounds ∧
        ∀ key ∈ ["min", "max"], (Fields.value bounds key).isWritable = true) := by
  have hget : (Value.object filters).get "price" = Fields.value filters "price" := rfl
  unfold pricePartOf
  rw [hget]
  generalize Fields.value filters "price" = v
  cases v with
  | object bounds =>
    refine returns_pricePart_iff.trans ⟨fun h _ => ⟨bounds, rfl, h⟩, fun h => ?_⟩
    cases bounds with
    | nil => exact fun _ _ => rfl
    | cons p rest =>
      obtain ⟨_, he, hbounds⟩ := h rfl
      exact Value.object.inj he ▸ hbounds
  | _ =>
    dsimp only
    split
    · rename_i hgiven
      refine iff_of_false (Returns.not_error _) fun h => ?_
      obtain ⟨_, hobject, -⟩ := h hgiven
      cases hobject
    · rename_i hgiven
      exact iff_of_true (Returns.ok _) fun h => absurd h hgiven

/-- **Filters are summed up** exactly if the fields that are listed hold texts, and the price is an object with bounds
that can be written. -/
theorem returns_summary_iff : Returns (summary (.object filters)) ↔ Sayable filters := by
  have hparts : Returns (parts (.object filters)) ↔ Sayable filters := by
    refine (Returns.seq_iff fun _ => Returns.seq_iff fun _ => Returns.seq_iff fun _ => Returns.seq_iff fun _ =>
      (Returns.tail_iff fun _ => Returns.ok _).trans returns_pricePartOf_iff).trans ?_
    rw [returns_part_iff returns_joinTexts_iff, returns_part_iff (Returns.map_iff.trans returns_joinTexts_iff),
      returns_part_iff (Returns.map_iff.trans returns_joinTexts_iff), returns_part_iff returns_colors_iff]
    constructor
    · rintro ⟨hcategories, hoccasion, hseason, hcolors, hprice⟩
      refine ⟨fun key hkey => ?_, hcolors, hprice⟩
      simp only [List.mem_cons, List.not_mem_nil, or_false] at hkey
      rcases hkey with rfl | rfl | rfl
      · exact hcategories
      · exact hoccasion
      · exact hseason
    · intro h
      exact ⟨h.lists _ (by decide), h.lists _ (by decide), h.lists _ (by decide), h.colors, h.price⟩
  unfold summary
  refine (Returns.tail_iff fun said => ?_).trans hparts
  cases said <;> exact Returns.ok _

/-! ### replies -/

/-- If the value says something, it can be gone through, and what comes up can be looked up: it is no list and
no object. -/
def ListsKeys (v : Value) : Prop :=
  v.isGiven = true → ∃ elements, v.elements? = some elements ∧ ∀ e ∈ elements, e.key?.isSome = true

theorem returns_checkLookedUp_iff {elements : List Value} :
    Returns (elements.forM checkLookedUp) ↔ ∀ e ∈ elements, e.key?.isSome = true := by
  induction elements with
  | nil => exact iff_of_true (Returns.ok _) fun _ he => absurd he List.not_mem_nil
  | cons e elements ih =>
    have hlooked : Returns (checkLookedUp e) ↔ e.key?.isSome = true := by
      cases e with
      | list | object => exact ⟨nofun, nofun⟩
      | _ => exact iff_of_true (Returns.ok _) rfl
    rw [List.forall_mem_cons, ← hlooked]
    exact Returns.seq_iff fun _ => ih

theorem returns_complementsFor_iff {text : List Char} :
    Returns (Reply.complementsFor text filters) ↔ ListsKeys (Fields.value filters "include_categories") := by
  unfold Reply.complementsFor ListsKeys
  generalize Fields.value filters "include_categories" = categories
  dsimp only
  split
  · rename_i hgiven
    unfold complements Value.demandOptionalElements Value.demandElements
    rw [if_pos hgiven]
    cases categories.elements? with
    | none =>
      refine iff_of_false (Returns.not_error _) fun h => ?_
      obtain ⟨_, hnone, -⟩ := h hgiven
      cases hnone
    | some elements =>
      refine ((Returns.tail_iff fun _ => Returns.ok _).trans returns_checkLookedUp_iff).trans ⟨?_, ?_⟩
      · exact fun h _ => ⟨elements, rfl, h⟩
      · intro h
        obtain ⟨_, he, hkeys⟩ := h hgiven
        exact Option.some.inj he ▸ hkeys
  · rename_i hgiven
    exact iff_of_true (Returns.ok _) fun h => absurd h hgiven

/-- Filters to which there is a reply: categories that can be looked up, and filters that can be summed up
unless an event still lacks something. -/
structure Answerable (intent : Intent) (filters : Fields) : Prop where
  categories : ListsKeys (Fields.value filters "include_categories")
  sayable : intent.isEventFlow = false ∨ missingSlots filters = [] → Sayable filters

/-- **Which merged filters get a reply.** -/
theorem returns_ofMerged_iff (text : List Char) {intent : Intent} :
    Returns (Reply.ofMerged text intent filters) ↔ Answerable intent filters := by
  have hpending : (if intent.isEventFlow then missingSlots filters else []) = [] ↔
      intent.isEventFlow = false ∨ missingSlots filters = [] := by
    cases intent.isEventFlow with
    | true => exact ⟨.inr, fun h => h.resolve_left nofun⟩
    | false => exact iff_of_true rfl (.inl rfl)
  have hrest : ∀ (missing : List Slot) (message : String), Returns (do
      let complements ← Reply.complementsFor text filters
      return (⟨message, filters, missing.isEmpty, missing.map Slot.name, complements,
        chips (.object filters) complements.head?, false⟩ : Reply)) ↔
      ListsKeys (Fields.value filters "include_categories") := fun missing message =>
    (Returns.tail_iff fun _ => Returns.ok _).trans returns_complementsFor_iff
  unfold Reply.ofMerged
  generalize (if intent.isEventFlow then missingSlots filters else []) = missing at hpending
  cases missing with
  | nil =>
    refine (Returns.seq_iff fun message => hrest [] message).trans ?_
    rw [returns_summary_iff]
    exact ⟨fun ⟨hsay, hkeys⟩ => ⟨hkeys, fun _ => hsay⟩, fun h => ⟨h.sayable (hpending.mp rfl), h.categories⟩⟩
  | cons slot slots =>
    refine (hrest (slot :: slots) _).trans ⟨fun hkeys => ⟨hkeys, fun h => ?_⟩, Answerable.categories⟩
    cases hpending.mpr h

end

end Dialogue

namespace Message

open Journal Text

/-! ### pictures -/

/-- **The picture of a piece is read** exactly if the kind of the piece, if it says something, is a text. -/
theorem returns_imageFiltersOf_iff {analysis : Fields} : Returns (imageFiltersOf (.object analysis)) ↔
    ((Fields.value analysis "item_type").isGiven = true → ∃ s, Fields.value analysis "item_type" = .str s) := by
  show Returns (imageFilters analysis) ↔ _
  unfold imageFilters Value.demandOptionalText
  refine (Returns.tail_iff fun _ => Returns.ok _).trans ?_
  generalize Fields.value analysis "item_type" = piece
  split
  · rename_i hgiven
    cases piece with
    | str s => exact iff_of_true (Returns.ok _) fun _ => ⟨s, rfl⟩
    | _ =>
      refine iff_of_false (Returns.not_error _) fun h => ?_
      obtain ⟨_, htext⟩ := h hgiven
      cases htext
  · rename_i hgiven
    exact iff_of_true (Returns.ok _) fun h => absurd h hgiven

/-! ### messages -/

/-- The entry about what has been read is in the way only if somebody debugs and it cannot be written. -/
def Extraction.IsNoted (c : Context) (e : Extraction) : Prop :=
  c.debugging = true → e.entry.isWritable = true

theorem outcomeWhen_extracted_eq {text : List Char} {known : List String} {e : Extraction}
    (he : extractWith text (.ok known) = .ok e) (debugging : Bool) :
    (extracted text (.ok known)).outcomeWhen debugging =
      if debugging && !e.entry.isWritable then .error .tooLongToWrite else .ok e := by
  have hlasting : (Entry.lastingMessages.any (·.isPrefixOf e.entry.message)) = false :=
    show (Entry.lastingMessages.any (·.isPrefixOf "filters extracted")) = false by decide +kernel
  have hkept : e.entry.isKept debugging = debugging := by
    unfold Entry.isKept
    rw [hlasting, Bool.or_false]
    cases debugging <;> rfl
  unfold extracted
  rw [he]
  show (Traced.outcomeWhen debugging (if (clean text).isEmpty then pure e
    else Traced.note e.entry >>= fun _ => pure e)) = _
  split
  · rename_i hblank
    rw [extractWith_eq, if_pos hblank] at he
    obtain rfl := Except.ok.inj he
    show Except.ok Extraction.empty = if debugging && false then _ else _
    rw [Bool.and_false, if_neg Bool.false_ne_true]
  · rw [Traced.outcomeWhen_bind (Traced.steady_note _) fun _ => Traced.steady_pure _,
      Traced.outcomeWhen_note, hkept]
    split <;> rfl

theorem returns_extracted_iff {text : List Char} {known : List String} {e : Extraction}
    (he : extractWith text (.ok known) = .ok e) (c : Context) :
    Returns ((extracted text (.ok known)).outcomeWhen c.debugging) ↔ e.IsNoted c := by
  rw [outcomeWhen_extracted_eq he]
  unfold Extraction.IsNoted
  cases c.debugging <;> cases e.entry.isWritable <;> simp [Returns.ok, Returns.not_error]

end Message

namespace Dialogue

open Filters Journal Message Text

/-- The text of a message that may be left out. -/
def textOf (text : Option String) : Value :=
  text.elim .null .str

theorem demandOptionalText_textOf (text : Option String) (operation : String) :
    (textOf text).demandOptionalText operation = .ok (text.getD "") := by
  cases text with
  | none => rfl
  | some s => exact demandOptionalText_str s operation

/-- **What comes to something.** Payloads are always normalized, merged and coerced. The picture of a piece is
at fault over a kind that is no text. A message is read unless the entry about it cannot be written, and is
answered if it is a reset, or if it is read and the merged filters get a reply. -/
theorem core_returns_iff (c : Context) {base delta : Fields} (analysis : Fields) (text : Option String)
    (known : List String) (hbase : Named base) (hdelta : Named delta)
    (hwritable : Value.haveWritable base = true)
    (htext : ∀ s ∈ text, RunsWithin Numeral.maxDigits s.toList) :
    Returns (normalizeValue (.object base)) ∧
    Returns ((merged (.object base) (.object delta)).runFrom c).1 ∧
    Returns (coerceValue (.object base)) ∧
    (Returns (imageFiltersOf (.object analysis)) ↔
      ((Fields.value analysis "item_type").isGiven = true →
        ∃ s, Fields.value analysis "item_type" = .str s)) ∧
    ∃ e, extractWith (text.getD "").toList (.ok known) = .ok e ∧
      (Returns ((extractedFrom (textOf text) (.ofStrings known)).runFrom c).1 ↔ e.IsNoted c) ∧
      (Returns ((replied (textOf text) (.object base) (.ofStrings known)).runFrom c).1 ↔
        isReset (text.getD "").toList = true ∨
          e.IsNoted c ∧ Answerable e.intent (merge base e.filters)) := by
  have hruns : RunsWithin Numeral.maxDigits (text.getD "").toList := by
    cases text with
    | none => exact fun run hrun _ => Nat.le_trans hrun.length_le (Nat.zero_le _)
    | some s => exact htext s rfl
  obtain ⟨e, he⟩ := exists_extraction_of_runs known hruns
  have hknown : brandsOf (.ofStrings known) = .ok (known.filter (!·.isEmpty)) :=
    (brandsOf_list _).trans (brandNames_texts known)
  have hnamed := (extractWith_named (text.getD "").toList known).trans he
  have hextracted := returns_extracted_iff hnamed c
  refine ⟨⟨_, rfl⟩, ?_, ⟨_, coerceValue_eq hwritable⟩, returns_imageFiltersOf_iff, e, he, ?_, ?_⟩
  · rw [(steady_merged _ _).outcome c, outcomeWhen_merged hbase hdelta]
    exact Returns.ok _
  · rw [(Assistant.Turn.steady_extractedFrom _ _).outcome c]
    unfold extractedFrom
    rw [demandOptionalText_textOf, hknown]
    exact hextracted
  · rw [(steady_replied _ _ _).outcome c]
    show Returns ((replied _ _ (.list _)).outcomeWhen _) ↔ _
    rw [Assistant.Turn.outcomeWhen_replied (demandOptionalText_textOf text "strip"), brandNames_texts]
    cases isReset (text.getD "").toList with
    | true => exact iff_of_true (Returns.ok _) (.inl rfl)
    | false =>
      rw [if_neg Bool.false_ne_true, or_iff_right Bool.false_ne_true, Returns.bind_iff, ← hextracted]
      have hconcluded : Returns ((concluded (trim (text.getD "").toList) (.object base) e).outcomeWhen c.debugging) ↔
          Answerable e.intent (merge base e.filters) := by
        refine Iff.trans ?_ (returns_ofMerged_iff (trim (text.getD "").toList))
        constructor
        · rintro ⟨r, hr⟩
          exact ⟨r, ofMerged_of_concluded (orElse_object base) hr⟩
        · rintro ⟨r, hr⟩
          exact ⟨r, outcomeWhen_concluded (orElse_object base) hbase (holds_extractWith he).1.named hr _⟩
      constructor
      · rintro ⟨a, ha, hr⟩
        obtain rfl := Except.ok.inj ((extractWith_of_extracted ha).symm.trans hnamed)
        exact ⟨⟨a, ha⟩, hconcluded.mp hr⟩
      · rintro ⟨⟨a, ha⟩, hr⟩
        obtain rfl := Except.ok.inj ((extractWith_of_extracted ha).symm.trans hnamed)
        exact ⟨a, ha, hconcluded.mpr hr⟩

/-- A number for the kind of a piece is at fault, and so are categories that are merely true, even without a
message. -/
theorem core_fails_of_scalars :
    let flagged : Fields := [("include_categories", .bool true)]
    Named flagged ∧ Named [] ∧ Value.haveWritable flagged = true ∧
    (∀ s ∈ (none : Option String), RunsWithin Numeral.maxDigits s.toList) ∧
    ¬ Returns (imageFiltersOf (.object [("item_type", .int 5)])) ∧
    ¬ Returns ((replied (textOf none) (.object flagged) (.ofStrings [])).runFrom (.initial false)).1 := by
  have hnamed : Named [("include_categories", .bool true)] :=
    fun p hp => ⟨"include_categories", congrArg Prod.fst (List.mem_singleton.mp hp)⟩
  have hnone : Named [] := fun _ hp => absurd hp List.not_mem_nil
  obtain ⟨-, -, -, himage, e, he, -, hreply⟩ := core_returns_iff (.initial false) [("item_type", .int 5)] none []
    hnamed hnone rfl nofun
  obtain rfl : Extraction.empty = e := Except.ok.inj he
  refine ⟨hnamed, hnone, rfl, nofun, fun h => ?_, fun h => ?_⟩
  · obtain ⟨s, hs⟩ := himage.mp h rfl
    cases hs
  · obtain hreset | ⟨-, hanswerable⟩ := hreply.mp h
    · exact absurd hreset (by decide)
    · obtain ⟨elements, helements, -⟩ := hanswerable.categories rfl
      cases helements

end Dialogue

end Outfitter
