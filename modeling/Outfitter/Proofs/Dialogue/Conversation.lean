import Outfitter.Proofs.Dialogue.Planned
import Outfitter.Proofs.Message.Heard
import Outfitter.Proofs.Value.Solid

/-!
Conversations: the filters that a turn returns are the active ones of the next turn.

A turn that is answered by a fault leaves the filters as they were. Whatever is said, the filters hold only
what may be spoken (`Proper.hear`, `Conversation.induction`).
-/

namespace Outfitter

namespace Filters

theorem Lists.isSolid {P : String → Prop} {v : Value} (h : Lists P v) : v.isSolid = true := by
  obtain ⟨xs, rfl, hxs⟩ := h
  have hsolid : Value.areSolid (xs.map Value.str) = true := by
    refine (Value.areSolid_iff _).mpr fun v hv => ?_
    obtain ⟨x, hx, rfl⟩ := List.mem_map.mp hv
    show (!x.isEmpty) = true
    rw [hxs.texts x hx]
    rfl
  have hne : (xs.map Value.str).isEmpty = false := by
    cases xs with
    | nil => exact absurd rfl hxs.nonempty
    | cons => rfl
  show (!(xs.map Value.str).isEmpty && Value.areSolid (xs.map Value.str)) = true
  rw [hne, hsolid]
  rfl

theorem Prices.isSolid {B : Value → Prop} {v : Value} (h : Prices B v) (hb : ∀ v, B v → IsNumber v) :
    v.isSolid = true := by
  obtain ⟨fields, rfl, hf⟩ := h
  have hsolid : Value.haveSolid fields = true := by
    refine (Value.haveSolid_iff _).mpr fun p hp => ?_
    rcases hb p.2 (hf.each p hp).2 with ⟨n, he⟩ | ⟨x, he⟩ <;> rw [he] <;> rfl
  have hne : fields.isEmpty = false := by
    cases fields with
    | nil => exact absurd rfl hf.nonempty
    | cons => rfl
  show (!fields.isEmpty && Value.haveSolid fields) = true
  rw [hne, hsolid]
  rfl

end Filters

namespace Message

open Filters

/-! ### what may be spoken -/

/-- A whole number as a bound stays one when prices are merged. -/
theorem natural_of_boundQuantity {v : Value} (h : IsNatural v) {q : Quantity} (hq : q ∈ boundQuantity? v) :
    IsNatural q.toValue := by
  obtain ⟨n, rfl⟩ := h
  have hdouble : Quantity.ofDouble? (Double.ofInt n) = some q := hq
  cases hx : Double.ofInt n with
  | infinite | nan =>
    rw [hx] at hdouble
    cases hdouble
  | finite x =>
    obtain ⟨hwhole, hpositive⟩ := Double.isWhole_of_ofInt hx
    rw [hx] at hdouble
    obtain rfl : (if x.isWhole then Quantity.whole x.truncate else .fraction x) = q :=
      Option.some.inj hdouble
    rw [if_pos hwhole]
    refine ⟨x.truncate.toNat, congrArg Value.int (Int.toNat_of_nonneg ?_).symm⟩
    unfold Double.Finite.truncate Double.Finite.units
    rw [hpositive, if_neg Bool.false_ne_true]
    exact Int.natCast_nonneg _

theorem Spoken.pruned? {known : List String} {name : String} {v : Value} (h : Spoken known name v) :
    Value.pruned? v = some v := by
  unfold Spoken at h
  split at h
  · exact h.pruned? fun _ => IsNatural.isNumber
  split at h
  · subst h
    rfl
  · exact h.pruned?

theorem Spoken.isSolid {known : List String} {name : String} {v : Value} (h : Spoken known name v) :
    v.isSolid = true := by
  unfold Spoken at h
  split at h
  · exact h.isSolid fun _ => IsNatural.isNumber
  split at h
  · subst h
    rfl
  · exact h.isSolid

/-- What has been spoken can be merged into what has been spoken before. -/
theorem merges_spoken (known : List String) : Merges (Spoken known) (Spoken known) where
  kept _ _ h := h.pruned?
  list name hname b v hb hv := by
    have hleaves := leaves_union (fun w hw => (spoken_list hname w).mp (hb w hw)) ((spoken_list hname v).mp hv)
    exact fun u hu => (spoken_list hname u).mpr (hleaves u hu)
  price b v hb hv :=
    leaves_mergePrice hb hv (fun _ => IsNatural.isNumber) fun _ h _ hq =>
      natural_of_boundQuantity (h.elim id id) hq
  scalar _ _ v hv u hu := by
    rw [hv.pruned?] at hu
    exact Option.some.inj hu ▸ hv

end Message

namespace Dialogue

open Filters Journal Message

/-! ### conversations -/

/-- The filters that are carried from turn to turn, and the journal of the turns. -/
structure Conversation where
  filters : Fields
  journal : Context

namespace Conversation

/-- The answer to a message when these brands are known, and the journal after it. -/
def answer (known : List String) (s : Conversation) (text : String) : Except Fault Reply × Context :=
  (replied (.str text) (.object s.filters) (.ofStrings known)).runFrom s.journal

/-- The conversation after one more message. What is answered by a fault leaves the filters. -/
def hear (known : List String) (s : Conversation) (text : String) : Conversation where
  filters :=
    match (s.answer known text).1 with
    | .ok r => r.filters
    | .error _ => s.filters
  journal := (s.answer known text).2

/-- The conversation after some messages, with no filters at the beginning. -/
def after (known : List String) (journal : Context) (texts : List String) : Conversation :=
  texts.foldl (hear known) ⟨[], journal⟩

variable {known : List String} {s : Conversation} {text : String} {P : Conversation → Prop}

theorem after_append (known : List String) (journal : Context) (texts : List String) (text : String) :
    after known journal (texts ++ [text]) = (after known journal texts).hear known text :=
  List.foldl_append ..

/-- What holds at the beginning and is kept by every message holds throughout. -/
theorem induction (journal : Context) (hbegin : P ⟨[], journal⟩) (hstep : ∀ s text, P s → P (s.hear known text))
    (texts : List String) : P (after known journal texts) := by
  have hfold : ∀ s, P s → P (texts.foldl (hear known) s) := by
    induction texts with
    | nil => exact fun _ h => h
    | cons text texts ih => exact fun s h => ih _ (hstep s text h)
  exact hfold _ hbegin

/-- The answer depends on the journal only by whether somebody debugs. -/
theorem answer_eq (known : List String) (s : Conversation) (text : String) : (s.answer known text).1 =
    (replied (.str text) (.object s.filters) (.list (known.map .str))).outcomeWhen s.journal.debugging :=
  (steady_replied ..).outcome s.journal

theorem hear_of_ok {r : Reply} (h : (s.answer known text).1 = .ok r) : (s.hear known text).filters = r.filters := by
  unfold hear
  rw [h]

/-- **What a message is answered with**: a reset wipes the filters, and what has been read in anything else is
merged into them. -/
theorem cases_of_answer {r : Reply} (h : (s.answer known text).1 = .ok r) :
    isReset text.toList = true ∧ r = Reply.afterReset ∨
      isReset text.toList = false ∧ ∃ e, extract text known = .ok e ∧
        Reply.ofMerged (Text.trim text.toList) e.intent (merge s.filters e.filters) = .ok r := by
  have hextract : extract text known = extractWith text.toList (brandNames (known.map .str)) := by
    rw [brandNames_texts]
    exact (extractWith_named ..).symm
  rw [answer_eq] at h
  rw [hextract]
  exact cases_of_replied (orElse_object s.filters) h

/-- The filters after a message are those before it, none, or merged with those of the message. -/
theorem hear_cases (known : List String) (s : Conversation) (text : String) :
    (s.hear known text).filters = s.filters ∨ (s.hear known text).filters = [] ∨
      ∃ e, extract text known = .ok e ∧
        (s.hear known text).filters = merge s.filters e.filters := by
  cases h : (s.answer known text).1 with
  | error f =>
    left
    unfold hear
    rw [h]
  | ok r =>
    rw [hear_of_ok h]
    rcases cases_of_answer h with ⟨-, rfl⟩ | ⟨-, e, he, hr⟩
    · exact .inr (.inl rfl)
    · exact .inr (.inr ⟨e, he, (filters_of_ofMerged hr).1⟩)

/-! ### what the filters hold -/

/-- The filters hold what may be spoken, and ask for what is in stock if they ask for anything. -/
structure Proper (known : List String) (filters : Fields) : Prop where
  holds : Holds (Spoken known) filters
  stock : filters ≠ [] → Fields.get? filters "in_stock" = some (.bool true)

theorem proper_nil (known : List String) : Proper known [] :=
  ⟨holds_nil, fun h => absurd rfl h⟩

theorem Proper.hear (h : Proper known s.filters) (text : String) :
    Proper known (s.hear known text).filters := by
  rcases hear_cases known s text with he | he | ⟨e, hextract, he⟩
  · rwa [he]
  · rw [he]
    exact proper_nil known
  · obtain ⟨hholds, hstock⟩ := holds_extractWith hextract
    rw [he]
    refine ⟨h.holds.merge (merges_spoken known) hholds, fun _ => ?_⟩
    have hlater : laterScalar e.filters "in_stock" = some (.bool true) := by
      unfold laterScalar Fields.value
      rw [hstock]
      rfl
    rw [get?_merge h.holds.nodup, get?_overlay_scalar (by decide), hlater]
    rfl

theorem proper_after (known : List String) (journal : Context) (texts : List String) :
    Proper known (after known journal texts).filters :=
  induction (P := fun s => Proper known s.filters) journal (proper_nil known) (fun _ text h => h.hear text) texts

/-- The filters of a conversation are well formed. -/
structure WellFormed (known : List String) (filters : Fields) : Prop where
  nodup : filters.keys.Nodup
  /-- There are no fields but those that messages fill. -/
  keys : ∀ key ∈ filters.keys, ∃ name ∈ spokenFields, key = .text name
  /-- Nothing at any depth is null or empty. -/
  solid : ∀ p ∈ filters, p.2.isSolid = true
  /-- A list holds texts that may stand in it, each once. -/
  lists : ∀ name ∈ spokenFields, name ≠ "price" → name ≠ "in_stock" → ∀ v, Fields.get? filters name = some v →
    ∃ xs, v = .ofStrings xs ∧ xs.Nodup ∧ ∀ x ∈ xs, x ≠ "" ∧ Speakable known name x
  /-- A price holds a least or a greatest amount, or both. -/
  price : ∀ v, Fields.get? filters "price" = some v → ∃ bounds : Fields, v = .object bounds ∧
    bounds ≠ [] ∧ bounds.keys.Nodup ∧ ∀ p ∈ bounds, (p.1 = "min" ∨ p.1 = "max") ∧ ∃ n : Nat, p.2 = .int n
  stock : filters ≠ [] → Fields.get? filters "in_stock" = some (.bool true)

theorem Proper.wellFormed {filters : Fields} (h : Proper known filters) : WellFormed known filters where
  nodup := h.holds.nodup
  keys key hkey := by
    obtain ⟨p, hp, rfl⟩ := List.mem_map.mp hkey
    obtain ⟨name, he, hspoken⟩ := h.holds.values p hp
    exact ⟨name, hspoken.name, he⟩
  solid p hp := by
    obtain ⟨name, -, hspoken⟩ := h.holds.values p hp
    exact hspoken.isSolid
  lists name _ hprice hstock v hv := by
    have hspoken := h.holds.get? hv
    unfold Spoken at hspoken
    rw [if_neg hprice, if_neg hstock] at hspoken
    obtain ⟨xs, rfl, hxs⟩ := hspoken
    refine ⟨xs, rfl, hxs.nodup, fun x hx => ⟨?_, hxs.each x hx⟩⟩
    rintro rfl
    cases hxs.texts "" hx
  price v hv := by
    obtain ⟨bounds, rfl, hbounds⟩ : Prices IsNatural v := h.holds.get? hv
    exact ⟨bounds, rfl, hbounds.nonempty, hbounds.nodup, hbounds.each⟩
  stock := h.stock

/-- **The filters of a conversation are well formed**, whatever has been said in it. -/
theorem wellFormed_after (known : List String) (journal : Context) (texts : List String) :
    WellFormed known (after known journal texts).filters :=
  (proper_after known journal texts).wellFormed

end Conversation

end Dialogue

end Outfitter
