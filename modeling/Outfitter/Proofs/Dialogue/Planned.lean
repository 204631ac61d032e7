import Outfitter.Assistant.Direct
import Outfitter.Proofs.Assistant.Turn
import Outfitter.Proofs.Dialogue.Reply
import Outfitter.Proofs.Journal.Turns
import Outfitter.Proofs.Journal.Writable
import Outfitter.Proofs.Message.Extraction
import Outfitter.Proofs.Value.Order

/-!
A message that can be read gets a reply.

The filters of the turns before are merged with those of the message, every entry about it can be
written, and the reply is the one to the merged filters (`exists_reads`).
-/

namespace Outfitter

namespace Filters

variable {filters base delta : Fields}

theorem Named.exists_names (h : Named filters) :
    ∃ names : List String, filters.map (fun p => p.1.toValue) = names.map Value.str := by
  induction filters with
  | nil => exact ⟨[], rfl⟩
  | cons p rest ih =>
    obtain ⟨hp, hrest⟩ := List.forall_mem_cons.mp h
    obtain ⟨names, hnames⟩ := ih hrest
    obtain ⟨name, hname⟩ := hp
    exact ⟨name :: names, by rw [List.map_cons, List.map_cons, hnames, hname]; rfl⟩

theorem orElse_object (fields : Fields) : (Value.object fields).orElse (.object []) = .object fields := by
  cases fields <;> rfl

/-- The names of filters can be sorted. -/
theorem Named.exists_sorted (h : Named filters) :
    ∃ names : List String, ((Value.object filters).orElse (.object [])).sortedElements =
      .ok (names.map .str) := by
  obtain ⟨names, hnames⟩ := h.exists_names
  obtain ⟨out, hout⟩ := Value.exists_sorted names
  refine ⟨out, ?_⟩
  rw [orElse_object]
  show Value.sorted (filters.map fun p => p.1.toValue) = _
  rw [hnames]
  exact hout

/-- Filters are merged without a fault, and the entry about it can be written. -/
theorem outcomeWhen_merged (hb : Named base) (hd : Named delta) (debugging : Bool) :
    (merged (.object base) (.object delta)).outcomeWhen debugging = .ok (merge base delta) := by
  obtain ⟨names, hnames⟩ := hb.exists_sorted
  obtain ⟨names', hnames'⟩ := hd.exists_sorted
  have hmerge : mergeValues (.object base) (.object delta) = .ok (merge base delta) := by
    show (if _ && false && _ then _ else
      (((Value.object base).orElse (.object [])).sortedElements).map fun _ => merge base delta) = _
    rw [hnames, Bool.and_false, Bool.false_and, if_neg Bool.false_ne_true]
    rfl
  have hwritable : (mergeEntry (names.map .str) (names'.map .str)).isWritable = true := by
    refine Journal.Entry.isWritable_of_data ?_
    show (Value.isWritable (.list _) && (Value.isWritable (.list _) && true)) = true
    rw [Value.isWritable_texts, Value.isWritable_texts]
    rfl
  have hnoted : merged (.object base) (.object delta) = (do
      Journal.Traced.note (mergeEntry (names.map .str) (names'.map .str))
      return merge base delta) := by
    unfold merged
    rw [hmerge]
    dsimp only
    rw [hnames, hnames']
    rfl
  rw [hnoted, Journal.Traced.outcomeWhen_bind (Journal.Traced.steady_note _) fun _ =>
    Journal.Traced.steady_pure _, Journal.Traced.outcomeWhen_note_of_writable debugging hwritable]
  rfl

end Filters

namespace Message

open Filters Journal

/-- A message that can be read is read without a fault if its filters can be written. -/
theorem outcomeWhen_extracted {text : List Char} {known : Except Fault (List String)} {e : Extraction}
    (he : extractWith text known = .ok e) (hfilters : Value.haveWritable e.filters = true) (debugging : Bool) :
    (extracted text known).outcomeWhen debugging = .ok e := by
  have hwritable : e.entry.isWritable = true := by
    refine Entry.isWritable_of_data ?_
    show (Value.haveWritable e.filters && _) = true
    rw [hfilters]
    rfl
  unfold extracted
  rw [he]
  show (Traced.outcomeWhen debugging (if (Text.clean text).isEmpty then pure e
    else Traced.note e.entry >>= fun _ => pure e)) = _
  split
  · rfl
  · rw [Traced.outcomeWhen_bind (Traced.steady_note _) fun _ => Traced.steady_pure _,
      Traced.outcomeWhen_note_of_writable debugging hwritable]
    rfl

end Message

namespace Dialogue

open Filters Journal Message

theorem Reply.isWritable_entry (r : Reply) : r.entry.isWritable = true := by
  refine Entry.isWritable_of_data ?_
  show (Value.isWritable (.list _) && (true && (Value.isWritable (.list _) && true))) = true
  rw [Value.isWritable_texts, Value.isWritable_texts]
  rfl

/-- A message that has been read is answered. -/
theorem outcomeWhen_concluded {trimmed : List Char} {active : Value} {base : Fields} {e : Extraction}
    (ha : active.orElse (.object []) = .object base) (hb : Named base) (he : Named e.filters) {r : Reply}
    (hr : Reply.ofMerged trimmed e.intent (merge base e.filters) = .ok r) (debugging : Bool) :
    (concluded trimmed active e).outcomeWhen debugging = .ok r := by
  have hmerged := outcomeWhen_merged hb he debugging
  generalize merge base e.filters = merged at hr hmerged
  have hreply : (do
      let reply ← liftExcept (Reply.ofMerged trimmed e.intent merged)
      Traced.note reply.entry
      return reply : Traced Reply).outcomeWhen debugging = .ok r := by
    rw [hr]
    show (Traced.note r.entry >>= fun _ => pure r).outcomeWhen debugging = _
    rw [Traced.outcomeWhen_bind (Traced.steady_note _) fun _ => Traced.steady_pure _,
      Traced.outcomeWhen_note_of_writable debugging r.isWritable_entry]
    rfl
  unfold concluded
  rw [ha, Traced.outcomeWhen_bind (steady_merged ..) fun _ =>
    (Traced.steady_liftExcept _).bind fun _ => (Traced.steady_note _).bind fun _ => Traced.steady_pure _,
    hmerged]
  exact hreply

/-! ### what has been answered -/

theorem demandOptionalText_str (s operation : String) :
    (Value.str s).demandOptionalText operation = .ok s := by
  unfold Value.demandOptionalText
  split
  · rfl
  · rename_i h
    have hempty : s.isEmpty = true := by
      cases he : s.isEmpty with
      | true => rfl
      | false => exact absurd (congrArg (!·) he) h
    rw [String.isEmpty_iff.mp hempty]

/-- What a reply is made of. -/
theorem parts_of_ofMerged {text : List Char} {intent : Intent} {filters : Fields} {r : Reply}
    (h : Reply.ofMerged text intent filters = .ok r) : Reply.complementsFor text filters = .ok r.complements ∧
      r.filters = filters ∧
      r.missing = (if intent.isEventFlow then missingSlots filters else []).map Slot.name ∧
      r.quickReplies = chips (.object filters) r.complements.head? ∧ r.cleared = false := by
  unfold Reply.ofMerged at h
  generalize (if intent.isEventFlow then missingSlots filters else []) = missing at h ⊢
  dsimp only at h
  have hrest : ∀ {message : String}, (do
      let complements ← Reply.complementsFor text filters
      return ⟨message, filters, missing.isEmpty, missing.map Slot.name, complements,
        chips (.object filters) complements.head?, false⟩ : Except Fault Reply) = .ok r →
      Reply.complementsFor text filters = .ok r.complements ∧ r.filters = filters ∧
        r.missing = missing.map Slot.name ∧
        r.quickReplies = chips (.object filters) r.complements.head? ∧ r.cleared = false := by
    intro message h
    cases hc : Reply.complementsFor text filters with
    | error f =>
      rw [hc] at h
      cases h
    | ok complements =>
      rw [hc] at h
      obtain rfl := Except.ok.inj h
      exact ⟨rfl, rfl, rfl, rfl, rfl⟩
  split at h
  · cases hs : summary (.object filters) with
    | error f =>
      rw [hs] at h
      cases h
    | ok message =>
      rw [hs] at h
      exact hrest h
  · exact hrest h

theorem filters_of_ofMerged {text : List Char} {intent : Intent} {filters : Fields} {r : Reply}
    (h : Reply.ofMerged text intent filters = .ok r) : r.filters = filters ∧
      r.missing = (if intent.isEventFlow then missingSlots filters else []).map Slot.name :=
  have hparts := parts_of_ofMerged h
  ⟨hparts.2.1, hparts.2.2.1⟩

theorem extractWith_of_extracted {text : List Char} {known : Except Fault (List String)} {e : Extraction}
    {debugging : Bool} (h : (extracted text known).outcomeWhen debugging = .ok e) :
    extractWith text known = .ok e := by
  have hsteady : ∀ e : Extraction, Traced.Steady (do
      unless (Text.clean text).isEmpty do
        Traced.note e.entry
      return e) := by
    intro e
    split
    · exact Traced.steady_pure e
    · exact (Traced.steady_note _).bind fun _ => Traced.steady_pure e
  obtain ⟨a, ha, hrest⟩ := Traced.exists_of_bind (Traced.steady_liftExcept _) hsteady h
  rw [Traced.outcomeWhen_liftExcept] at ha
  rw [ha]
  split at hrest
  · exact hrest
  · obtain ⟨-, -, hpure⟩ := Traced.exists_of_bind (Traced.steady_note _) (fun _ => Traced.steady_pure a) hrest
    exact hpure

theorem merge_of_merged {base delta filters : Fields} {debugging : Bool}
    (h : (merged (.object base) (.object delta)).outcomeWhen debugging = .ok filters) :
    filters = merge base delta := by
  have hmerge : mergeValues (.object base) (.object delta) =
      ((Value.object base).orElse (.object [])).sortedElements.map fun _ => merge base delta := by
    show (if _ && false && _ then _ else _) = _
    rw [Bool.and_false, Bool.false_and, if_neg Bool.false_ne_true]
  unfold merged at h
  rw [hmerge] at h
  dsimp only at h
  cases hnames : ((Value.object base).orElse (.object [])).sortedElements with
  | error f =>
    rw [hnames] at h
    cases h
  | ok names =>
    cases hnames' : ((Value.object delta).orElse (.object [])).sortedElements with
    | error f =>
      rw [hnames, hnames'] at h
      cases h
    | ok names' =>
      rw [hnames, hnames'] at h
      have hnoted : (do
          Traced.note (mergeEntry names names')
          return merge base delta).outcomeWhen debugging = .ok filters := h
      obtain ⟨-, -, hpure⟩ := Traced.exists_of_bind (Traced.steady_note _)
        (fun _ => Traced.steady_pure _) hnoted
      exact (Except.ok.inj hpure).symm

/-- What a message has been answered with, when it is no reset: the reply to the filters of the turns before
merged with those of the message. -/
theorem ofMerged_of_concluded {trimmed : List Char} {active : Value} {base : Fields} {e : Extraction}
    {r : Reply} {debugging : Bool} (ha : active.orElse (.object []) = .object base)
    (h : (concluded trimmed active e).outcomeWhen debugging = .ok r) :
    Reply.ofMerged trimmed e.intent (merge base e.filters) = .ok r := by
  unfold concluded at h
  rw [ha] at h
  obtain ⟨filters, hfilters, h⟩ := Traced.exists_of_bind (steady_merged ..) (fun _ =>
    (Traced.steady_liftExcept _).bind fun _ => (Traced.steady_note _).bind fun _ => Traced.steady_pure _) h
  obtain rfl := merge_of_merged hfilters
  obtain ⟨reply, hreply, h⟩ := Traced.exists_of_bind (Traced.steady_liftExcept _) (fun reply =>
    (Traced.steady_note _).bind fun _ => Traced.steady_pure _) h
  obtain ⟨-, -, hpure⟩ := Traced.exists_of_bind (Traced.steady_note _) (fun _ => Traced.steady_pure _) h
  obtain rfl : reply = r := Except.ok.inj hpure
  exact (Traced.outcomeWhen_liftExcept debugging _).symm.trans hreply

/-- **What a message has been answered with**: a reset wipes the filters, and anything else has been read and
merged. -/
theorem cases_of_replied {text : String} {active : Value} {base : Fields} {known : List Value} {r : Reply}
    {debugging : Bool} (ha : active.orElse (.object []) = .object base)
    (h : (replied (.str text) active (.list known)).outcomeWhen debugging = .ok r) :
    isReset text.toList = true ∧ r = Reply.afterReset ∨
      isReset text.toList = false ∧ ∃ e, extractWith text.toList (brandNames known) = .ok e ∧
        Reply.ofMerged (Text.trim text.toList) e.intent (merge base e.filters) = .ok r := by
  rw [Assistant.Turn.outcomeWhen_replied (demandOptionalText_str text "strip")] at h
  cases hreset : isReset text.toList with
  | true =>
    rw [hreset, if_pos rfl] at h
    exact .inl ⟨rfl, (Except.ok.inj h).symm⟩
  | false =>
    rw [hreset, if_neg Bool.false_ne_true] at h
    cases he : (extracted text.toList (brandNames known)).outcomeWhen debugging with
    | error f =>
      rw [he] at h
      cases h
    | ok e =>
      rw [he] at h
      exact .inr ⟨rfl, e, extractWith_of_extracted he, ofMerged_of_concluded ha h⟩

/-! ### turns -/

/-- The replies differ in nothing but the filters. -/
def Reply.Alike (r r' : Reply) : Prop :=
  r' = { r with filters := r'.filters }

/-- What is asked for after a message that asks for `d`, when `l` was asked for before it. -/
def after (text : String) (d l : Look) : Look :=
  if isReset text.toList then Look.none else l.join d

section

variable {text : String} {d l l' : Look}

theorem after_of_reset (h : isReset text.toList = true) (d l : Look) : after text d l = Look.none :=
  if_pos h

theorem after_of_not_reset (h : ¬ isReset text.toList = true) (d l : Look) : after text d l = l.join d :=
  if_neg h

theorem settled_after (hl : l.Settled) (hd : d.Settled) : (after text d l).Settled := by
  unfold after
  split
  · exact Look.settled_none
  · exact hl.join hd

theorem pastel_after (h : l.Pastel → l'.Pastel) (hp : (after text d l).Pastel) : (after text d l').Pastel := by
  unfold after at hp ⊢
  split
  · rename_i hreset
    rwa [if_pos hreset] at hp
  · rename_i hreset
    rw [if_neg hreset] at hp
    exact Look.pastel_join.mpr ((Look.pastel_join.mp hp).imp_left h)

end

/-- The message asks for `d`, and is answered whatever was asked for before. -/
structure Reads (known : List Value) (text : String) (d : Look) : Prop where
  settled : d.Settled
  /-- What the message alone asks for. -/
  extract : ∀ debugging, ∃ x, (Assistant.Turn.extract known (.str text)).outcomeWhen debugging = .ok x ∧
    Shows Means ((x.map (·.filters)).getD []) d
  /-- The reply depends only on what has been asked for, and one to a reset not even on that. -/
  reply : ∀ {l l' base base' active active'} (debugging debugging' : Bool), l.Settled →
    isReset text.toList = true ∨ l = l' → Shows Is base l → Shows Is base' l' →
    active.orElse (.object []) = .object base → active'.orElse (.object []) = .object base' →
    ∃ r r', (replied (.str text) active (.list known)).outcomeWhen debugging = .ok r ∧
      (replied (.str text) active' (.list known)).outcomeWhen debugging' = .ok r' ∧
      r.Alike r' ∧ Shows Is r.filters (after text d l) ∧ Shows Is r'.filters (after text d l')

/-- **A message whose budget can be read is answered**, in a way that depends only on what has been asked
for before. -/
theorem exists_reads {known : List Value} {names : List String} (hknown : brandNames known = .ok names)
    {text : String} (hbudget : HasFiniteBudget text.toList) : ∃ d, Reads known text d := by
  have htext := demandOptionalText_str text "strip"
  by_cases hreset : isReset text.toList = true
  · have hreply : ∀ (active : Value) (debugging : Bool),
        (replied (.str text) active (.list known)).outcomeWhen debugging = .ok Reply.afterReset := by
      intro active debugging
      rw [Assistant.Turn.outcomeWhen_replied htext, if_pos hreset]
    refine ⟨Look.none, Look.settled_none, fun debugging => ⟨none, ?_, shows_none⟩, ?_⟩
    · rw [Assistant.Turn.outcomeWhen_extract htext, if_pos hreset]
    · intro l l' base base' active active' debugging debugging' _ _ _ _ _ _
      rw [after_of_reset hreset, after_of_reset hreset]
      exact ⟨_, _, hreply active debugging, hreply active' debugging', rfl, shows_none, shows_none⟩
  · obtain ⟨e, d, he, hshows, hd, -⟩ := exists_extractWith names hbudget
    have hextracted : ∀ debugging, (extracted text.toList (.ok names)).outcomeWhen debugging = .ok e :=
      outcomeWhen_extracted he (haveWritable_of_shows hshows hd.toNeat)
    rw [← hknown] at hextracted
    have hreplied : ∀ {active : Value} {base : Fields} {l : Look} {r : Reply} (debugging : Bool),
        active.orElse (.object []) = .object base → Shows Is base l →
        Reply.ofMerged (Text.trim text.toList) e.intent (merge base e.filters) = .ok r →
        (replied (.str text) active (.list known)).outcomeWhen debugging = .ok r := by
      intro active base l r debugging ha hb hr
      rw [Assistant.Turn.outcomeWhen_replied htext, if_neg hreset, hextracted]
      exact outcomeWhen_concluded ha hb.named hshows.named hr debugging
    refine ⟨d, hd, fun debugging => ⟨some e, ?_, hshows⟩, ?_⟩
    · rw [Assistant.Turn.outcomeWhen_extract htext, if_neg hreset, hextracted]
      rfl
    · intro l l' base base' active active' debugging debugging' hl hsame hb hb' ha ha'
      obtain rfl := hsame.resolve_left hreset
      have hm := shows_merge hb hl.toNeat hshows hd.toNeat
      have hm' := shows_merge hb' hl.toNeat hshows hd.toNeat
      obtain ⟨r, hr, hfilters, hothers⟩ := exists_ofMerged (Text.trim text.toList) e.intent
        (hl.join hd).toNeat hm
      rw [after_of_not_reset hreset]
      refine ⟨r, _, hreplied debugging ha hb hr, hreplied debugging' ha' hb' (hothers _ hm'), rfl, ?_, hm'⟩
      rw [hfilters]
      exact hm

/-! ### without a session -/

theorem quiet_replied (text active known : Value) : Traced.Quiet (replied text active known) :=
  quiet_planned text active fun _ => quiet_extracted _ _

theorem steady_replied (text active known : Value) : Traced.Steady (replied text active known) :=
  steady_planned text active fun _ => steady_extracted ..

/-- A reply without a session comes to the reply that is planned for the message. -/
theorem outcome_replyTo (known : List Value) (text : String) (active : Value) (c : Context) :
    ((Assistant.replyTo known (.str text) active).runFrom c).1 =
      (replied (.str text) active (.list known)).outcomeWhen c.debugging := by
  have hsteady := steady_replied (.str text) active (.list known)
  have hrequest : (Entry.request (.str text) (.str "") (.str "reply")).isWritable = true :=
    Entry.isWritable_of_data rfl
  unfold Assistant.replyTo
  have hgrows := ((quiet_replied (.str text) active (.list known)).grows_inStage "PLAN" "plan_reply").mono
    (Nat.le_add_left 1 3)
  rw [Traced.outcome_inTurn (hsteady.inStage ..) hgrows hrequest, Traced.outcomeWhen_inStage hsteady]

end Dialogue

end Outfitter
