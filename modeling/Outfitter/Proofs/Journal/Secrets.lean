import Outfitter.Proofs.Journal.Steady
import Outfitter.Proofs.Journal.Writable
import Outfitter.Proofs.Json.Reading

/-!
What the lines of an entry tell of the secrets in its data.

Two objects are alike but for their secrets if they are the same once every secret in them is veiled, at
whatever depth and in lists too (`veiled`). What is shown of an object hides the secrets of the objects within
objects, but a list that is short enough is shown as it is, with the secrets in it. Such lists are the only way
out (`shown_eq_iff`): as JSON reads back, two entries whose data are alike but for their secrets leave the same
lines exactly if the lists that are shown are the same (`written_eq_iff`).
-/

namespace Outfitter.Journal

/-! ### secrets -/

mutual

/-- The value with every secret in it veiled. -/
def veiled : Value → Value
  | .list items => .list (veiledItems items)
  | .object fields => .object (veiledFields fields)
  | v => v

def veiledItems : List Value → List Value
  | [] => []
  | v :: vs => veiled v :: veiledItems vs

def veiledFields : List (Key × Value) → List (Key × Value)
  | [] => []
  | (k, v) :: rest => (k, if isSecret k.shown then redacted else veiled v) :: veiledFields rest

end

mutual

/-- The lists of a value that are shown as they are. -/
def listsShown : Value → List Value
  | .list items => if itemBound < items.length then [] else [.list items]
  | .object fields => listsShownIn fields
  | _ => []

/-- The lists of some fields that are shown as they are. -/
def listsShownIn : List (Key × Value) → List Value
  | [] => []
  | (k, v) :: rest => (if isSecret k.shown then [] else listsShown v) ++ listsShownIn rest

end

variable {bound : Int}

theorem length_veiledItems (items : List Value) : (veiledItems items).length = items.length := by
  induction items with
  | nil => rfl
  | cons v vs ih => exact congrArg (· + 1) ih

theorem eq_list_of_veiled {v : Value} {items : List Value} (h : veiled (.list items) = veiled v) :
    ∃ others, v = .list others ∧ veiledItems items = veiledItems others := by
  cases v with
  | list others => exact ⟨others, rfl, Value.list.inj h⟩
  | null | bool _ | int _ | float _ | str _ | object _ => cases h

theorem eq_object_of_veiled {v : Value} {fields : Fields} (h : veiled (.object fields) = veiled v) :
    ∃ others, v = .object others ∧ veiledFields fields = veiledFields others := by
  cases v with
  | object others => exact ⟨others, rfl, Value.object.inj h⟩
  | null | bool _ | int _ | float _ | str _ | list _ => cases h

theorem eq_of_veiled {v w : Value} (hlist : ∀ items, v ≠ .list items) (hobject : ∀ fields, v ≠ .object fields)
    (h : veiled v = veiled w) : v = w := by
  have hv : veiled v = v := by
    cases v with
    | list items => exact absurd rfl (hlist items)
    | object fields => exact absurd rfl (hobject fields)
    | null | bool _ | int _ | float _ | str _ => rfl
  cases w with
  | list items =>
    obtain ⟨others, rfl, -⟩ := eq_list_of_veiled h.symm
    exact absurd rfl (hlist others)
  | object fields =>
    obtain ⟨others, rfl, -⟩ := eq_object_of_veiled h.symm
    exact absurd rfl (hobject others)
  | null | bool _ | int _ | float _ | str _ => exact hv.symm.trans h

/-- What decides whether as much is shown of two values: the lists shown of them, which are equally many. -/
def ShownBy (bound : Int) (v w : Value) : Prop :=
  (listsShown v).length = (listsShown w).length ∧ (shown bound v = shown bound w ↔ listsShown v = listsShown w)

theorem ShownBy.of_eq {v w : Value} (h : v = w) : ShownBy bound v w := by
  subst h
  exact ⟨rfl, iff_of_true rfl rfl⟩

mutual

/-- **Of two values that are alike but for their secrets the same is shown exactly if the lists shown are the
same.** -/
theorem shown_eq_iff : ∀ v w : Value, veiled v = veiled w → ShownBy bound v w
  | .list items, w => by
    intro h
    obtain ⟨others, rfl, hitems⟩ := eq_list_of_veiled h
    have hlength : items.length = others.length := by
      rw [← length_veiledItems, hitems, length_veiledItems]
    unfold ShownBy listsShown shown
    rw [← hlength]
    by_cases hlong : itemBound < items.length
    · simp only [if_pos hlong, and_self]
    · simp only [if_neg hlong, List.length_singleton, List.cons.injEq, and_true]
  | .object fields, w => by
    intro h
    obtain ⟨others, rfl, hfields⟩ := eq_object_of_veiled h
    obtain ⟨hlength, hiff⟩ := shownFields_eq_iff fields others hfields
    exact ⟨hlength, Value.object.injEq _ _ ▸ hiff⟩
  | .null, _ | .bool _, _ | .int _, _ | .float _, _ | .str _, _ => fun h => .of_eq (eq_of_veiled nofun nofun h)

theorem shownFields_eq_iff : ∀ fields others : List (Key × Value), veiledFields fields = veiledFields others →
    (listsShownIn fields).length = (listsShownIn others).length ∧
      (shownFields bound fields = shownFields bound others ↔ listsShownIn fields = listsShownIn others)
  | [], [] => fun _ => ⟨rfl, iff_of_true rfl rfl⟩
  | [], _ :: _ | _ :: _, [] => fun h => by cases h
  | (k, v) :: rest, (k', w) :: others => by
    intro h
    obtain ⟨hhead, hrest⟩ := List.cons.inj h
    obtain ⟨rfl, hvalue⟩ := Prod.mk.inj hhead
    obtain ⟨hlengths, hfields⟩ := shownFields_eq_iff rest others hrest
    unfold shownFields listsShownIn
    by_cases hsecret : isSecret k.shown = true
    · simp only [if_pos hsecret, List.nil_append, List.cons.injEq, true_and]
      exact ⟨hlengths, hfields⟩
    · simp only [if_neg hsecret] at hvalue ⊢
      obtain ⟨hlength, hiff⟩ := shown_eq_iff v w hvalue
      refine ⟨by rw [List.length_append, List.length_append, hlength, hlengths], ?_⟩
      rw [List.cons.injEq, Prod.mk.injEq, hiff, hfields]
      -- the lists of the first field are equally many on both sides, so the two parts can be told apart
      constructor
      · rintro ⟨⟨-, hv⟩, hr⟩
        rw [hv, hr]
      · intro happend
        obtain ⟨hv, hr⟩ := List.append_inj happend hlength
        exact ⟨⟨rfl, hv⟩, hr⟩

end

/-! ### lines -/

theorem keys_shownFields (fields : Fields) : (shownFields bound fields).map (·.1) = fields.map (·.1) := by
  induction fields with
  | nil => rfl
  | cons p rest ih => exact congrArg (p.1 :: ·) ih

mutual

theorem isJson_shown : ∀ v : Value, v.isJson = true → (shown bound v).isJson = true
  | .list items => by
    intro h
    unfold shown
    split
    · rfl
    · exact h
  | .object fields => by
    intro h
    obtain ⟨hkeys, hfields⟩ := Bool.and_eq_true_iff.mp h
    refine Bool.and_eq_true_iff.mpr ⟨?_, haveJson_shown fields hfields⟩
    rw [keys_shownFields]
    exact hkeys
  | .str s => by
    intro _
    unfold shown
    split <;> rfl
  | .null | .bool _ | .int _ | .float _ => fun _ => rfl

theorem haveJson_shown : ∀ fields : List (Key × Value), Value.haveJson fields = true →
    Value.haveJson (shownFields bound fields) = true
  | [] => fun _ => rfl
  | (k, v) :: rest => by
    intro h
    obtain ⟨hkv, hrest⟩ := Bool.and_eq_true_iff.mp h
    obtain ⟨hk, hv⟩ := Bool.and_eq_true_iff.mp hkv
    refine Bool.and_eq_true_iff.mpr ⟨Bool.and_eq_true_iff.mpr ⟨hk, ?_⟩, haveJson_shown rest hrest⟩
    split
    · rfl
    · exact isJson_shown v hv

end

/-- Two values are written alike only if they are the same. -/
theorem eq_of_write {v w : Value} (hv : v.isJson = true) (hw : w.isJson = true) (hv' : v.isWritable = true)
    (hw' : w.isWritable = true) (h : Json.write Json.spaced v = Json.write Json.spaced w) : v = w := by
  have hread := Json.readWithin_write Json.isReadable_spaced hv hv' (Nat.le_max_left v.depth w.depth)
  rw [h, Json.readWithin_write Json.isReadable_spaced hw hw' (Nat.le_max_right v.depth w.depth)] at hread
  exact (Except.ok.inj hread).symm

namespace Entry

/-- The entry with other data. -/
def withData (e : Entry) (data : Fields) : Entry :=
  { e with data := data }

variable {e : Entry} {data others : Fields}

theorem body_eq_iff (hdata : (Value.object data).isJson = true) (hothers : (Value.object others).isJson = true)
    (h : veiledFields data = veiledFields others) (hw : (e.withData data).isWritable = true)
    (hw' : (e.withData others).isWritable = true) :
    (e.withData data).body = (e.withData others).body ↔ listsShownIn data = listsShownIn others := by
  rw [← (@shownFields_eq_iff textBound data others h).2]
  constructor
  · intro hbody
    cases data with
    | nil =>
      obtain rfl : others = [] := by
        cases others with
        | nil => rfl
        | cons p rest => cases h
      rfl
    | cons p rest =>
      cases others with
      | nil => cases h
      | cons q more =>
        have hwrite := (String.append_right_inj (e.message ++ " | ")).mp hbody
        exact Value.object.inj (eq_of_write (isJson_shown _ hdata) (isJson_shown _ hothers) hw hw' hwrite)
  · intro hshown
    have hempty : data.isEmpty = others.isEmpty := by
      cases data <;> cases others <;> first | rfl | cases h
    unfold body shownData withData
    rw [hempty, hshown]

theorem lines_eq_iff : (e.withData data).lines = (e.withData others).lines ↔
    (e.withData data).body = (e.withData others).body := by
  unfold lines
  rw [List.cons.injEq]
  refine ⟨fun h => ?_, fun h => ⟨?_, rfl⟩⟩
  · exact (String.append_right_inj _).mp h.1
  · exact congrArg _ h

end Entry

/-- What comes of an entry: whether it could be written, and the lines of the journal then. -/
def written (e : Entry) (c : Context) : Except Fault Unit × List String :=
  let run := (Traced.note e).runFrom c
  (run.1, lines run.2.entries)

theorem Context.owned_withData (c : Context) (e : Entry) (data : Fields) :
    c.owned (e.withData data) = (c.owned e).withData data := by
  unfold owned turn?
  cases c.current <;> rfl

theorem written_eq (e : Entry) (c : Context) :
    written e c =
      if e.isKept c.debugging then
        if e.isWritable then
          (.ok (), lines c.entries ++ if c.threshold ≤ e.level then (c.owned e).lines else [])
        else (.error .tooLongToWrite, lines c.entries)
      else (.ok (), lines c.entries) := by
  have hpush : lines (c.push e).entries =
      lines c.entries ++ if c.threshold ≤ e.level then (c.owned e).lines else [] := by
    unfold Context.push
    split
    · show (c.entries ++ [c.owned e]).flatMap Entry.lines = _
      rw [List.flatMap_append, List.flatMap_singleton]
      rfl
    · exact (List.append_nil _).symm
  unfold written
  rw [Traced.runFrom_note]
  split
  · split
    · rw [← hpush]
    · rfl
  · rfl

/-- **What an entry leaves depends on the secrets in its data by the lists that are shown, and by nothing
else**, at every level and whatever level is written. The lists have to be the same where a line comes of the
entry; where none does, it only counts whether one could. -/
theorem written_eq_iff (e : Entry) (c : Context) {data others : Fields}
    (hdata : (Value.object data).isJson = true) (hothers : (Value.object others).isJson = true)
    (h : veiledFields data = veiledFields others) :
    written (e.withData data) c = written (e.withData others) c ↔
      (e.isKept c.debugging = true →
        (e.withData data).isWritable = (e.withData others).isWritable ∧
          ((e.withData data).isWritable = true → c.threshold ≤ e.level →
            listsShownIn data = listsShownIn others)) := by
  rw [written_eq, written_eq]
  show (if e.isKept c.debugging then _ else _) = (if e.isKept c.debugging then _ else _) ↔ _
  cases hkept : e.isKept c.debugging with
  | false => exact iff_of_true rfl nofun
  | true =>
    rw [if_pos rfl, if_pos rfl, forall_prop_of_true rfl]
    show (if _ then (_, _ ++ if c.threshold ≤ e.level then _ else _) else _) =
      (if _ then (_, _ ++ if c.threshold ≤ e.level then _ else _) else _) ↔ _
    cases hw : (e.withData data).isWritable <;> cases hw' : (e.withData others).isWritable
    case true.true =>
      have hlines := Entry.lines_eq_iff.trans (Entry.body_eq_iff (e := c.owned e) hdata hothers h hw hw')
      rw [if_pos rfl, if_pos rfl, Prod.mk.injEq, List.append_right_inj, c.owned_withData, c.owned_withData]
      by_cases hheavy : c.threshold ≤ e.level
      · rw [if_pos hheavy, if_pos hheavy, hlines]
        exact ⟨fun hboth => ⟨rfl, fun _ _ => hboth.2⟩, fun hboth => ⟨rfl, hboth.2 rfl hheavy⟩⟩
      · rw [if_neg hheavy, if_neg hheavy]
        exact iff_of_true ⟨rfl, rfl⟩ ⟨rfl, fun _ hlevel => absurd hlevel hheavy⟩
    case false.false =>
      rw [if_neg Bool.false_ne_true, if_neg Bool.false_ne_true]
      exact iff_of_true rfl ⟨rfl, nofun⟩
    -- where only one of the two can be written, the other one fails
    case true.false =>
      rw [if_pos rfl, if_neg Bool.false_ne_true]
      exact iff_of_false (fun heq => nomatch (Prod.mk.inj heq).1) fun hboth => nomatch hboth.1
    case false.true =>
      rw [if_neg Bool.false_ne_true, if_pos rfl]
      exact iff_of_false (fun heq => nomatch (Prod.mk.inj heq).1) fun hboth => nomatch hboth.1

/-- Data with a password in a list. -/
def withPassword (password : String) : Fields :=
  [("items", .list [.object [("password", .str password)]])]

theorem veiledFields_withPassword (password : String) :
    veiledFields (withPassword password) = withPassword "***REDACTED***" := by
  have hpublic : isSecret "items" = false := by decide +kernel
  have hsecret : isSecret "password" = true := by decide +kernel
  simp [withPassword, veiledFields, veiled, veiledItems, Key.shown, hpublic, hsecret, redacted]

theorem listsShownIn_withPassword (password : String) :
    listsShownIn (withPassword password) = [.list [.object [(.text "password", .str password)]]] := by
  have hpublic : isSecret "items" = false := by decide +kernel
  simp [withPassword, listsShownIn, listsShown, Key.shown, hpublic, itemBound]

/-- The lines tell two passwords in a list apart. -/
theorem written_password :
    veiledFields (withPassword "first") = veiledFields (withPassword "second") ∧
      written ((Entry.info "API" "m" []).withData (withPassword "first")) (.initial true) ≠
        written ((Entry.info "API" "m" []).withData (withPassword "second")) (.initial true) := by
  have hjson : ∀ password, (Value.object (withPassword password)).isJson = true := fun _ => rfl
  have hsame : veiledFields (withPassword "first") = veiledFields (withPassword "second") := by
    rw [veiledFields_withPassword, veiledFields_withPassword]
  refine ⟨hsame, fun hwritten => ?_⟩
  have hboth := (written_eq_iff _ _ (hjson "first") (hjson "second") hsame).mp hwritten rfl
  have hwritable : (Entry.withData (.info "API" "m" []) (withPassword "first")).isWritable = true :=
    Entry.isWritable_of_data rfl
  have hlists := hboth.2 hwritable (Int.le_refl infoLevel)
  rw [listsShownIn_withPassword, listsShownIn_withPassword] at hlists
  simp at hlists

end Outfitter.Journal
