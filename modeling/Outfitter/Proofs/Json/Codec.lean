import Outfitter.Proofs.Json.Exchange
import Outfitter.Proofs.Json.Reading

/-!
Codecs that may be relied on.

A codec is faithful if it prints every value that can be sent (`Value.IsSent`) as a JSON text of the value, and reads
every JSON text of such a value as the value (`Json.Codec.IsFaithful`). So it carries each of them from one side to
the other, and the plain codec does (`isFaithful_plain`). A reader with limits goes only so far into lists and
objects, and takes only whole numbers of so many characters: it gets through the text of a value exactly if the value
fits within that (`obstacle?_eq_none_iff`).
-/

namespace Outfitter

/-! ### values that are sent -/

namespace Value

/-- The value is written as a text that stands for it. -/
structure IsSent (v : Value) : Prop where
  finite : v.isFinite = true
  json : v.isJson = true
  writable : v.isWritable = true

theorem isSent_null : IsSent null :=
  ⟨rfl, rfl, rfl⟩

theorem isSent_bool (b : Bool) : IsSent (bool b) :=
  ⟨rfl, rfl, rfl⟩

theorem isSent_str (s : String) : IsSent (str s) :=
  ⟨rfl, rfl, rfl⟩

theorem isSent_int {n : Int} (h : (int n).isWritable = true) : IsSent (int n) :=
  ⟨rfl, rfl, h⟩

theorem isSent_finite (x : Double.Finite) : IsSent (float (.finite x)) :=
  ⟨rfl, rfl, rfl⟩

theorem isSent_list {items : List Value} (h : ∀ v ∈ items, IsSent v) : IsSent (list items) where
  finite := (areFinite_iff items).mpr fun v hv => (h v hv).finite
  json := (areJson_iff items).mpr fun v hv => (h v hv).json
  writable := (areWritable_iff items).mpr fun v hv => (h v hv).writable

theorem isSent_ofStrings (texts : List String) : IsSent (.ofStrings texts) := by
  refine isSent_list fun v hv => ?_
  obtain ⟨s, -, rfl⟩ := List.mem_map.mp hv
  exact isSent_str s

/-- An object whose fields are known by texts of their own. -/
theorem isSent_object {fields : Fields} (hn : (fields.map (·.1)).Nodup)
    (h : ∀ p ∈ fields, p.1.isText = true ∧ p.2.IsSent) : IsSent (object fields) where
  finite := (haveFinite_iff _).mpr fun p hp => (h p hp).2.finite
  json := Bool.and_eq_true_iff.mpr
    ⟨decide_eq_true hn, (haveJson_iff _).mpr fun p hp => ⟨(h p hp).1, (h p hp).2.json⟩⟩
  writable := (haveWritable_iff _).mpr fun p hp => (h p hp).2.writable

theorem isSent_ofNamed {named : List (String × Value)} (hn : (named.map (·.1)).Nodup)
    (h : ∀ p ∈ named, IsSent p.2) : IsSent (object (Fields.ofNamed named)) := by
  refine isSent_object ?_ fun p hp => ?_
  · rw [show (Fields.ofNamed named).map (·.1) = (named.map (·.1)).map Key.text by simp [Fields.ofNamed]]
    exact List.pairwise_map.mpr (hn.imp fun hne he => hne (Key.text.inj he))
  · obtain ⟨q, hq, rfl⟩ := List.mem_map.mp hp
    exact ⟨rfl, h q hq⟩

/-! ### values that fit -/

mutual

/-- No whole number in the value takes more characters than a reader takes. -/
def isBrief : Value → Bool
  | int n => (toString n).length ≤ Json.maxNumeral
  | list items => areBrief items
  | object fields => haveBrief fields
  | _ => true

def areBrief : List Value → Bool
  | [] => true
  | v :: vs => isBrief v && areBrief vs

def haveBrief : List (Key × Value) → Bool
  | [] => true
  | (_, v) :: rest => isBrief v && haveBrief rest

end

/-- There are no more values within each other than that, and no whole number takes too many characters. -/
def FitsWithin (n : Nat) (v : Value) : Prop :=
  v.depth ≤ n ∧ v.isBrief = true

instance (n : Nat) (v : Value) : Decidable (v.FitsWithin n) :=
  inferInstanceAs (Decidable (_ ∧ _))

variable {n : Nat} {items : List Value} {fields : List (Key × Value)}

theorem one_le_depth (v : Value) : 1 ≤ v.depth := by
  cases v <;> simp [depth]

theorem not_fitsWithin_zero (v : Value) : ¬ v.FitsWithin 0 := by
  intro h
  have hdepth := h.1
  have hone := v.one_le_depth
  omega

theorem itemsFit_iff :
    depthOfItems items ≤ n ∧ areBrief items = true ↔ ∀ v ∈ items, v.FitsWithin n := by
  induction items with
  | nil => exact iff_of_true ⟨Nat.zero_le n, rfl⟩ (List.forall_mem_nil _)
  | cons v vs ih =>
    show max v.depth (depthOfItems vs) ≤ n ∧ (v.isBrief && areBrief vs) = true ↔ _
    rw [List.forall_mem_cons, ← ih, Nat.max_le, Bool.and_eq_true_iff, and_and_and_comm]
    rfl

theorem fieldsFit_iff :
    depthOfFields fields ≤ n ∧ haveBrief fields = true ↔ ∀ p ∈ fields, p.2.FitsWithin n := by
  induction fields with
  | nil => exact iff_of_true ⟨Nat.zero_le n, rfl⟩ (List.forall_mem_nil _)
  | cons p rest ih =>
    obtain ⟨k, v⟩ := p
    show max v.depth (depthOfFields rest) ≤ n ∧ (v.isBrief && haveBrief rest) = true ↔ _
    rw [List.forall_mem_cons, ← ih, Nat.max_le, Bool.and_eq_true_iff, and_and_and_comm]
    rfl

theorem fitsWithin_list : (list items).FitsWithin (n + 1) ↔ ∀ v ∈ items, v.FitsWithin n :=
  (and_congr_left' Nat.add_le_add_iff_right).trans itemsFit_iff

theorem fitsWithin_object : (object fields).FitsWithin (n + 1) ↔ ∀ p ∈ fields, p.2.FitsWithin n :=
  (and_congr_left' Nat.add_le_add_iff_right).trans fieldsFit_iff

theorem fitsWithin_int {k : Int} : (int k).FitsWithin (n + 1) ↔ (toString k).length ≤ Json.maxNumeral := by
  unfold FitsWithin depth isBrief
  simp

end Value

namespace Json

open Value

variable (style : Style)

mutual

/-- **A reader gets through the text of a value** exactly if the value fits within what the reader takes. -/
theorem obstacle?_eq_none_iff : ∀ (room : Nat) (v : Value),
    style.obstacle? room v = none ↔ v.FitsWithin (room + 1)
  | room, .int n => by
    rw [fitsWithin_int]
    unfold Style.obstacle?
    simp
  | 0, .list [] => iff_of_true rfl (fitsWithin_list.mpr (List.forall_mem_nil _))
  | 0, .object [] => iff_of_true rfl (fitsWithin_object.mpr (List.forall_mem_nil _))
  | 0, .list (v :: vs) =>
    iff_of_false nofun fun h => v.not_fitsWithin_zero (fitsWithin_list.mp h v (List.mem_cons_self ..))
  | 0, .object ((k, v) :: rest) =>
    iff_of_false nofun fun h => v.not_fitsWithin_zero (fitsWithin_object.mp h (k, v) (List.mem_cons_self ..))
  | room + 1, .list items => (itemsObstacle?_eq_none_iff room 1 items).trans fitsWithin_list.symm
  | room + 1, .object fields => (fieldsObstacle?_eq_none_iff room 1 fields).trans fitsWithin_object.symm
  | 0, .null | 0, .bool _ | 0, .float _ | 0, .str _ => iff_of_true rfl ⟨Nat.le_refl _, rfl⟩
  | room + 1, .null | room + 1, .bool _ | room + 1, .float _ | room + 1, .str _ =>
    iff_of_true rfl ⟨Nat.le_add_left .., rfl⟩

theorem itemsObstacle?_eq_none_iff : ∀ (room before : Nat) (items : List Value),
    style.itemsObstacle? room before items = none ↔ ∀ v ∈ items, v.FitsWithin (room + 1)
  | _, _, [] => iff_of_true rfl (List.forall_mem_nil _)
  | room, before, v :: vs => by
    rw [List.forall_mem_cons, ← obstacle?_eq_none_iff room v]
    unfold Style.itemsObstacle?
    cases style.obstacle? room v with
    | some found => exact iff_of_false nofun fun h => nomatch h.1
    | none => exact (itemsObstacle?_eq_none_iff room _ vs).trans (and_iff_right rfl).symm

theorem fieldsObstacle?_eq_none_iff : ∀ (room before : Nat) (fields : List (Key × Value)),
    style.fieldsObstacle? room before fields = none ↔ ∀ p ∈ fields, p.2.FitsWithin (room + 1)
  | _, _, [] => iff_of_true rfl (List.forall_mem_nil _)
  | room, before, (k, v) :: rest => by
    rw [List.forall_mem_cons, ← obstacle?_eq_none_iff room v]
    unfold Style.fieldsObstacle?
    cases style.obstacle? room v with
    | some found => exact iff_of_false nofun fun h => nomatch h.1
    | none => exact (fieldsObstacle?_eq_none_iff room _ rest).trans (and_iff_right rfl).symm

end

/-! ### texts that are long enough -/

theorem length_separated_cons (v : List Char) (pieces : List (List Char)) :
    max v.length (style.separated pieces).length ≤ (style.separated (v :: pieces)).length := by
  cases pieces with
  | nil => exact Nat.max_le.mpr ⟨Nat.le_of_eq (by rw [separated_singleton]), Nat.zero_le _⟩
  | cons w pieces =>
    rw [separated_cons, List.length_append, List.length_append]
    omega

theorem one_le_length (v : Value) : 1 ≤ (style.value v).length := by
  obtain ⟨c, more, htext, -⟩ := starts_value style v
  rw [htext]
  exact Nat.le_add_left ..

mutual

/-- No more values stand within each other than the text has characters. -/
theorem depth_le_length : ∀ v : Value, v.depth ≤ (style.value v).length
  | .list items => by
    have hitems := depthOfItems_le_length items
    show depthOfItems items + 1 ≤ ('[' :: style.separated (style.items items) ++ [']']).length
    rw [List.length_append, List.length_cons]
    omega
  | .object fields => by
    have hfields := depthOfFields_le_length fields
    show depthOfFields fields + 1 ≤ ('\x7b' :: style.separated (style.fields fields) ++ ['\x7d']).length
    rw [List.length_append, List.length_cons]
    omega
  | .null | .bool _ | .int _ | .float _ | .str _ => one_le_length style _

theorem depthOfItems_le_length : ∀ items : List Value,
    depthOfItems items ≤ (style.separated (style.items items)).length
  | [] => Nat.zero_le _
  | v :: vs => by
    have hv := depth_le_length v
    have hvs := depthOfItems_le_length vs
    refine Nat.le_trans ?_ (length_separated_cons style (style.value v) (style.items vs))
    show max v.depth (depthOfItems vs) ≤ _
    omega

theorem depthOfFields_le_length : ∀ fields : List (Key × Value),
    depthOfFields fields ≤ (style.separated (style.fields fields)).length
  | [] => Nat.zero_le _
  | (k, v) :: rest => by
    have hv := depth_le_length v
    have hrest := depthOfFields_le_length rest
    refine Nat.le_trans ?_ (length_separated_cons style _ (style.fields rest))
    show max v.depth (depthOfFields rest) ≤ _
    rw [List.length_append]
    omega

end

/-! ### codecs -/

namespace Codec

/-- The codec prints and reads JSON: a value that can be sent is printed in some style, however deep it goes, and is
what a text of it in any style is read as. -/
structure IsFaithful (c : Codec) : Prop where
  prints : ∀ {v : Value}, v.IsSent → ∃ style : Style, style.IsReadable ∧ c.print v = .ok (write style v)
  reads : ∀ {v : Value} {style : Style}, v.IsSent → style.IsReadable → c.read (write style v) = .ok v

/-- A value arrives as it was sent. -/
theorem IsFaithful.carries {c : Codec} (h : c.IsFaithful) {v : Value} (hv : v.IsSent) :
    ∃ text, c.print v = .ok text ∧ c.read text = .ok v := by
  obtain ⟨style, hs, hprint⟩ := h.prints hv
  exact ⟨write style v, hprint, h.reads hv hs⟩

theorem isFaithful_plain : plain.IsFaithful where
  prints {v} hv := by
    refine ⟨shortest, isReadable_shortest, ?_⟩
    show Except.ok (write shortest v.exchanged) = _
    rw [exchanged_of_isFinite v hv.finite]
  reads {v style} hv hs := by
    have hdepth : v.depth ≤ (write style v).length := by
      rw [← String.length_toList]
      unfold write
      rw [String.toList_ofList]
      exact depth_le_length style v
    unfold plain
    dsimp only
    rw [readWithin_write hs hv.json hv.writable hdepth]

end Codec

end Json

end Outfitter
