import Outfitter.Json.Exchange
import Outfitter.Json.Codec
import Outfitter.Proofs.Journal.Writable
import Outfitter.Proofs.Json.Quoted
import Outfitter.Proofs.Text.Runs

/-!
Values that read back.

A value is what a JSON text may stand for if every field is known by a text and no object has two fields of one
name (`Value.isJson`). In a style whose commas and colons stand before blanks only, such a value reads back as
it was written, unless it holds a whole number of too many digits or lists and objects stand too deep within
each other (`readWithin_write`). Whatever is read can be written (`isWritable_of_readWithin`).
-/

namespace Outfitter

namespace Value

mutual

/-- Every field in the value is known by a text, and in no object are two known by the same one. -/
def isJson : Value → Bool
  | list items => areJson items
  | object fields => decide (fields.map (·.1)).Nodup && haveJson fields
  | _ => true

def areJson : List Value → Bool
  | [] => true
  | v :: vs => isJson v && areJson vs

def haveJson : List (Key × Value) → Bool
  | [] => true
  | (k, v) :: rest => k.isText && isJson v && haveJson rest

end

theorem areJson_iff (items : List Value) : areJson items = true ↔ ∀ v ∈ items, v.isJson = true := by
  induction items with
  | nil => exact iff_of_true rfl (List.forall_mem_nil _)
  | cons v vs ih =>
    unfold areJson
    rw [Bool.and_eq_true_iff, ih, List.forall_mem_cons]

theorem haveJson_iff (fields : Fields) :
    haveJson fields = true ↔ ∀ p ∈ fields, p.1.isText = true ∧ p.2.isJson = true := by
  induction fields with
  | nil => exact iff_of_true rfl (List.forall_mem_nil _)
  | cons p rest ih =>
    obtain ⟨k, v⟩ := p
    unfold haveJson
    rw [Bool.and_eq_true_iff, Bool.and_eq_true_iff, ih, List.forall_mem_cons]

end Value

theorem Key.isText_iff {k : Key} : k.isText = true ↔ ∃ s, k = .text s := by
  cases k <;> simp [Key.isText]

namespace Json

open Text

/-! ### blanks -/

/-- Only blanks stand behind the commas and the colons of the style. -/
structure Style.IsReadable (style : Style) : Prop where
  comma : ∃ blanks, style.comma.toList = ',' :: blanks ∧ ∀ c ∈ blanks, isJsonBlank c = true
  colon : ∃ blanks, style.colon.toList = ':' :: blanks ∧ ∀ c ∈ blanks, isJsonBlank c = true

theorem isReadable_spaced : spaced.IsReadable :=
  ⟨⟨[' '], rfl, List.forall_mem_singleton.mpr rfl⟩, ⟨[' '], rfl, List.forall_mem_singleton.mpr rfl⟩⟩

theorem isReadable_shortest : shortest.IsReadable :=
  ⟨⟨[], rfl, List.forall_mem_nil _⟩, ⟨[], rfl, List.forall_mem_nil _⟩⟩

/-- Something comes first that is neither blank nor the end of a list nor a byte order mark. -/
def Starts (text : List Char) : Prop :=
  ∃ c more, text = c :: more ∧ isJsonBlank c = false ∧ c ≠ ']' ∧ c ≠ '\ufeff'

variable {text rest blanks : List Char}

theorem Starts.append (h : Starts text) (rest : List Char) : Starts (text ++ rest) := by
  obtain ⟨c, more, rfl, hc⟩ := h
  exact ⟨c, more ++ rest, rfl, hc⟩

theorem skipBlanks_cons {c : Char} (h : isJsonBlank c = false) (position : Nat) :
    (Rest.mk position (c :: rest)).skipBlanks = ⟨position, c :: rest⟩ := by
  have hdrop : (c :: rest).dropWhile isJsonBlank = c :: rest :=
    List.dropWhile_cons_of_neg (by rw [h]; exact Bool.false_ne_true)
  unfold Rest.skipBlanks
  dsimp only
  rw [hdrop, Nat.sub_self, Nat.add_zero]

theorem skipBlanks_append (hblanks : ∀ c ∈ blanks, isJsonBlank c = true) (h : Starts text) (position : Nat) :
    ∃ position', (Rest.mk position (blanks ++ text)).skipBlanks = ⟨position', text⟩ := by
  obtain ⟨c, more, rfl, hc, -⟩ := h
  have hdrop : (blanks ++ c :: more).dropWhile isJsonBlank = c :: more := by
    rw [List.dropWhile_append_of_pos hblanks,
      List.dropWhile_cons_of_neg (by rw [hc]; exact Bool.false_ne_true)]
  unfold Rest.skipBlanks
  rw [hdrop]
  exact ⟨_, rfl⟩

theorem skipBlanks_starts (h : Starts text) (position : Nat) :
    (Rest.mk position text).skipBlanks = ⟨position, text⟩ := by
  obtain ⟨c, more, rfl, hc, -⟩ := h
  exact skipBlanks_cons hc position

/-! ### scalars -/

/-- What may follow a value within a text belongs to no number. -/
theorem endsNumber_cons {c : Char} (h : c ∈ [',', ']', '\x7d']) : EndsNumber (c :: rest) := by
  have hmarks : ∀ c ∈ [',', ']', '\x7d'], c.isDigit = false ∧ c ≠ '.' ∧ c ≠ 'e' ∧ c ≠ 'E' := by simp
  intro d hd
  obtain rfl := Option.some.inj hd
  exact hmarks c h

theorem endsNumber_nil : EndsNumber [] :=
  fun _ h => absurd h (Option.not_mem_none _)

/-- A digit comes first, or a digit behind a minus sign. -/
def StartsNumber (text : List Char) : Prop :=
  ∃ c more, c.isDigit = true ∧ (text = c :: more ∨ text = '-' :: c :: more)

theorem StartsNumber.append (h : StartsNumber text) (rest : List Char) : StartsNumber (text ++ rest) := by
  obtain ⟨c, more, hc, rfl | rfl⟩ := h
  · exact ⟨c, more ++ rest, hc, .inl rfl⟩
  · exact ⟨c, more ++ rest, hc, .inr rfl⟩

theorem StartsNumber.starts (h : StartsNumber text) : Starts text := by
  have hdigit {c : Char} (hc : c.isDigit = true) : isJsonBlank c = false ∧ c ≠ ']' ∧ c ≠ '\ufeff' := by
    have hmarks : ∀ c ∈ [' ', '\t', '\n', '\r', ']', '\ufeff'], c.isDigit = false := by simp
    have hne : ∀ d ∈ [' ', '\t', '\n', '\r', ']', '\ufeff'], c ≠ d := by
      rintro d hd rfl
      rw [hmarks c hd] at hc
      cases hc
    unfold isJsonBlank
    simpa [and_assoc] using hne
  obtain ⟨c, more, hc, rfl | rfl⟩ := h
  · exact ⟨c, more, rfl, hdigit hc⟩
  · exact ⟨'-', c :: more, rfl, rfl, by decide⟩

theorem startsNumber_toString (n : Int) : StartsNumber (toString n).toList := by
  obtain ⟨c, more, hdigits⟩ := List.exists_cons_of_ne_nil (Nat.toDigits_ne_nil (n := n.natAbs) (b := 10))
  have hc : c.isDigit = true := areDigits_toDigits n.natAbs c (hdigits ▸ List.mem_cons_self ..)
  rw [toList_toString, hdigits]
  cases decide (n < 0) with
  | true => exact ⟨c, more, hc, .inr rfl⟩
  | false => exact ⟨c, more, hc, .inl rfl⟩

/-- What is read as a number starts as one. -/
theorem startsNumber_of_readNumber {position : Nat} {found : Value × Rest}
    (h : readNumber ⟨position, text⟩ = .ok found) : StartsNumber text := by
  obtain ⟨unsigned, hunsigned, hsign⟩ : ∃ unsigned, (minus text).2 = unsigned ∧
      (text = unsigned ∨ text = '-' :: unsigned) := by
    refine ⟨_, rfl, ?_⟩
    unfold minus
    split
    · exact .inr rfl
    · exact .inl rfl
  have hwhole : wholeDigits unsigned ≠ [] := by
    intro hempty
    unfold readNumber at h
    dsimp only at h
    rw [hunsigned, hempty, if_pos (List.isEmpty_nil (α := Char))] at h
    cases h
  obtain ⟨c, more, rfl, hc⟩ : ∃ c more, unsigned = c :: more ∧ c.isDigit = true := by
    unfold wholeDigits at hwhole
    split at hwhole
    · exact ⟨'0', _, rfl, rfl⟩
    · cases unsigned with
      | nil => exact absurd rfl hwhole
      | cons c more =>
        refine ⟨c, more, rfl, ?_⟩
        apply Decidable.byContradiction
        intro hc
        exact hwhole (List.takeWhile_cons_of_neg hc)
  exact ⟨c, more, hc, hsign⟩

/-- The words. -/
theorem forall_mem_wordValues {P : List Char × Value → Prop} (h₁ : P ("null".toList, .null))
    (h₂ : P ("true".toList, .bool true)) (h₃ : P ("false".toList, .bool false)) (h₄ : P ("NaN".toList, .float .nan))
    (h₅ : P ("Infinity".toList, .float (.infinite false)))
    (h₆ : P ("-Infinity".toList, .float (.infinite true))) : ∀ p ∈ wordValues, P p := by
  simp only [wordValues, List.forall_mem_cons]
  exact ⟨h₁, h₂, h₃, h₄, h₅, h₆, fun _ h => absurd h List.not_mem_nil⟩

theorem not_isPrefixOf_cons {c d : Char} {word more : List Char} (h : d ≠ c) :
    ¬ (d :: word).isPrefixOf (c :: more) = true := by
  rw [List.isPrefixOf_cons_cons, Bool.and_eq_true, beq_iff_eq]
  exact fun hp => h hp.1

/-- A number is no word. -/
theorem readScalar_number (h : StartsNumber text) (position : Nat) :
    readScalar ⟨position, text⟩ = readNumber ⟨position, text⟩ := by
  have hne {c d : Char} (hd : d.isDigit = false) (hc : c.isDigit = true) : d ≠ c := by
    rintro rfl
    rw [hc] at hd
    cases hd
  have hnone : wordValues.find? (·.1.isPrefixOf text) = none := by
    rw [List.find?_eq_none]
    obtain ⟨c, more, hc, rfl | rfl⟩ := h
    · refine forall_mem_wordValues ?_ ?_ ?_ ?_ ?_ ?_ <;> exact not_isPrefixOf_cons (hne (by decide) hc)
    · refine forall_mem_wordValues ?_ ?_ ?_ ?_ ?_ fun hp => ?_
      on_goal 6 =>
        -- a minus sign alone is the start of a word, too
        exact not_isPrefixOf_cons (hne (d := 'I') (by decide) hc) (Bool.and_eq_true_iff.mp hp).2
      all_goals exact not_isPrefixOf_cons (by decide)
  unfold readScalar
  dsimp only
  rw [hnone]

theorem takes_word {word : List Char} {v : Value} (h : (word, v) ∈ wordValues) : Takes readScalar word rest v := by
  intro position
  refine ⟨position + word.length, ?_⟩
  simp only [wordValues, List.mem_cons, Prod.mk.injEq, List.not_mem_nil, or_false] at h
  rcases h with ⟨rfl, rfl⟩ | ⟨rfl, rfl⟩ | ⟨rfl, rfl⟩ | ⟨rfl, rfl⟩ | ⟨rfl, rfl⟩ | ⟨rfl, rfl⟩ <;> rfl

/-- A word or a number is read as a value. -/
theorem takes_scalar {v : Value} (h : Takes readScalar text rest v)
    (hstart : ∃ c more, text = c :: more ∧ c ∉ ['"', '[', '\x7b']) {fuel : Nat} (hfuel : 0 < fuel) (depth : Nat) :
    Takes (readValue fuel depth) text rest v := by
  intro position
  obtain ⟨c, more, rfl, hc⟩ := hstart
  obtain ⟨position', h⟩ := h position
  obtain ⟨fuel, rfl⟩ := Nat.exists_eq_succ_of_ne_zero (Nat.ne_of_gt hfuel)
  refine ⟨position', Eq.trans ?_ h⟩
  have hmarks : c ≠ '"' ∧ c ≠ '[' ∧ c ≠ '\x7b' := by simpa using hc
  unfold readValue
  split
  · next heq => exact absurd (List.cons.inj heq).1 hmarks.1
  · next heq => exact absurd (List.cons.inj heq).1 hmarks.2.1
  · next heq => exact absurd (List.cons.inj heq).1 hmarks.2.2
  · next heq => exact absurd (List.cons.inj heq).1 hmarks.2.1
  · next heq => exact absurd (List.cons.inj heq).1 hmarks.2.2
  · rfl

/-- A number is read as a value. -/
theorem takes_number {v : Value} (hr : EndsNumber rest)
    (h : ∀ rest, EndsNumber rest → Takes readNumber text rest v) {fuel : Nat} (hfuel : 0 < fuel) (depth : Nat) :
    Takes (readValue fuel depth) text rest v := by
  obtain ⟨_, hread⟩ := h [] endsNumber_nil 0
  rw [List.append_nil] at hread
  have hstart := startsNumber_of_readNumber hread
  have hscalar : Takes readScalar text rest v := by
    intro position
    rw [readScalar_number (hstart.append rest)]
    exact h rest hr position
  refine takes_scalar hscalar ?_ hfuel depth
  obtain ⟨c, more, hc, rfl | rfl⟩ := hstart
  · refine ⟨c, more, rfl, fun hmem => ?_⟩
    have hmarks : ∀ c ∈ ['"', '[', '\x7b'], c.isDigit = false := by simp
    rw [hmarks c hmem] at hc
    cases hc
  · exact ⟨'-', c :: more, rfl, by decide⟩

/-! ### lists and objects -/

section

variable {style : Style}

theorem separated_cons (v w : List Char) (pieces : List (List Char)) :
    style.separated (v :: w :: pieces) = v ++ (style.comma.toList ++ style.separated (w :: pieces)) := by
  unfold Style.separated List.intercalate
  rw [show List.intersperse style.comma.toList (v :: w :: pieces) =
    v :: style.comma.toList :: List.intersperse style.comma.toList (w :: pieces) from rfl, List.flatten_cons,
    List.flatten_cons]

theorem separated_singleton (v : List Char) : style.separated [v] = v :=
  List.append_nil v

theorem starts_string (s : String) : Starts (style.string s) :=
  ⟨'"', _, rfl, rfl, by decide⟩

theorem startsNumber_textIn (l : Double.Layout) (x : Double.Finite) : StartsNumber (x.textIn l) := by
  obtain ⟨_, hread⟩ := readNumber_textIn l x endsNumber_nil 0
  rw [List.append_nil] at hread
  exact startsNumber_of_readNumber hread

/-- The text of a value begins with neither a blank nor the end of a list. -/
theorem starts_value (style : Style) (v : Value) : Starts (style.value v) := by
  have hword (word : List Char) (h : word.head?.any fun c => !isJsonBlank c && (c != ']' && c != '\ufeff')) :
      Starts word := by
    cases word with
    | nil => cases h
    | cons c word => exact ⟨c, word, rfl, by simpa using h⟩
  cases v with
  | null => exact hword _ rfl
  | bool b => cases b <;> exact hword _ rfl
  | int n => exact (startsNumber_toString n).starts
  | float x =>
    cases x with
    | finite x =>
      show Starts (String.ofList (x.textIn style.doubles)).toList
      rw [String.toList_ofList]
      exact (startsNumber_textIn style.doubles x).starts
    | infinite negative =>
      cases negative
      · exact hword "Infinity".toList rfl
      · exact hword "-Infinity".toList rfl
    | nan => exact hword "NaN".toList rfl
  | str s => exact starts_string s
  | list items => exact ⟨'[', _, rfl, rfl, by decide⟩
  | object fields => exact ⟨'\x7b', _, rfl, rfl, by decide⟩

theorem starts_items {items : List Value} (h : items ≠ []) : Starts (style.separated (style.items items)) := by
  obtain ⟨v, vs, rfl⟩ := List.exists_cons_of_ne_nil h
  cases vs with
  | nil =>
    show Starts (style.separated [style.value v])
    rw [separated_singleton]
    exact starts_value style v
  | cons w ws =>
    show Starts (style.separated (style.value v :: style.value w :: style.items ws))
    rw [separated_cons]
    exact (starts_value _ v).append _

theorem starts_fields (style : Style) {fields : List (Key × Value)} (h : fields ≠ []) :
    ∃ more, style.separated (style.fields fields) = '"' :: more := by
  obtain ⟨⟨k, v⟩, rest, rfl⟩ := List.exists_cons_of_ne_nil h
  cases rest with
  | nil => exact ⟨_, rfl⟩
  | cons p rest => exact ⟨_, rfl⟩

/-! ### what the reader does next -/

section

variable (fuel depth position : Nat)

theorem readValue_string : readValue (fuel + 1) depth ⟨position, '"' :: text⟩ =
    (readString ⟨position + 1, text⟩).map fun found => (.str found.1, found.2) := by
  unfold readValue
  rfl

theorem readValue_emptyList : readValue (fuel + 1) (depth + 1) ⟨position, '[' :: ']' :: rest⟩ =
    .ok (.list [], ⟨position + 2, rest⟩) := by
  have hskip : ((Rest.mk position ('[' :: ']' :: rest)).advance 1).skipBlanks = ⟨position + 1, ']' :: rest⟩ :=
    skipBlanks_cons rfl _
  unfold readValue
  dsimp only
  rw [hskip]
  rfl

theorem readValue_list (h : Starts text) : readValue (fuel + 1) (depth + 1) ⟨position, '[' :: text⟩ =
    (readItems fuel depth ⟨position + 1, text⟩).map fun found => (.list found.1, found.2) := by
  have hskip : ((Rest.mk position ('[' :: text)).advance 1).skipBlanks = ⟨position + 1, text⟩ :=
    skipBlanks_starts h _
  obtain ⟨c, more, rfl, -, hc, -⟩ := h
  rw [readValue.eq_5 _ fuel depth _ rfl, hskip]
  split
  · next heq => exact absurd (List.cons.inj heq).1 hc
  · rfl

theorem readValue_emptyObject : readValue (fuel + 1) (depth + 1) ⟨position, '\x7b' :: '\x7d' :: rest⟩ =
    .ok (.object [], ⟨position + 2, rest⟩) := by
  have hskip : ((Rest.mk position ('\x7b' :: '\x7d' :: rest)).advance 1).skipBlanks =
      ⟨position + 1, '\x7d' :: rest⟩ :=
    skipBlanks_cons rfl _
  unfold readValue
  dsimp only
  rw [hskip]
  rfl

theorem readValue_object : readValue (fuel + 1) (depth + 1) ⟨position, '\x7b' :: '"' :: text⟩ =
    (readFields fuel depth ⟨position + 1, '"' :: text⟩).map fun found =>
      (.object (Fields.ofPairs found.1), found.2) := by
  have hskip : ((Rest.mk position ('\x7b' :: '"' :: text)).advance 1).skipBlanks = ⟨position + 1, '"' :: text⟩ :=
    skipBlanks_cons rfl _
  unfold readValue
  dsimp only
  rw [hskip]
  rfl

variable {fuel depth position} {after behind : Nat} {v : Value} {r r' : Rest} {key : String}

theorem readItems_last (hv : readValue fuel depth ⟨position, text⟩ = .ok (v, ⟨after, ']' :: rest⟩)) :
    readItems (fuel + 1) depth ⟨position, text⟩ = .ok ([v], ⟨after + 1, rest⟩) := by
  have hskip : (Rest.mk after (']' :: rest)).skipBlanks = ⟨after, ']' :: rest⟩ := skipBlanks_cons rfl _
  rw [readItems, hv]
  simp only [bind, Except.bind, hskip]
  rfl

theorem readItems_more {items : List Value}
    (hv : readValue fuel depth ⟨position, text⟩ = .ok (v, ⟨after, ',' :: rest⟩))
    (hskip : (Rest.mk (after + 1) rest).skipBlanks = r) (hitems : readItems fuel depth r = .ok (items, r')) :
    readItems (fuel + 1) depth ⟨position, text⟩ = .ok (v :: items, r') := by
  have hcomma : (Rest.mk after (',' :: rest)).skipBlanks = ⟨after, ',' :: rest⟩ := skipBlanks_cons rfl _
  have hnext : ((Rest.mk after (',' :: rest)).advance 1).skipBlanks = r := hskip
  rw [readItems, hv]
  simp only [bind, Except.bind, hcomma, hnext, hitems]

section

variable {colon : Nat} {named : List Char}

theorem readFields_last (hkey : readString ⟨position + 1, text⟩ = .ok (key, ⟨colon, ':' :: named⟩))
    (hskip : (Rest.mk (colon + 1) named).skipBlanks = r)
    (hv : readValue fuel depth r = .ok (v, ⟨after, '\x7d' :: rest⟩)) :
    readFields (fuel + 1) depth ⟨position, '"' :: text⟩ = .ok ([(.text key, v)], ⟨after + 1, rest⟩) := by
  have hread : readString ((Rest.mk position ('"' :: text)).advance 1) = _ := hkey
  have hcolon : (Rest.mk colon (':' :: named)).skipBlanks = ⟨colon, ':' :: named⟩ := skipBlanks_cons rfl _
  have hnext : ((Rest.mk colon (':' :: named)).advance 1).skipBlanks = r := hskip
  have hend : (Rest.mk after ('\x7d' :: rest)).skipBlanks = ⟨after, '\x7d' :: rest⟩ := skipBlanks_cons rfl _
  rw [readFields]
  dsimp only
  rw [hread]
  simp only [bind, Except.bind, hcolon, hnext, hv, hend]
  rfl

theorem readFields_more {fields : List (Key × Value)}
    (hkey : readString ⟨position + 1, text⟩ = .ok (key, ⟨colon, ':' :: named⟩))
    (hskip : (Rest.mk (colon + 1) named).skipBlanks = r)
    (hv : readValue fuel depth r = .ok (v, ⟨after, ',' :: rest⟩))
    (hskip' : (Rest.mk (after + 1) rest).skipBlanks = r') {r'' : Rest}
    (hfields : readFields fuel depth r' = .ok (fields, r'')) :
    readFields (fuel + 1) depth ⟨position, '"' :: text⟩ = .ok ((.text key, v) :: fields, r'') := by
  have hread : readString ((Rest.mk position ('"' :: text)).advance 1) = _ := hkey
  have hcolon : (Rest.mk colon (':' :: named)).skipBlanks = ⟨colon, ':' :: named⟩ := skipBlanks_cons rfl _
  have hnext : ((Rest.mk colon (':' :: named)).advance 1).skipBlanks = r := hskip
  have hcomma : (Rest.mk after (',' :: rest)).skipBlanks = ⟨after, ',' :: rest⟩ := skipBlanks_cons rfl _
  have hnext' : ((Rest.mk after (',' :: rest)).advance 1).skipBlanks = r' := hskip'
  rw [readFields]
  dsimp only
  rw [hread]
  simp only [bind, Except.bind, hcolon, hnext, hv, hcomma, hnext', hfields]

end

end

/-! ### values -/

/-- The value is read as it is written, if there is fuel for the characters and room for the depth. -/
def ReadsBack (style : Style) (v : Value) : Prop :=
  ∀ (fuel depth : Nat) (rest : List Char), (style.value v).length < fuel → v.depth ≤ depth → EndsNumber rest →
    Takes (readValue fuel depth) (style.value v) rest v

theorem readsBack_word (word : List Char) {v : Value} (h : (word, v) ∈ wordValues) (htext : style.value v = word) :
    ReadsBack style v := by
  intro fuel depth rest hfuel _ _
  have hstart : ∀ p ∈ wordValues, ∃ c more, p.1 = c :: more ∧ c ∉ ['"', '[', '\x7b'] :=
    forall_mem_wordValues ⟨_, _, rfl, by decide⟩ ⟨_, _, rfl, by decide⟩ ⟨_, _, rfl, by decide⟩
      ⟨_, _, rfl, by decide⟩ ⟨_, _, rfl, by decide⟩ ⟨_, _, rfl, by decide⟩
  rw [htext]
  exact takes_scalar (takes_word h) (hstart _ h) (Nat.zero_lt_of_lt hfuel) depth

theorem readsBack_number {v : Value} (h : ∀ rest, EndsNumber rest → Takes readNumber (style.value v) rest v) :
    ReadsBack style v :=
  fun _ _ _ hfuel _ hr => takes_number hr h (Nat.zero_lt_of_lt hfuel) _

theorem readsBack_str (s : String) : ReadsBack style (.str s) := by
  intro fuel depth rest hfuel _ _ position
  obtain ⟨position', h⟩ := readString_takes style s rest (position + 1)
  obtain ⟨fuel, rfl⟩ := Nat.exists_eq_succ_of_ne_zero (Nat.ne_of_gt (Nat.zero_lt_of_lt hfuel))
  exact ⟨position', (readValue_string fuel depth position).trans (congrArg (Except.map _) h)⟩

/-- The items of a list are read as they are written, up to the end of the list. -/
def ItemsReadBack (style : Style) (items : List Value) : Prop :=
  ∀ (fuel depth : Nat) (rest : List Char), (style.separated (style.items items)).length + 1 < fuel →
    Value.depthOfItems items ≤ depth →
      Takes (readItems fuel depth) (style.separated (style.items items) ++ [']']) rest items

/-- The fields of an object are read as they are written, up to the end of the object. -/
def FieldsReadBack (style : Style) (fields : List (Key × Value)) : Prop :=
  ∀ (fuel depth : Nat) (rest : List Char), (style.separated (style.fields fields)).length + 1 < fuel →
    Value.depthOfFields fields ≤ depth →
      Takes (readFields fuel depth) (style.separated (style.fields fields) ++ ['\x7d']) rest fields

theorem readsBack_list {items : List Value} (h : items ≠ [] → ItemsReadBack style items) :
    ReadsBack style (.list items) := by
  intro fuel depth rest hfuel hdepth _ position
  have htext : style.value (.list items) ++ rest =
      '[' :: (style.separated (style.items items) ++ [']'] ++ rest) := rfl
  have hlength : (style.value (.list items)).length = (style.separated (style.items items)).length + 2 := by
    show ('[' :: (style.separated (style.items items) ++ [']'])).length = _
    simp
  have hdepth : Value.depthOfItems items + 1 ≤ depth := hdepth
  obtain ⟨fuel, rfl⟩ := Nat.exists_eq_succ_of_ne_zero (Nat.ne_of_gt (Nat.zero_lt_of_lt hfuel))
  obtain ⟨depth, rfl⟩ := Nat.exists_eq_succ_of_ne_zero (Nat.ne_of_gt (Nat.zero_lt_of_lt hdepth))
  rw [htext]
  by_cases hne : items = []
  · subst hne
    exact ⟨position + 2, readValue_emptyList fuel depth position⟩
  · have hfuel : (style.separated (style.items items)).length + 1 < fuel := by omega
    obtain ⟨position', hread⟩ := h hne fuel depth rest hfuel (Nat.le_of_succ_le_succ hdepth) (position + 1)
    exact ⟨position', (readValue_list fuel depth position (((starts_items hne).append _).append _)).trans
      (congrArg (Except.map _) hread)⟩

theorem readsBack_object {fields : List (Key × Value)} (hn : (fields.map (·.1)).Nodup)
    (h : fields ≠ [] → FieldsReadBack style fields) : ReadsBack style (.object fields) := by
  intro fuel depth rest hfuel hdepth _ position
  have htext : style.value (.object fields) ++ rest =
      '\x7b' :: (style.separated (style.fields fields) ++ ['\x7d'] ++ rest) := rfl
  have hlength : (style.value (.object fields)).length = (style.separated (style.fields fields)).length + 2 := by
    show ('\x7b' :: (style.separated (style.fields fields) ++ ['\x7d'])).length = _
    simp
  have hdepth : Value.depthOfFields fields + 1 ≤ depth := hdepth
  obtain ⟨fuel, rfl⟩ := Nat.exists_eq_succ_of_ne_zero (Nat.ne_of_gt (Nat.zero_lt_of_lt hfuel))
  obtain ⟨depth, rfl⟩ := Nat.exists_eq_succ_of_ne_zero (Nat.ne_of_gt (Nat.zero_lt_of_lt hdepth))
  rw [htext]
  by_cases hne : fields = []
  · subst hne
    exact ⟨position + 2, readValue_emptyObject fuel depth position⟩
  · have hfuel : (style.separated (style.fields fields)).length + 1 < fuel := by omega
    obtain ⟨position', hread⟩ := h hne fuel depth rest hfuel (Nat.le_of_succ_le_succ hdepth) (position + 1)
    obtain ⟨more, hmore⟩ := starts_fields style hne
    rw [hmore] at hread ⊢
    refine ⟨position', (readValue_object fuel depth position).trans ((congrArg (Except.map _) hread).trans ?_)⟩
    rw [Except.map, Fields.ofPairs_eq_self hn]

theorem itemsReadBack_singleton {v : Value} (hv : ReadsBack style v) : ItemsReadBack style [v] := by
  intro fuel depth rest hfuel hdepth position
  have htext : style.separated (style.items [v]) = style.value v := separated_singleton (style.value v)
  rw [htext] at hfuel
  have hdepth : max v.depth 0 ≤ depth := hdepth
  obtain ⟨fuel, rfl⟩ := Nat.exists_eq_succ_of_ne_zero (Nat.ne_of_gt (Nat.zero_lt_of_lt hfuel))
  obtain ⟨after, hread⟩ := hv fuel depth (']' :: rest) (by omega) (by omega) (endsNumber_cons (by decide)) position
  refine ⟨after + 1, ?_⟩
  rw [htext, List.append_assoc]
  exact readItems_last hread

theorem itemsReadBack_cons (hs : style.IsReadable) {v w : Value} {vs : List Value} (hv : ReadsBack style v)
    (hvs : ItemsReadBack style (w :: vs)) : ItemsReadBack style (v :: w :: vs) := by
  intro fuel depth rest hfuel hdepth position
  obtain ⟨blanks, hcomma, hblanks⟩ := hs.comma
  have htext : style.separated (style.items (v :: w :: vs)) =
      style.value v ++ ',' :: (blanks ++ style.separated (style.items (w :: vs))) := by
    have hsplit : style.separated (style.items (v :: w :: vs)) = _ := separated_cons ..
    rw [hsplit, hcomma]
    rfl
  rw [htext, List.length_append, List.length_cons, List.length_append] at hfuel
  have hdepth : max v.depth (Value.depthOfItems (w :: vs)) ≤ depth := hdepth
  have hstarts : Starts (style.separated (style.items (w :: vs)) ++ [']'] ++ rest) :=
    ((starts_items (List.cons_ne_nil w vs)).append _).append _
  obtain ⟨fuel, rfl⟩ := Nat.exists_eq_succ_of_ne_zero (Nat.ne_of_gt (Nat.zero_lt_of_lt hfuel))
  obtain ⟨after, hread⟩ := hv fuel depth
    (',' :: (blanks ++ (style.separated (style.items (w :: vs)) ++ [']'] ++ rest))) (by omega) (by omega)
    (endsNumber_cons (by decide)) position
  obtain ⟨next, hskip⟩ := skipBlanks_append hblanks hstarts (after + 1)
  obtain ⟨last, hitems⟩ := hvs fuel depth rest (by omega) (by omega) next
  refine ⟨last, ?_⟩
  have hassoc : style.separated (style.items (v :: w :: vs)) ++ [']'] ++ rest = style.value v ++
      ',' :: (blanks ++ (style.separated (style.items (w :: vs)) ++ [']'] ++ rest)) := by
    rw [htext]
    simp only [List.append_assoc, List.cons_append]
  rw [hassoc]
  exact readItems_more hread hskip hitems

/-- The name of a field, its colon, and its value. -/
theorem field_eq (hs : style.IsReadable) (key : String) (v : Value) : ∃ blanks,
    (∀ c ∈ blanks, isJsonBlank c = true) ∧ style.string (name (.text key)) ++ style.colon.toList ++ style.value v =
      '"' :: (key.toList.flatMap style.char ++ ['"'] ++ ':' :: (blanks ++ style.value v)) := by
  obtain ⟨blanks, hcolon, hblanks⟩ := hs.colon
  refine ⟨blanks, hblanks, ?_⟩
  rw [hcolon]
  show '"' :: (key.toList.flatMap style.char ++ ['"']) ++ ':' :: blanks ++ style.value v = _
  simp only [List.append_assoc, List.cons_append]

theorem fieldsReadBack_singleton (hs : style.IsReadable) {key : String} {v : Value} (hv : ReadsBack style v) :
    FieldsReadBack style [(.text key, v)] := by
  intro fuel depth rest hfuel hdepth position
  obtain ⟨blanks, hblanks, hfield⟩ := field_eq hs key v
  have htext : style.separated (style.fields [(.text key, v)]) = _ := (separated_singleton _).trans hfield
  rw [htext] at hfuel
  simp only [List.length_append, List.length_cons] at hfuel
  have hdepth : max v.depth 0 ≤ depth := hdepth
  have hstarts : Starts (style.value v ++ '\x7d' :: rest) := (starts_value _ v).append _
  obtain ⟨fuel, rfl⟩ := Nat.exists_eq_succ_of_ne_zero (Nat.ne_of_gt (Nat.zero_lt_of_lt hfuel))
  obtain ⟨colon, hkey⟩ := readString_takes style key (':' :: (blanks ++ (style.value v ++ '\x7d' :: rest)))
    (position + 1)
  obtain ⟨next, hskip⟩ := skipBlanks_append hblanks hstarts (colon + 1)
  obtain ⟨after, hread⟩ := hv fuel depth ('\x7d' :: rest) (by omega) (by omega) (endsNumber_cons (by decide)) next
  refine ⟨after + 1, ?_⟩
  have hassoc : style.separated (style.fields [(.text key, v)]) ++ ['\x7d'] ++ rest =
      '"' :: (key.toList.flatMap style.char ++ ['"'] ++ ':' :: (blanks ++ (style.value v ++ '\x7d' :: rest))) := by
    rw [htext]
    simp only [List.append_assoc, List.cons_append, List.nil_append]
  rw [hassoc]
  exact readFields_last hkey hskip hread

theorem fieldsReadBack_cons (hs : style.IsReadable) {key : String} {v : Value} {p : Key × Value}
    {fields : List (Key × Value)} (hv : ReadsBack style v) (hfields : FieldsReadBack style (p :: fields)) :
    FieldsReadBack style ((.text key, v) :: p :: fields) := by
  intro fuel depth rest hfuel hdepth position
  obtain ⟨blanks, hblanks, hfield⟩ := field_eq hs key v
  obtain ⟨blanks', hcomma, hblanks'⟩ := hs.comma
  obtain ⟨more, hmore⟩ := starts_fields style (List.cons_ne_nil p fields)
  have htext : style.separated (style.fields ((.text key, v) :: p :: fields)) =
      '"' :: (key.toList.flatMap style.char ++ ['"'] ++ ':' :: (blanks ++ style.value v)) ++
        ',' :: (blanks' ++ style.separated (style.fields (p :: fields))) := by
    have hsplit : style.separated (style.fields ((.text key, v) :: p :: fields)) = _ := separated_cons ..
    rw [hsplit, hcomma, hfield]
    rfl
  rw [htext] at hfuel
  simp only [List.length_append, List.length_cons] at hfuel
  have hdepth : max v.depth (Value.depthOfFields (p :: fields)) ≤ depth := hdepth
  obtain ⟨behind, hbehind⟩ : ∃ behind, behind = style.separated (style.fields (p :: fields)) ++ ['\x7d'] ++ rest :=
    ⟨_, rfl⟩
  have hstarts : Starts (style.value v ++ ',' :: (blanks' ++ behind)) := (starts_value _ v).append _
  have hstarts' : Starts behind := ⟨'"', more ++ ['\x7d'] ++ rest, by rw [hbehind, hmore]; rfl, rfl, by decide⟩
  obtain ⟨fuel, rfl⟩ := Nat.exists_eq_succ_of_ne_zero (Nat.ne_of_gt (Nat.zero_lt_of_lt hfuel))
  obtain ⟨colon, hkey⟩ := readString_takes style key (':' :: (blanks ++ (style.value v ++ ',' :: (blanks' ++ behind))))
    (position + 1)
  obtain ⟨next, hskip⟩ := skipBlanks_append hblanks hstarts (colon + 1)
  obtain ⟨after, hread⟩ := hv fuel depth (',' :: (blanks' ++ behind)) (by omega) (by omega)
    (endsNumber_cons (by decide)) next
  obtain ⟨next', hskip'⟩ := skipBlanks_append hblanks' hstarts' (after + 1)
  obtain ⟨last, hlast⟩ := hfields fuel depth rest (by omega) (by omega) next'
  refine ⟨last, ?_⟩
  have hassoc : style.separated (style.fields ((.text key, v) :: p :: fields)) ++ ['\x7d'] ++ rest =
      '"' :: (key.toList.flatMap style.char ++ ['"'] ++
        ':' :: (blanks ++ (style.value v ++ ',' :: (blanks' ++ behind)))) := by
    rw [htext, hbehind]
    simp only [List.append_assoc, List.cons_append]
  rw [hassoc]
  exact readFields_more hkey hskip hread hskip' (hbehind ▸ hlast)

mutual

/-- **A value reads back**, whatever it is made of. -/
theorem readsBack (hs : style.IsReadable) : ∀ v : Value, v.isJson = true → v.isWritable = true → ReadsBack style v
  | .null => fun _ _ => readsBack_word "null".toList (by simp [wordValues]) rfl
  | .bool true => fun _ _ => readsBack_word "true".toList (by simp [wordValues]) rfl
  | .bool false => fun _ _ => readsBack_word "false".toList (by simp [wordValues]) rfl
  | .int n => fun _ hw => readsBack_number fun _ => readNumber_toString hw
  | .float (.finite x) => fun _ _ => readsBack_number fun _ hr => by
    have htext : style.value (.float (.finite x)) = x.textIn style.doubles := String.toList_ofList
    rw [htext]
    exact readNumber_textIn style.doubles x hr
  | .float (.infinite true) => fun _ _ => readsBack_word "-Infinity".toList (by simp [wordValues]) rfl
  | .float (.infinite false) => fun _ _ => readsBack_word "Infinity".toList (by simp [wordValues]) rfl
  | .float .nan => fun _ _ => readsBack_word "NaN".toList (by simp [wordValues]) rfl
  | .str s => fun _ _ => readsBack_str s
  | .list items => fun hj hw => readsBack_list (itemsReadBack hs items hj hw)
  | .object fields => by
    intro hj hw
    obtain ⟨hn, hj⟩ := Bool.and_eq_true_iff.mp hj
    exact readsBack_object (of_decide_eq_true hn) (fieldsReadBack hs fields hj hw)

theorem itemsReadBack (hs : style.IsReadable) : ∀ items : List Value, Value.areJson items = true →
    Value.areWritable items = true → items ≠ [] → ItemsReadBack style items
  | [] => fun _ _ h => absurd rfl h
  | [v] => by
    intro hj hw _
    exact itemsReadBack_singleton
      (readsBack hs v (Bool.and_eq_true_iff.mp hj).1 (Bool.and_eq_true_iff.mp hw).1)
  | v :: w :: vs => by
    intro hj hw _
    obtain ⟨hjv, hjvs⟩ := Bool.and_eq_true_iff.mp hj
    obtain ⟨hwv, hwvs⟩ := Bool.and_eq_true_iff.mp hw
    exact itemsReadBack_cons hs (readsBack hs v hjv hwv) (itemsReadBack hs (w :: vs) hjvs hwvs (List.cons_ne_nil w vs))

theorem fieldsReadBack (hs : style.IsReadable) : ∀ fields : List (Key × Value), Value.haveJson fields = true →
    Value.haveWritable fields = true → fields ≠ [] → FieldsReadBack style fields
  | [] => fun _ _ h => absurd rfl h
  | [(k, v)] => by
    intro hj hw _
    obtain ⟨hk, hjv⟩ := Bool.and_eq_true_iff.mp (Bool.and_eq_true_iff.mp hj).1
    obtain ⟨key, rfl⟩ := Key.isText_iff.mp hk
    exact fieldsReadBack_singleton hs (readsBack hs v hjv (Bool.and_eq_true_iff.mp hw).1)
  | (k, v) :: p :: rest => by
    intro hj hw _
    obtain ⟨hkv, hjrest⟩ := Bool.and_eq_true_iff.mp hj
    obtain ⟨hk, hjv⟩ := Bool.and_eq_true_iff.mp hkv
    obtain ⟨hwv, hwrest⟩ := Bool.and_eq_true_iff.mp hw
    obtain ⟨key, rfl⟩ := Key.isText_iff.mp hk
    exact fieldsReadBack_cons hs (readsBack hs v hjv hwv)
      (fieldsReadBack hs (p :: rest) hjrest hwrest (List.cons_ne_nil p rest))

end

/-- **What was written as JSON reads back**, if it holds no whole number of too many digits and does not go deeper
than the reader. -/
theorem readWithin_write (hs : style.IsReadable) {v : Value} (hj : v.isJson = true) (hw : v.isWritable = true)
    {depth : Nat} (hdepth : v.depth ≤ depth) : readWithin depth (write style v) = .ok v := by
  obtain ⟨c, more, htext, hstart⟩ := starts_value style v
  have hmark : ¬ ((style.value v).head? == some '\ufeff') = true := by
    rw [htext, beq_iff_eq]
    exact fun h => hstart.2.2 (Option.some.inj h)
  have hskip : (Rest.skipBlanks ⟨0, style.value v⟩) = ⟨0, style.value v⟩ :=
    skipBlanks_starts ⟨c, more, htext, hstart⟩ 0
  obtain ⟨position, hread⟩ := readsBack hs v hj hw (2 * (style.value v).length + 2) depth [] (by omega) hdepth
    endsNumber_nil 0
  rw [List.append_nil] at hread
  unfold readWithin write
  simp only [String.toList_ofList, if_neg hmark, hskip, hread, bind, Except.bind]
  rfl

end

/-! ### what is read can be written -/

theorem map_eq_ok {ε α β : Type} {x : Except ε α} {f : α → β} {b : β} (h : x.map f = .ok b) :
    ∃ a, x = .ok a ∧ f a = b := by
  cases x with
  | error e => cases h
  | ok a => exact ⟨a, rfl, Except.ok.inj h⟩

theorem bind_eq_ok {ε α β : Type} {x : Except ε α} {f : α → Except ε β} {b : β} (h : x >>= f = .ok b) :
    ∃ a, x = .ok a ∧ f a = .ok b := by
  cases x with
  | error e => cases h
  | ok a => exact ⟨a, rfl, h⟩

theorem isWritable_of_numberOf {negative : Bool} {whole fraction : List Char} {exponent : Option Int} {v : Value}
    (h : numberOf negative whole fraction exponent = .ok v) : v.isWritable = true := by
  unfold numberOf at h
  split at h
  · split at h
    · cases h
    · rename_i hlength
      obtain rfl := Except.ok.inj h
      have hshort : Numeral.isShort (Text.ofDigits whole) = true :=
        Filters.isShort_of_lt_pow (ofDigits_lt whole) (Nat.not_lt.mp hlength)
      show Numeral.isShort (if negative then _ else _) = true
      split
      · rw [Numeral.isShort_neg]
        exact hshort
      · exact hshort
  · obtain rfl := Except.ok.inj h
    rfl

theorem isWritable_of_readScalar {r rest : Rest} {v : Value} (h : readScalar r = .ok (v, rest)) :
    v.isWritable = true := by
  have hwords : ∀ p ∈ wordValues, p.2.isWritable = true := forall_mem_wordValues rfl rfl rfl rfl rfl rfl
  unfold readScalar at h
  split at h
  · rename_i hword
    obtain ⟨rfl, -⟩ := Prod.mk.inj (Except.ok.inj h)
    exact hwords _ (List.mem_of_find?_eq_some hword)
  · unfold readNumber at h
    dsimp only at h
    split at h
    · cases h
    · obtain ⟨w, hw, he⟩ := map_eq_ok h
      obtain ⟨rfl, -⟩ := Prod.mk.inj he
      exact isWritable_of_numberOf hw

/-- What is read with this fuel can be written. -/
structure ReadsWritable (fuel : Nat) : Prop where
  value : ∀ {depth : Nat} {r rest : Rest} {v : Value}, readValue fuel depth r = .ok (v, rest) →
    v.isWritable = true
  items : ∀ {depth : Nat} {r rest : Rest} {items : List Value}, readItems fuel depth r = .ok (items, rest) →
    Value.areWritable items = true
  fields : ∀ {depth : Nat} {r rest : Rest} {fields : List (Key × Value)},
    readFields fuel depth r = .ok (fields, rest) → Value.haveWritable fields = true

theorem readsWritable_zero : ReadsWritable 0 := by
  refine ⟨fun h => ?_, fun h => ?_, fun h => ?_⟩
  · cases h
  · cases h
  · cases h

theorem ReadsWritable.succ_value (ih : ReadsWritable fuel) {r after : Rest} {v : Value}
    (h : readValue (fuel + 1) depth r = .ok (v, after)) : v.isWritable = true := by
  unfold readValue at h
  split at h
  · obtain ⟨s, -, he⟩ := map_eq_ok h
    obtain ⟨rfl, -⟩ := Prod.mk.inj he
    rfl
  · cases h
  · cases h
  · dsimp only at h
    split at h
    · obtain ⟨rfl, -⟩ := Prod.mk.inj (Except.ok.inj h)
      rfl
    · obtain ⟨items, hitems, he⟩ := map_eq_ok h
      obtain ⟨rfl, -⟩ := Prod.mk.inj he
      exact ih.items hitems
  · dsimp only at h
    split at h
    · obtain ⟨rfl, -⟩ := Prod.mk.inj (Except.ok.inj h)
      rfl
    · obtain ⟨fields, hfields, he⟩ := map_eq_ok h
      obtain ⟨rfl, -⟩ := Prod.mk.inj he
      exact Value.haveWritable_ofPairs (ih.fields hfields)
  · exact isWritable_of_readScalar h

theorem ReadsWritable.succ_items (ih : ReadsWritable fuel) {r after : Rest} {items : List Value}
    (h : readItems (fuel + 1) depth r = .ok (items, after)) : Value.areWritable items = true := by
  unfold readItems at h
  obtain ⟨⟨v, next⟩, hv, h⟩ := bind_eq_ok h
  dsimp only at h
  have hwritable := ih.value hv
  split at h
  · obtain ⟨rfl, -⟩ := Prod.mk.inj (Except.ok.inj h)
    exact Bool.and_eq_true_iff.mpr ⟨hwritable, rfl⟩
  · obtain ⟨⟨vs, last⟩, hvs, h⟩ := bind_eq_ok h
    obtain ⟨rfl, -⟩ := Prod.mk.inj (Except.ok.inj h)
    exact Bool.and_eq_true_iff.mpr ⟨hwritable, ih.items hvs⟩
  · cases h

theorem ReadsWritable.succ_fields (ih : ReadsWritable fuel) {r after : Rest} {fields : List (Key × Value)}
    (h : readFields (fuel + 1) depth r = .ok (fields, after)) : Value.haveWritable fields = true := by
  unfold readFields at h
  split at h
  · obtain ⟨⟨key, named⟩, -, h⟩ := bind_eq_ok h
    dsimp only at h
    split at h
    · obtain ⟨⟨v, next⟩, hv, h⟩ := bind_eq_ok h
      dsimp only at h
      have hwritable := ih.value hv
      split at h
      · obtain ⟨rfl, -⟩ := Prod.mk.inj (Except.ok.inj h)
        exact Bool.and_eq_true_iff.mpr ⟨hwritable, rfl⟩
      · obtain ⟨⟨more, last⟩, hmore, h⟩ := bind_eq_ok h
        obtain ⟨rfl, -⟩ := Prod.mk.inj (Except.ok.inj h)
        exact Bool.and_eq_true_iff.mpr ⟨hwritable, ih.fields hmore⟩
      · cases h
    · cases h
  · cases h

theorem readsWritable (fuel : Nat) : ReadsWritable fuel := by
  induction fuel with
  | zero => exact readsWritable_zero
  | succ fuel ih => exact ⟨ih.succ_value, ih.succ_items, ih.succ_fields⟩

/-- **What has been read can be written again**: a whole number with too many digits is not read. -/
theorem isWritable_of_readWithin {depth : Nat} {text : String} {v : Value} (h : readWithin depth text = .ok v) :
    v.isWritable = true := by
  unfold readWithin at h
  dsimp only at h
  split at h
  · cases h
  · obtain ⟨⟨w, rest⟩, hread, h⟩ := bind_eq_ok h
    dsimp only at h
    split at h
    · obtain rfl := Except.ok.inj h
      exact (readsWritable _).value hread
    · cases h

end Json

end Outfitter
