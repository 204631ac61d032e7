import Outfitter.Store
import Outfitter.Store.Texts

/-!
What a store keeps under the identifiers that are texts.

A store that serves is a table in memory or a client in touch with a server that is up. What it keeps is
told by `Store.find?`, and an operation on one identifier changes it there alone.

Its keys are counted page by page. Where the pages come to an end, the loop that asks for them does, and it finds as
many keys as they tell (`countFrom_of_tells`). A store in memory and a client whose server tells every key once count
alike.
-/

namespace Outfitter

/-! ### keys -/

/-- A text counts the same as no other scalar. -/
theorem Key.eq_of_same_text {k : Key} {s : String} (h : k.toValue.same (.str s) = true) : k = .text s := by
  cases k with
  | text t => rw [beq_iff_eq.mp (show (t == s) = true by simpa [Key.toValue, Value.same] using h)]
  | _ => simp [Key.toValue, Value.same] at h

theorem Key.among_text (keys : List Key) (s : String) : Key.among keys (.text s) = .text s := by
  unfold Key.among
  cases h : keys.find? fun k => k.toValue.same (Key.text s).toValue with
  | none => rfl
  | some k =>
    have := List.find?_some h
    exact Key.eq_of_same_text this

namespace Store

variable {ρ : Type}

theorem key_injective {s t : String} (h : key (.str s) = key (.str t)) : s = t := by
  have h : "session:v1:".toList ++ s.toList = "session:v1:".toList ++ t.toList := by
    rw [← String.toList_append, ← String.toList_append]
    exact congrArg String.toList h
  exact String.toList_inj.mp (List.append_cancel_left h)

/-! ### stores that serve -/

/-- The store does what is asked of it: it is a table in memory, or a client in touch with a server that
is up. -/
def serves (down : Bool) : Store ρ → Bool
  | memory _ => true
  | client _ (.live _) => !down
  | _ => false

/-- The record that is kept under an identifier. -/
def find? (s : Store ρ) (id : String) : Option ρ :=
  match s with
  | memory records => records.lookup (.text id)
  | client _ (.live s) | client _ (.closed s) => s.records.lookup (key (.str id))
  | _ => none

theorem get_of_serves {down : Bool} {s : Store ρ} (h : s.serves down = true) (id : String) :
    (get down (.str id) s).outcome = .ok (s.find? id) ∧ (get down (.str id) s).store = s := by
  cases s with
  | memory records =>
    refine ⟨?_, rfl⟩
    show Except.ok (List.lookup (Key.among _ (.text id)) records) = _
    rw [Key.among_text]
    rfl
  | client config link =>
    cases link with
    | live s =>
      obtain rfl : down = false := Bool.not_eq_true' .. ▸ h
      exact ⟨rfl, rfl⟩
    | _ => cases h
  | bare => cases h

/-- An operation that changes what is kept under one identifier, and only there. -/
structure ChangesAt (down : Bool) (s s' : Store ρ) (id : String) (r : Option ρ) : Prop where
  serves : s'.serves down = true
  here : s'.find? id = r
  elsewhere : ∀ other, other ≠ id → s'.find? other = s.find? other

/-- A store that serves keeps what is written of a record. -/
theorem keep_of_serves {down : Bool} {s : Store ρ} (h : s.serves down = true) (id : String) (r : ρ) (count : Nat) :
    (keep down (.str id) (.ok r) (.ok count) s).outcome = .ok true ∧
      ChangesAt down s (keep down (.str id) (.ok r) (.ok count) s).store id (some r) := by
  cases s with
  | memory records =>
    have hstore : (keep down (.str id) (.ok r) (.ok count) (memory records)).store =
        memory (Keyed.put records (.text id) r) := by
      show memory (Keyed.put records (Key.among _ (.text id)) r) = _
      rw [Key.among_text]
    rw [hstore]
    refine ⟨rfl, rfl, Keyed.lookup_put_self .., fun other hne => ?_⟩
    exact Keyed.lookup_put_of_ne _ _ fun he => hne (Key.text.inj he)
  | client config link =>
    cases link with
    | live s =>
      obtain rfl : down = false := Bool.not_eq_true' .. ▸ h
      refine ⟨rfl, rfl, Keyed.lookup_put_self .., fun other hne => ?_⟩
      exact Keyed.lookup_put_of_ne _ _ fun he => hne (key_injective he)
    | _ => cases h
  | bare => cases h

/-- Nothing is kept of a record that cannot be written. -/
theorem keep_of_fault {down : Bool} {s : Store ρ} (h : s.serves down = true) (id : String) (fault : Fault)
    (count : Except Fault Nat) : keep down (.str id) (.error fault) count s = ⟨.error fault, s, []⟩ := by
  cases s with
  | memory records => rfl
  | client config link =>
    cases link with
    | live s => rfl
    | _ => cases h
  | bare => cases h

theorem put_of_serves {down : Bool} {s : Store Session} (h : s.serves down = true) (id : String) {r : Session}
    (hr : r.toValue.isWritable = true) : (put down (.str id) r s).outcome = .ok true ∧
      ChangesAt down s (put down (.str id) r s).store id (some r) := by
  have hput : put down (.str id) r s = keep down (.str id) (.ok r) (.ok r.messages.length) s := by
    have hwritten : r.toValue.demandWritable = .ok r.toValue := if_pos hr
    show keep down (.str id) (r.toValue.demandWritable.map fun _ => r) _ s = _
    rw [hwritten]
    rfl
  rw [hput]
  exact keep_of_serves h id r _

theorem put_of_unwritable {down : Bool} {s : Store Session} (h : s.serves down = true) (id : String) {r : Session}
    (hr : ¬ r.toValue.isWritable = true) : put down (.str id) r s = ⟨.error .tooLongToWrite, s, []⟩ := by
  have hwritten : r.toValue.demandWritable = .error .tooLongToWrite := if_neg hr
  show keep down (.str id) (r.toValue.demandWritable.map fun _ => r) _ s = _
  rw [hwritten]
  exact keep_of_fault h id _ _

theorem delete_of_serves {down : Bool} {s : Store ρ} (h : s.serves down = true) (id : String) :
    (delete down (.str id) s).outcome = .ok (s.find? id).isSome ∧
      ChangesAt down s (delete down (.str id) s).store id none := by
  cases s with
  | memory records =>
    have hdelete : delete down (.str id) (memory records) =
        ⟨.ok (records.lookup (.text id)).isSome, memory (Keyed.without records (.text id)), []⟩ := by
      show Effect.mk (.ok (List.lookup (Key.among _ (.text id)) records).isSome)
        (memory (Keyed.without records (Key.among _ (.text id)))) [] = _
      rw [Key.among_text]
    rw [hdelete]
    refine ⟨rfl, rfl, Keyed.lookup_without_self .., fun other hne => ?_⟩
    exact Keyed.lookup_without_of_ne _ fun he => hne (Key.text.inj he)
  | client config link =>
    cases link with
    | live s =>
      obtain rfl : down = false := Bool.not_eq_true' .. ▸ h
      refine ⟨rfl, rfl, Keyed.lookup_without_self .., fun other hne => ?_⟩
      exact Keyed.lookup_without_of_ne _ fun he => hne (key_injective he)
    | _ => cases h
  | bare => cases h

/-! ### stores that have to be waited for

An operation that has to be waited for leaves a store whose operations have to be waited for. -/

theorem waits_underKey {α : Type} (records : List (Key × ρ)) (id : Value)
    (operation : Key → α × List (Key × ρ)) : (underKey records id operation).store.waits = false := by
  unfold underKey
  cases id.key? <;> rfl

theorem waits_ask {α : Type} (down : Bool) (config : Config) (s : Server ρ)
    (question : Except Fault (Except Fault α × Server ρ × List Journal.Entry)) :
    (ask down config s question).store.waits = true := by
  cases question with
  | error fault => rfl
  | ok told => cases down <;> rfl

/-- Nothing is changed where a record is looked for. -/
theorem get_store (down : Bool) (id : Value) (s : Store ρ) : (get down id s).store = s := by
  cases s with
  | memory records =>
    unfold get underKey
    cases id.key? <;> rfl
  | client config link =>
    cases link with
    | live s =>
      unfold get
      dsimp only
      cases demandKey id with
      | error fault => rfl
      | ok k => cases down <;> rfl
    | _ => rfl
  | bare => rfl

theorem waits_get (down : Bool) (id : Value) (s : Store ρ) : (get down id s).store.waits = s.waits := by
  rw [get_store]

theorem waits_put [Record ρ] (down : Bool) (id : Value) (r : ρ) (s : Store ρ) :
    (put down id r s).store.waits = s.waits := by
  unfold put
  generalize (Record.toValue r).demandWritable.map (fun _ => r) = written
  cases s with
  | memory records =>
    cases written with
    | ok r => exact waits_underKey ..
    | error fault => rfl
  | client config link =>
    cases link with
    | live s => exact waits_ask ..
    | _ => rfl
  | bare => rfl

theorem waits_delete (down : Bool) (id : Value) (s : Store ρ) : (delete down id s).store.waits = s.waits := by
  cases s with
  | memory records => exact waits_underKey ..
  | client config link =>
    cases link with
    | live s => exact waits_ask ..
    | _ => rfl
  | bare => rfl

theorem count_store (down : Bool) (s : Store ρ) : (count down s).store = s := by
  cases s with
  | client config link => cases link <;> rfl
  | _ => rfl

/-! ### counting page by page -/

variable {pages : Pages} {cursor : Nat} {keys : List String}

/-- The pages from a cursor on come to an end, and these are the keys in them. -/
inductive Pages.Tells (pages : Pages) : Nat → List String → Prop where
  | last {cursor : Nat} {keys : List String} (h : pages cursor = (0, keys)) : Tells pages cursor keys
  | more {cursor next : Nat} {keys rest : List String} (h : pages cursor = (next, keys)) (hnext : next ≠ 0)
      (hrest : Tells pages next rest) : Tells pages cursor (keys ++ rest)

/-- The pages tell each of the keys once. -/
def Pages.TellAll (pages : Pages) (keys : List String) : Prop :=
  ∃ told, pages.Tells 0 told ∧ told.Perm keys

/-- **The loop comes to an end where the pages do**, with the number of keys in them. -/
theorem countFrom_of_tells (h : pages.Tells cursor keys) (found : Nat) :
    pages.countFrom cursor found = some (found + keys.length) := by
  induction h generalizing found with
  | last h =>
    rw [Pages.countFrom, h]
    exact if_pos rfl
  | more h hnext _ ih =>
    rw [Pages.countFrom, h]
    dsimp only
    rw [if_neg hnext, ih, List.length_append, Nat.add_assoc]

theorem countFrom_of_tellAll (h : pages.TellAll keys) : pages.countFrom 0 0 = some keys.length := by
  obtain ⟨told, htells, hperm⟩ := h
  rw [countFrom_of_tells htells, Nat.zero_add, hperm.length_eq]

/-- Pages of a fixed size tell all keys. -/
theorem tells_pages {size : Nat} (hsize : 0 < size) (s : Server ρ) (cursor : Nat) :
    (s.pages size).Tells cursor (s.keys.drop cursor) := by
  by_cases hmore : cursor + size < s.keys.length
  · have hpage : s.pages size cursor = (cursor + size, (s.keys.drop cursor).take size) := by
      unfold Server.pages
      dsimp only
      rw [if_pos hmore]
    have hrest := tells_pages hsize s (cursor + size)
    rw [← List.take_append_drop size (s.keys.drop cursor), List.drop_drop]
    exact .more hpage (by omega) hrest
  · have hshort : (s.keys.drop cursor).length ≤ size := by
      rw [List.length_drop]
      omega
    refine .last ?_
    unfold Server.pages
    dsimp only
    rw [if_neg hmore, List.take_of_length_le hshort]
termination_by s.keys.length - cursor

theorem tellAll_pages {size : Nat} (hsize : 0 < size) (s : Server ρ) : (s.pages size).TellAll s.keys :=
  ⟨s.keys, tells_pages hsize s 0, List.Perm.refl _⟩

end Store

end Outfitter
