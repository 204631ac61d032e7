import Mathlib.Data.List.Dedup
import Outfitter.Proofs.Json.Reading
import Outfitter.Proofs.Store.Found

/-!
Both kinds of store are one table.

A store in memory and a client in touch with a server answer every sequence of requests as the records that were
put and not deleted since are; only a client has an answer of its own to a record whose messages it cannot count
(`answers_eq`). Either store holds the texts of the records of one table, under keys of its own.
-/

namespace Outfitter.Store

/-- What is asked of a store. -/
inductive Request where
  | get (id : String)
  | put (id : String) (r : Value)
  | delete (id : String)
  | count

inductive Answer where
  | record (r : Option Value)
  | truth (b : Bool)
  /-- No number is told if the counting does not come to an end. -/
  | number (n : Option Nat)

/-- The answer to a request, and the store after it. -/
def respond (reach : Nat) (pages : Server String → Pages) (s : Store String) :
    Request → Except Fault Answer × Store String
  | .get id => ((load false reach (.str id) s).outcome.map .record, (load false reach (.str id) s).store)
  | .put id r => ((save false reach (.str id) r s).outcome.map .truth, (save false reach (.str id) r s).store)
  | .delete id => ((delete false (.str id) s).outcome.map .truth, (delete false (.str id) s).store)
  | .count => ((countPaged false pages s).outcome.map .number, (countPaged false pages s).store)

/-- The answers to requests one after the other. A server may tell its keys in other pages every time. -/
def answers (reach : Nat) : (Nat → Server String → Pages) → Store String → List Request →
    List (Except Fault Answer)
  | _, _, [] => []
  | pages, s, q :: rest =>
    (respond reach (pages 0) s q).1 ::
      answers reach (fun n => pages (n + 1)) (respond reach (pages 0) s q).2 rest

/-! ### the records after some requests -/

/-- A record can be kept: it is not too deep, and no number in it is too long. -/
def isKept (reach : Nat) (r : Value) : Bool :=
  decide (r.depth ≤ reach) && r.isWritable

/-- What a request leaves of the record that was found under an identifier. -/
def Request.leaves (reach : Nat) (id : String) (found : Option Value) : Request → Option Value
  | .put other r => if other = id ∧ isKept reach r = true then some r else found
  | .delete other => if other = id then none else found
  | _ => found

/-- The record that was last put under an identifier and not deleted since. -/
def recordAfter (reach : Nat) (past : List Request) (id : String) : Option Value :=
  past.foldl (Request.leaves reach id) none

/-- The identifier under which a record is put. -/
def Request.putId? : Request → Option String
  | .put id _ => some id
  | _ => none

/-- The identifiers under which there is a record. -/
def presentAfter (reach : Nat) (past : List Request) : List String :=
  (past.filterMap Request.putId?).dedup.filter fun id => (recordAfter reach past id).isSome

/-- The answer to a request, as the requests before it have it. -/
def answerAfter (reach : Nat) (past : List Request) : Request → Except Fault Answer
  | .get id => .ok (.record (recordAfter reach past id))
  | .put _ r => (encode reach r).map fun _ => .truth true
  | .delete id => .ok (.truth (recordAfter reach past id).isSome)
  | .count => .ok (.number (some (presentAfter reach past).length))

def answersAfter (reach : Nat) : List Request → List Request → List (Except Fault Answer)
  | _, [] => []
  | past, q :: rest => answerAfter reach past q :: answersAfter reach (past ++ [q]) rest

/-- What a client answers instead: it counts the messages of a record that it has put. -/
def Request.told (answer : Except Fault Answer) : Request → Except Fault Answer
  | .put _ r => answer.bind fun _ => (Record.messageCount r).map fun _ => .truth true
  | _ => answer

/-! ### one table of records -/

/-- The texts of records, under keys that are made from their identifiers. -/
def texts {κ : Type} (f : String → κ) (records : List (String × Value)) : List (κ × String) :=
  records.map fun p => (f p.1, Json.write Json.spaced p.2)

/-- The records after a request. -/
def Request.next (reach : Nat) (records : List (String × Value)) : Request → List (String × Value)
  | .put id r => if isKept reach r = true then Keyed.put records id r else records
  | .delete id => Keyed.without records id
  | _ => records

/-- The answer to a request about some records. -/
def Request.answer (reach : Nat) (records : List (String × Value)) : Request → Except Fault Answer
  | .get id => .ok (.record (records.lookup id))
  | .put _ r => (encode reach r).map fun _ => .truth true
  | .delete id => .ok (.truth (records.lookup id).isSome)
  | .count => .ok (.number (some records.length))

variable {reach : Nat} {records : List (String × Value)} {past : List Request}

/-- The records can be read again from their texts. -/
def AreKept (reach : Nat) (records : List (String × Value)) : Prop :=
  ∀ p ∈ records, p.2.isJson = true ∧ isKept reach p.2 = true

theorem encode_of_isKept {r : Value} (h : isKept reach r = true) :
    encode reach r = .ok (Json.write Json.spaced r) := by
  obtain ⟨hdepth, hw⟩ := Bool.and_eq_true_iff.mp h
  unfold encode
  rw [if_neg (Nat.not_lt.mpr (of_decide_eq_true hdepth)), if_pos hw]

theorem encode_of_not_isKept {r : Value} (h : ¬ isKept reach r = true) :
    ∃ fault, encode reach r = .error fault := by
  unfold encode
  split
  · exact ⟨_, rfl⟩
  · rename_i hdepth
    have hw : ¬ r.isWritable = true := fun hw =>
      h (Bool.and_eq_true_iff.mpr ⟨decide_eq_true (Nat.not_lt.mp hdepth), hw⟩)
    rw [if_neg hw]
    exact ⟨_, rfl⟩

/-- **A record is read from its text as it was.** -/
theorem decode_write {r : Value} (hj : r.isJson = true) (h : isKept reach r = true) :
    decode reach (Json.write Json.spaced r) = .ok r := by
  obtain ⟨hdepth, hw⟩ := Bool.and_eq_true_iff.mp h
  unfold decode
  rw [Json.readWithin_write Json.isReadable_spaced hj hw (of_decide_eq_true hdepth)]
  rfl

/-- The record that is read under a key. -/
theorem decode_lookup {κ : Type} [DecidableEq κ] {f : String → κ} (hf : ∀ a b, f a = f b → a = b)
    (h : AreKept reach records) (id : String) :
    ((texts f records).lookup (f id)).mapM (decode reach) = .ok (records.lookup id) := by
  unfold texts
  rw [Keyed.lookup_mapped hf]
  cases hfound : records.lookup id with
  | none => rfl
  | some r =>
    obtain ⟨hj, hkept⟩ := h (id, r) (Keyed.mem_of_lookup hfound)
    show (decode reach (Json.write Json.spaced r)).map some = _
    rw [decode_write hj hkept]
    rfl

/-! ### stores that hold the texts of records -/

/-- The store holds the texts of the records: a store in memory under their identifiers, or a server, which is
remote, under the keys made from them. -/
inductive Holds (records : List (String × Value)) : (remote : Bool) → Store String → Prop where
  | memory : Holds records false (.memory (texts Key.text records))
  | live {config : Config} {lifetimes : List (String × Value)} :
    Holds records true (.client config (.live ⟨texts (fun id => key (.str id)) records, lifetimes⟩))

variable {s : Store String} {remote : Bool}

theorem text_injective (a b : String) (h : Key.text a = Key.text b) : a = b :=
  Key.text.inj h

/-- An operation on the record of a text is done under this text. -/
theorem underKey_str {α : Type} (table : List (Key × String)) (id : String)
    (operation : Key → α × List (Key × String)) : underKey table (.str id) operation =
      ⟨.ok (operation (.text id)).1, .memory (operation (.text id)).2, []⟩ := by
  show Effect.mk (.ok (operation (Key.among _ (.text id))).1) (.memory (operation (Key.among _ (.text id))).2) [] = _
  rw [Key.among_text]

theorem load_of_holds (hs : Holds records remote s) (h : AreKept reach records) (id : String) :
    (load false reach (.str id) s).outcome = .ok (records.lookup id) ∧ (load false reach (.str id) s).store = s := by
  refine ⟨?_, get_store ..⟩
  cases hs with
  | memory =>
    have hget : (get false (.str id) (.memory (texts Key.text records))).outcome =
        .ok ((texts Key.text records).lookup (.text id)) :=
      congrArg Effect.outcome (underKey_str _ id fun k => ((texts Key.text records).lookup k, texts Key.text records))
    have hload : (load false reach (.str id) (.memory (texts Key.text records))).outcome =
        (get false (.str id) (.memory (texts Key.text records))).outcome.bind fun text =>
          text.mapM (decode reach) := rfl
    rw [hload, hget]
    exact decode_lookup text_injective h id
  | live => exact decode_lookup (fun _ _ => key_injective) h id

theorem keep_of_holds (hs : Holds records remote s) (id : String) (r : Value) (count : Except Fault Nat) :
    (keep false (.str id) (.ok (Json.write Json.spaced r)) count s).outcome =
        (if remote then count.map fun _ => true else .ok true) ∧
      Holds (Keyed.put records id r) remote
        (keep false (.str id) (.ok (Json.write Json.spaced r)) count s).store := by
  cases hs with
  | memory =>
    have hput : keep false (.str id) (.ok (Json.write Json.spaced r)) count (.memory (texts Key.text records)) =
        ⟨.ok true, .memory (Keyed.put (texts Key.text records) (.text id) (Json.write Json.spaced r)), []⟩ :=
      underKey_str _ id fun k => (true, Keyed.put (texts Key.text records) k (Json.write Json.spaced r))
    rw [hput]
    refine ⟨rfl, ?_⟩
    show Holds _ _ (.memory (Keyed.put (records.map fun p => (Key.text p.1, Json.write Json.spaced p.2)) _ _))
    rw [Keyed.put_mapped text_injective]
    exact .memory
  | @live config lifetimes =>
    refine ⟨rfl, ?_⟩
    show Holds _ _ (.client config (.live ⟨Keyed.put
      (records.map fun p => (key (.str p.1), Json.write Json.spaced p.2)) (key (.str id))
      (Json.write Json.spaced r), _⟩))
    rw [Keyed.put_mapped (f := fun id => key (.str id)) fun _ _ => key_injective]
    exact .live

theorem delete_of_holds (hs : Holds records remote s) (id : String) :
    (delete false (.str id) s).outcome = .ok (records.lookup id).isSome ∧
      Holds (Keyed.without records id) remote (delete false (.str id) s).store := by
  cases hs with
  | memory =>
    have hdelete : delete false (.str id) (.memory (texts Key.text records)) =
        ⟨.ok ((texts Key.text records).lookup (.text id)).isSome,
          .memory (Keyed.without (texts Key.text records) (.text id)), []⟩ :=
      underKey_str _ id fun k =>
        (((texts Key.text records).lookup k).isSome, Keyed.without (texts Key.text records) k)
    rw [hdelete]
    unfold texts
    rw [Keyed.lookup_mapped text_injective, Keyed.without_mapped text_injective, Option.isSome_map]
    exact ⟨rfl, .memory⟩
  | @live config lifetimes =>
    have hf : ∀ a b : String, key (.str a) = key (.str b) → a = b := fun _ _ => key_injective
    have hfound := Keyed.lookup_mapped hf (Json.write Json.spaced) records id
    have hwithout := Keyed.without_mapped hf (Json.write Json.spaced) records id
    have hdelete : delete false (.str id)
          (.client config (.live ⟨texts (fun id => key (.str id)) records, lifetimes⟩)) =
        ⟨.ok ((texts (fun id => key (.str id)) records).lookup (key (.str id))).isSome,
          .client config (.live ⟨Keyed.without (texts (fun id => key (.str id)) records) (key (.str id)), lifetimes⟩),
          []⟩ := rfl
    rw [hdelete]
    unfold texts
    rw [hfound, hwithout, Option.isSome_map]
    exact ⟨rfl, .live⟩

/-- The keys that a server has for the records. -/
theorem keys_texts (records : List (String × Value)) (lifetimes : List (String × Value)) :
    (Server.mk (texts (fun id => key (.str id)) records) lifetimes).keys =
      (texts (fun id => key (.str id)) records).map (·.1) := by
  unfold Server.keys
  refine List.filter_eq_self.mpr fun k hk => ?_
  obtain ⟨p, hp, rfl⟩ := List.mem_map.mp hk
  obtain ⟨q, -, rfl⟩ := List.mem_map.mp hp
  show keyPrefix.toList.isPrefixOf (keyPrefix ++ (Value.str q.1).text).toList = true
  rw [String.toList_append, List.isPrefixOf_iff_prefix]
  exact List.prefix_append ..

theorem countPaged_of_holds (hs : Holds records remote s) {pages : Server String → Pages}
    (hpages : ∀ server, (pages server).TellAll server.keys) :
    (countPaged false pages s).outcome = .ok (some records.length) ∧ (countPaged false pages s).store = s := by
  cases hs with
  | memory =>
    have hlength : (texts Key.text records).length = records.length := List.length_map ..
    exact ⟨congrArg (fun n => Except.ok (some n)) hlength, rfl⟩
  | @live config lifetimes =>
    refine ⟨?_, rfl⟩
    have hcount := countFrom_of_tellAll (hpages ⟨texts (fun id => key (.str id)) records, lifetimes⟩)
    rw [keys_texts] at hcount
    unfold texts at hcount
    rw [List.length_map, List.length_map] at hcount
    exact congrArg Except.ok hcount

/-! ### requests -/

theorem save_of_holds (reach : Nat) (hs : Holds records remote s) (id : String) (r : Value) :
    (save false reach (.str id) r s).outcome = ((encode reach r).bind fun _ =>
        if remote then (Record.messageCount r).map fun _ => true else .ok true) ∧
      Holds (Request.next reach records (.put id r)) remote (save false reach (.str id) r s).store := by
  unfold Request.next
  dsimp only
  by_cases hkept : isKept reach r = true
  · have hencode := encode_of_isKept hkept
    unfold save
    rw [hencode, if_pos hkept]
    exact keep_of_holds hs id r _
  · obtain ⟨fault, hfault⟩ := encode_of_not_isKept hkept
    have hserves : s.serves false = true := by
      cases hs <;> rfl
    unfold save
    rw [hfault, if_neg hkept, keep_of_fault hserves]
    exact ⟨rfl, hs⟩

/-- What a store answers, which counts messages if it is remote. -/
def Request.answerOf (remote : Bool) (answer : Except Fault Answer) (q : Request) : Except Fault Answer :=
  if remote then q.told answer else answer

/-- **A store answers a request as the records that it holds do**, and holds the records after it. -/
theorem respond_of_holds (hs : Holds records remote s) (h : AreKept reach records) {pages : Server String → Pages}
    (hpages : ∀ server, (pages server).TellAll server.keys) (q : Request) :
    (respond reach pages s q).1 = q.answerOf remote (q.answer reach records) ∧
      Holds (q.next reach records) remote (respond reach pages s q).2 := by
  cases q with
  | get id =>
    obtain ⟨houtcome, hstore⟩ := load_of_holds hs h id
    change (load false reach (.str id) s).outcome.map Answer.record = _ ∧
      Holds records remote (load false reach (.str id) s).store
    rw [houtcome, hstore]
    exact ⟨by cases remote <;> rfl, hs⟩
  | put id r =>
    obtain ⟨houtcome, hstore⟩ := save_of_holds reach hs id r
    refine ⟨?_, hstore⟩
    change (save false reach (.str id) r s).outcome.map Answer.truth =
      Request.answerOf remote ((encode reach r).map fun _ => .truth true) (.put id r)
    rw [houtcome]
    unfold Request.answerOf Request.told
    cases encode reach r with
    | error fault => cases remote <;> rfl
    | ok text =>
      cases remote with
      | false => rfl
      | true =>
        simp only [Except.bind, Except.map, if_true]
        cases Record.messageCount r <;> rfl
  | delete id =>
    obtain ⟨houtcome, hstore⟩ := delete_of_holds hs id
    refine ⟨?_, hstore⟩
    change (delete false (.str id) s).outcome.map Answer.truth = _
    rw [houtcome]
    cases remote <;> rfl
  | count =>
    obtain ⟨houtcome, hstore⟩ := countPaged_of_holds hs hpages
    change (countPaged false pages s).outcome.map Answer.number = _ ∧
      Holds records remote (countPaged false pages s).store
    rw [houtcome, hstore]
    exact ⟨by cases remote <;> rfl, hs⟩

/-! ### what the records recall -/

/-- The records are those that were put and not deleted since. -/
structure Recalls (reach : Nat) (past : List Request) (records : List (String × Value)) : Prop where
  nodup : (records.map (·.1)).Nodup
  lookup : ∀ id, records.lookup id = recordAfter reach past id
  kept : AreKept reach records

theorem recalls_nil : Recalls reach [] [] :=
  ⟨List.nodup_nil, fun _ => rfl, fun _ h => absurd h List.not_mem_nil⟩

theorem recordAfter_append (past : List Request) (q : Request) (id : String) :
    recordAfter reach (past ++ [q]) id = q.leaves reach id (recordAfter reach past id) :=
  List.foldl_append

theorem Recalls.put (h : Recalls reach past records) (id : String) {r : Value} (hj : r.isJson = true)
    (hkept : isKept reach r = true) : Recalls reach (past ++ [.put id r]) (Keyed.put records id r) where
  nodup := Keyed.nodup_put h.nodup id r
  lookup other := by
    rw [recordAfter_append, ← h.lookup]
    unfold Request.leaves
    by_cases hid : id = other
    · subst hid
      exact (Keyed.lookup_put_self ..).trans (if_pos ⟨rfl, hkept⟩).symm
    · exact (Keyed.lookup_put_of_ne _ _ (Ne.symm hid)).trans (if_neg fun he => hid he.1).symm
  kept p hp := by
    have hlookup := Keyed.lookup_of_mem (Keyed.nodup_put h.nodup id r) hp
    by_cases hid : p.1 = id
    · rw [hid, Keyed.lookup_put_self] at hlookup
      exact Option.some.inj hlookup ▸ ⟨hj, hkept⟩
    · rw [Keyed.lookup_put_of_ne _ _ hid] at hlookup
      exact h.kept p (Keyed.mem_of_lookup hlookup)

theorem Recalls.delete (h : Recalls reach past records) (id : String) :
    Recalls reach (past ++ [.delete id]) (Keyed.without records id) where
  nodup := by
    rw [Keyed.keys_without]
    exact h.nodup.filter _
  lookup other := by
    rw [recordAfter_append, ← h.lookup]
    unfold Request.leaves
    by_cases hid : id = other
    · subst hid
      exact (Keyed.lookup_without_self ..).trans (if_pos rfl).symm
    · exact (Keyed.lookup_without_of_ne _ (Ne.symm hid)).trans (if_neg hid).symm
  kept p hp := h.kept p (List.mem_filter.mp hp).1

/-- A request that changes no record leaves what is recalled as it is. -/
theorem Recalls.same (h : Recalls reach past records) {q : Request}
    (hq : ∀ id found, q.leaves reach id found = found) : Recalls reach (past ++ [q]) records where
  nodup := h.nodup
  lookup id := by rw [recordAfter_append, hq, h.lookup]
  kept := h.kept

/-- **A request does to the records what it does to what is recalled.** -/
theorem Recalls.next (h : Recalls reach past records) {q : Request}
    (hq : ∀ id r, q = .put id r → r.isJson = true) : Recalls reach (past ++ [q]) (q.next reach records) := by
  cases q with
  | get id => exact h.same fun _ _ => rfl
  | put id r =>
    unfold Request.next
    dsimp only
    split
    · rename_i hkept
      exact h.put id (hq id r rfl) hkept
    · rename_i hkept
      exact h.same fun _ _ => if_neg fun he => hkept he.2
  | delete id => exact h.delete id
  | count => exact h.same fun _ _ => rfl

/-- A record is only found under an identifier under which one was put, if none was there before. -/
theorem mem_putIds_of_isSome {id : String} {found : Option Value}
    (h : (past.foldl (Request.leaves reach id) found).isSome = true) :
    found.isSome = true ∨ id ∈ past.filterMap Request.putId? := by
  induction past generalizing found with
  | nil => exact .inl h
  | cons q rest ih =>
    rcases ih h with hleft | hmem
    · cases q with
      | put other r =>
        by_cases hid : other = id
        · exact .inr (List.mem_filterMap.mpr ⟨.put other r, List.mem_cons_self .., congrArg some hid⟩)
        · have hsame : Request.leaves reach id found (.put other r) = found := if_neg fun he => hid he.1
          exact .inl (hsame ▸ hleft)
      | delete other =>
        by_cases hid : other = id
        · rw [show Request.leaves reach id found (.delete other) = none from if_pos hid] at hleft
          cases hleft
        · have hsame : Request.leaves reach id found (.delete other) = found := if_neg hid
          exact .inl (hsame ▸ hleft)
      | get | count => exact .inl hleft
    · obtain ⟨q', hq', hid⟩ := List.mem_filterMap.mp hmem
      exact .inr (List.mem_filterMap.mpr ⟨q', List.mem_cons_of_mem _ hq', hid⟩)

/-- There are as many records as identifiers under which there is one. -/
theorem Recalls.length (h : Recalls reach past records) : (presentAfter reach past).length = records.length := by
  have hperm : (presentAfter reach past).Perm (records.map (·.1)) := by
    refine (List.perm_ext_iff_of_nodup ((List.nodup_dedup _).filter _) h.nodup).mpr fun id => ?_
    rw [List.mem_filter, List.mem_dedup, Keyed.mem_keys_iff, h.lookup, ← Option.isSome_iff_ne_none]
    exact and_iff_right_of_imp fun hfound => (mem_putIds_of_isSome hfound).resolve_left Bool.false_ne_true
  rw [hperm.length_eq, List.length_map]

theorem Recalls.answer (h : Recalls reach past records) (q : Request) :
    q.answer reach records = answerAfter reach past q := by
  cases q with
  | get id => exact congrArg (fun r => Except.ok (Answer.record r)) (h.lookup id)
  | put id r => rfl
  | delete id => exact congrArg (fun r => Except.ok (Answer.truth r.isSome)) (h.lookup id)
  | count => exact congrArg (fun n => Except.ok (Answer.number (some n))) h.length.symm

/-! ### sequences of requests -/

/-- Every record that is put is a JSON value. -/
def PutsJson (qs : List Request) : Prop :=
  ∀ id r, Request.put id r ∈ qs → r.isJson = true

theorem answers_of_holds {pages : Nat → Server String → Pages}
    (hpages : ∀ n server, (pages n server).TellAll server.keys) {qs : List Request} (hqs : PutsJson qs) (hs : Holds records remote s) (h : Recalls reach past records) :
    answers reach pages s qs =
      List.zipWith (fun q answer => q.answerOf remote answer) qs (answersAfter reach past qs) := by
  induction qs generalizing pages s records past with
  | nil => rfl
  | cons q rest ih =>
    obtain ⟨hanswer, hnext⟩ := respond_of_holds hs h.kept (hpages 0) q
    have hrest : PutsJson rest := fun id r hmem => hqs id r (List.mem_cons_of_mem _ hmem)
    have hrecalls := h.next fun id r he => hqs id r (he ▸ List.mem_cons_self ..)
    unfold answers answersAfter
    rw [List.zipWith_cons_cons, hanswer, h.answer, ih (fun n => hpages (n + 1)) hrest hnext hrecalls]

/-- A client tells the same of a request, unless it cannot count the messages of a record that it keeps. -/
theorem told_eq_iff (past : List Request) (q : Request) :
    q.told (answerAfter reach past q) = answerAfter reach past q ↔
      ∀ id r, q = .put id r → isKept reach r = true → ∃ n, Record.messageCount r = .ok n := by
  cases q with
  | put id r =>
    have hputs : (∀ other r', Request.put id r = .put other r' → isKept reach r' = true →
        ∃ n, Record.messageCount r' = .ok n) ↔ (isKept reach r = true → ∃ n, Record.messageCount r = .ok n) :=
      ⟨fun h => h id r rfl, fun h _ _ he => (Request.put.inj he).2 ▸ h⟩
    rw [hputs]
    unfold Request.told answerAfter
    dsimp only
    by_cases hkept : isKept reach r = true
    · rw [encode_of_isKept hkept]
      cases Record.messageCount r with
      | ok n => exact iff_of_true rfl fun _ => ⟨n, rfl⟩
      | error fault => exact iff_of_false nofun fun h => nomatch (h hkept).choose_spec
    · obtain ⟨fault, hfault⟩ := encode_of_not_isKept hkept
      rw [hfault]
      exact iff_of_true rfl fun h => absurd h hkept
  | get | delete | count => exact iff_of_true rfl nofun

theorem zipWith_told_eq_iff (past qs : List Request) :
    List.zipWith (fun q answer => q.told answer) qs (answersAfter reach past qs) = answersAfter reach past qs ↔
      ∀ id r, .put id r ∈ qs → isKept reach r = true → ∃ n, Record.messageCount r = .ok n := by
  induction qs generalizing past with
  | nil => exact iff_of_true rfl nofun
  | cons q rest ih =>
    unfold answersAfter
    rw [List.zipWith_cons_cons, List.cons.injEq, told_eq_iff, ih]
    constructor
    · rintro ⟨hfirst, hrest⟩ id r hmem
      rcases List.mem_cons.mp hmem with he | hmem
      · exact hfirst id r he.symm
      · exact hrest id r hmem
    · intro h
      exact ⟨fun id r he => h id r (he ▸ List.mem_cons_self ..),
        fun id r hmem => h id r (List.mem_cons_of_mem _ hmem)⟩

theorem zipWith_answer (past qs : List Request) :
    List.zipWith (fun _ answer => answer) qs (answersAfter reach past qs) = answersAfter reach past qs := by
  induction qs generalizing past with
  | nil => rfl
  | cons q rest ih => exact congrArg (_ :: ·) (ih _)

/-- **Both kinds of store are one table.** They answer as the records do that were put and not deleted since, and a
client answers otherwise only where it cannot count the messages of a record that it keeps. -/
theorem answers_eq (reach : Nat) {pages : Nat → Server String → Pages}
    (hpages : ∀ n server, (pages n server).TellAll server.keys) (config : Config) (link : Link String)
    {qs : List Request} (hqs : PutsJson qs) :
    answers reach pages (.memory []) qs = answersAfter reach [] qs ∧
    answers reach pages (connect false (.client config link)).store qs =
      List.zipWith (fun q answer => q.told answer) qs (answersAfter reach [] qs) ∧
    (answers reach pages (connect false (.client config link)).store qs = answers reach pages (.memory []) qs ↔
      ∀ id r, .put id r ∈ qs → isKept reach r = true → ∃ n, Record.messageCount r = .ok n) := by
  have hmemory : answers reach pages (.memory []) qs = answersAfter reach [] qs :=
    (answers_of_holds hpages hqs .memory recalls_nil).trans (zipWith_answer [] qs)
  have hclient : answers reach pages (connect false (.client config link)).store qs =
      List.zipWith (fun q answer => q.told answer) qs (answersAfter reach [] qs) :=
    answers_of_holds hpages hqs .live recalls_nil
  refine ⟨hmemory, hclient, ?_⟩
  rw [hmemory, hclient]
  exact zipWith_told_eq_iff [] qs

/-- Two records, one of them put again and the other one deleted twice. -/
theorem answers_eq_of_two :
    let said := Value.object [("messages", .list [.object [("role", .str "user"), ("text", .str "a red skirt")]])]
    let qs : List Request := [.put "a" (.object []), .put "b" said, .put "a" said, .count, .get "a", .delete "b",
      .delete "b", .get "b", .count]
    let told : List (Except Fault Answer) := [.ok (.truth true), .ok (.truth true), .ok (.truth true),
      .ok (.number (some 2)), .ok (.record (some said)), .ok (.truth true), .ok (.truth false), .ok (.record none),
      .ok (.number (some 1))]
    answers 10 (fun _ s => s.pages 3) (.memory []) qs = told ∧
      answers 10 (fun _ s => s.pages 3)
        (connect false (.client ⟨.str "127.0.0.1", .int 6379, .null, .int 0, .int 86400⟩ .none)).store qs = told := by
  intro said qs told
  have hqs : PutsJson qs := by
    intro id r hmem
    simp only [qs, List.mem_cons, List.not_mem_nil, or_false, Request.put.injEq, reduceCtorEq] at hmem
    rcases hmem with ⟨-, rfl⟩ | ⟨-, rfl⟩ | ⟨-, rfl⟩ <;> decide +kernel
  have htold : answersAfter 10 [] qs = told := rfl
  obtain ⟨hmemory, hclient, -⟩ := answers_eq 10 (fun _ s => tellAll_pages (by decide : 0 < 3) s)
    ⟨.str "127.0.0.1", .int 6379, .null, .int 0, .int 86400⟩ .none hqs
  exact ⟨hmemory.trans htold, hclient.trans (htold ▸ rfl)⟩

/-- A record whose messages have no size is kept by a client, but the client does not say so. -/
theorem client_fails_of_null_messages :
    (Value.object [("messages", .null)]).isJson = true ∧
    answers 10 (fun _ s => s.pages 3) (.memory []) [.put "a" (.object [("messages", .null)])] = [.ok (.truth true)] ∧
    answers 10 (fun _ s => s.pages 3)
        (connect false (.client ⟨.str "127.0.0.1", .int 6379, .null, .int 0, .int 86400⟩ .none)).store
        [.put "a" (.object [("messages", .null)])] = [.error (.notSized .null)] :=
  ⟨by decide +kernel, rfl, rfl⟩

end Outfitter.Store
