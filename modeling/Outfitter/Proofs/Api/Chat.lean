import Outfitter.Proofs.Api.Bodies
import Outfitter.Proofs.Assistant.AtOnce
import Outfitter.Proofs.Dialogue.Planned

/-!
Conversations with and without a session.

With a session the server holds the filters between two messages; without one the client sends back those
of the last reply. Both conversations go on alike (`routes_agree`), but for one thing: what is sent back is
normalized, and if a color that mentions pastel has been joined with another color, the other one is lost.
-/

namespace Outfitter.Api

open Filters Schema

/-! ### conversations -/

/-- A conversation: the server, and the filters of the last reply, null before the first. -/
structure Chat where
  server : Server
  filters : Value

/-- The filters in a response, null if there are none. -/
def filtersIn : Except Fault Response → Value
  | .ok r => r.body.get "filters"
  | .error _ => .null

namespace Chat

/-- A body is posted. -/
def post (c : Chat) (path : List Char) (body : Value) : Except Fault Response × Chat :=
  let (response, server) := c.server.respond ⟨"POST", ⟨path, []⟩, .value body⟩
  (response, ⟨server, filtersIn response⟩)

/-- A message is posted to a session. -/
def say (c : Chat) (path : List Char) (text : String) : Except Fault Response × Chat :=
  c.post path (messageBody text)

/-- A message is posted with the filters of the last reply. -/
def ask (c : Chat) (text : String) : Except Fault Response × Chat :=
  c.post "/api/chat/reply".toList (messageBodyWith text c.filters)

/-- The conversation after some messages to a session, one by one. -/
def afterSaying (c : Chat) (path : List Char) (texts : List String) : Chat :=
  texts.foldl (fun c text => (c.say path text).2) c

/-- The conversation after some messages without a session, one by one. -/
def afterAsking (c : Chat) (texts : List String) : Chat :=
  texts.foldl (fun c text => (c.ask text).2) c

theorem filters_afterSaying (c : Chat) (path : List Char) (texts : List String) (text : String) :
    (c.afterSaying path (texts ++ [text])).filters = filtersIn ((c.afterSaying path texts).say path text).1 := by
  unfold afterSaying
  rw [List.foldl_append]
  rfl

theorem filters_afterAsking (c : Chat) (texts : List String) (text : String) :
    (c.afterAsking (texts ++ [text])).filters = filtersIn ((c.afterAsking texts).ask text).1 := by
  unfold afterAsking
  rw [List.foldl_append]
  rfl

end Chat

/-- The colors in some filters. -/
def colorsIn (filters : Value) : List String :=
  Message.textsOf (filters.get "colors")

/-- The colors that are lost when filters are sent back: those that do not mention pastel, next to one
that does. -/
def lostColors (filters : Value) : List String :=
  if (colorsIn filters).any mentionsPastel then (colorsIn filters).filter (!mentionsPastel ·) else []

/-- The message can be sent, and the numerals of its budget are not above the greatest double. -/
structure Accepted (text : String) : Prop where
  length : text.length ≤ maxMessage
  range : Message.InRange text.toList

instance (text : String) : Decidable (Accepted text) :=
  decidable_of_iff (text.length ≤ maxMessage ∧ Message.InRange text.toList)
    ⟨fun h => ⟨h.1, h.2⟩, fun h => ⟨h.length, h.range⟩⟩

/-! ### a message to a session -/

open Assistant

/-- The conversation is at a session that asks for this. -/
structure Chat.InSession (e : Setting) (id : String) (c : Chat) (l : Look) : Prop where
  rest : AtRest e c.server.assistant
  shows : Shows Is (sessionOf (.str id) (c.server.assistant.record? id)).filters l
  settled : l.Settled
  colors : colorsIn c.filters = l.tokens "colors"

variable {e : Setting} {id text : String} {c : Chat} {l l' d : Look} {path : List Char} {r : Dialogue.Reply}

theorem post_ne_head : "POST" ≠ "HEAD" := by
  decide

theorem respond_of_route {s : Server} {route : Route} (r : Request)
    (h : Route.ofPath? r.target.path = some route) (hm : r.method ∈ route.methods) (hh : r.method ≠ "HEAD") :
    s.respond r = s.follow r route := by
  unfold Server.respond Server.respondInFull
  simp only [h, if_pos hm, if_neg hh]

theorem colorsIn_lookBody (l : Look) : colorsIn (lookBody l) = l.tokens "colors" := by
  unfold colorsIn lookBody
  rw [(shows_payloadOf l).get_tokens (by decide)]
  cases l.tokens "colors" with
  | nil => rfl
  | cons x xs => exact Message.textsOf_ofStrings _

theorem mem_lostColors {filters : Value} (h : colorsIn filters = l.tokens "colors") {c : String} :
    c ∈ lostColors filters ↔ l.Pastel ∧ c ∈ l.tokens "colors" ∧ mentionsPastel c = false := by
  unfold lostColors
  rw [h]
  by_cases hp : l.Pastel
  · rw [if_pos (List.any_eq_true.mpr hp), List.mem_filter, Bool.not_eq_true', iff_true_intro hp, true_and]
  · rw [if_neg fun h => hp (List.any_eq_true.mp h)]
    exact iff_of_false List.not_mem_nil fun h => hp h.1

theorem not_mixed_of_lostColors {filters : Value} (h : colorsIn filters = l.tokens "colors")
    (hlost : lostColors filters = []) : ¬ l.Mixed := by
  rintro ⟨hp, c, hc, hn⟩
  have := (mem_lostColors h).mpr ⟨hp, hc, hn⟩
  rw [hlost] at this
  cases this

theorem kept_of_named {filters : Fields} (h : Named filters) : filters.kept = filters := by
  unfold Fields.kept
  refine if_pos (List.all_eq_true.mpr fun p hp => ?_)
  obtain ⟨name, he⟩ := h p hp
  show p.1.isText = true
  rw [he]
  rfl

theorem answerCall_of_call {s : Server} {call : Call} {outcome : Except Fault Answer} {a : Assistant}
    (hcall : (s.assistant.call call).1 = some outcome) (ha : (s.assistant.call call).2 = a)
    (respond : Answer → Except Fault Response) :
    s.answerCall call respond = (outcome >>= respond, { s with assistant := a }) := by
  subst ha
  show (((s.assistant.call call).1.getD (.error .noStore)) >>= respond, _) = _
  rw [hcall]
  rfl

theorem respondWith_of_finite {body : Value} (h : body.isFinite = true) :
    Server.respondWith (.ok body) = .ok ⟨200, body, none⟩ :=
  congrArg Except.ok (ofBody_of_finite h)

/-- A message to a session that gets a reply. -/
theorem say_of_reply (h : c.InSession e id l) (hpath : Route.ofPath? path = some (.message id))
    (hlen : text.length ≤ maxMessage)
    (hr : e.reply (.str id) (.str text) .null (c.server.assistant.record? id) = .ok r)
    (hshows : Shows Is r.filters l') (hl' : l'.Settled)
    (hextract : ∃ x, (Turn.extract e.known (.str text)).outcomeWhen e.debugging = .ok x ∧
      Shows Means ((x.map (·.filters)).getD []) d) (hd : d.Neat) :
    ∃ c', c.say path text = (.ok ⟨200, bodyOf r (lookBody l')
      [("session_id", .str id), ("extracted", lookBody d)], none⟩, c') ∧ c'.InSession e id l' := by
  obtain ⟨outcome, hcall, hrest, hdone⟩ := call_done h.rest (c := .message (.str id) (.str text) .null) ⟨id, rfl⟩
  have hread := read_of_ok rfl (withCurrent_messageBody hlen)
  have hwritable : Value.haveWritable r.filters.kept = true := by
    rw [kept_of_named hshows.named]
    exact haveWritable_of_shows (Shows.means hshows hl'.toNeat) hl'.toNeat
  have hsaid : (Value.str text).isWritable = true := rfl
  have hwritten := h.rest.written.sessionAfter id hsaid hwritable
  generalize hafter : (c.server.assistant.call (.message (.str id) (.str text) .null)).2 = a at hrest hdone
  generalize hrecords : a.record? = records' at hdone
  generalize c.server.assistant.record? = records at hr hdone hwritten
  cases hdone with
  | failed hf =>
    cases hr.symm.trans hf
  | unwritten hr' hunwritten =>
    obtain rfl := Except.ok.inj (hr.symm.trans hr')
    exact absurd hwritten hunwritten
  | @replied _ _ _ turn r' _ hr' _ hturn _ hfilters hextracted hhere _ =>
    obtain rfl := Except.ok.inj (hr.symm.trans hr')
    obtain ⟨x, hx, hgiven⟩ := hextract
    obtain ⟨x', hx', hturned⟩ := hextracted
    obtain rfl := Except.ok.inj (hx.symm.trans hx')
    have hbody : turnBody id turn = .ok (bodyOf turn.reply (lookBody l')
        [("session_id", .str id), ("extracted", lookBody d)]) :=
      turnBody_of_ok (hturn ▸ payloadBody_of_shows hshows hl'.toNeat) (hturned ▸ payloadBody_of_means hgiven hd)
    have hfinite : (bodyOf turn.reply (lookBody l')
        [("session_id", .str id), ("extracted", lookBody d)]).isFinite = true := by
      refine isFinite_bodyOf turn.reply (isFinite_lookBody l') fun p hp => ?_
      simp only [List.mem_cons, List.not_mem_nil, or_false] at hp
      rcases hp with rfl | rfl
      · rfl
      · exact isFinite_lookBody d
    have hsay : c.say path text = (.ok ⟨200, bodyOf r (lookBody l')
        [("session_id", .str id), ("extracted", lookBody d)], none⟩,
          ⟨{ c.server with assistant := a }, lookBody l'⟩) := by
      unfold Chat.say Chat.post
      rw [respond_of_route _ hpath (List.mem_singleton.mpr rfl) post_ne_head]
      unfold Server.follow Server.message Server.reading
      simp only [hread]
      rw [show Asked.given ⟨text, none⟩ = .null from rfl, answerCall_of_call hcall hafter]
      show (Server.respondWith (turnBody id turn),
        Chat.mk _ (filtersIn (Server.respondWith (turnBody id turn)))) = _
      rw [hbody, respondWith_of_finite hfinite, hturn]
      rfl
    refine ⟨_, hsay, hrest, ?_, hl', colorsIn_lookBody l'⟩
    rw [show a.record? id = some turn.session from hrecords ▸ hhere]
    show Shows Is turn.session.filters l'
    rw [hfilters, kept_of_named hshows.named]
    exact hshows

/-! ### a message without a session -/

/-- The client holds the filters of a reply that asks for this. -/
structure Chat.Holding (known : List Value) (c : Chat) (l : Look) : Prop where
  known : c.server.assistant.known = known
  filters : c.filters = .null ∧ l = Look.none ∨ c.filters = lookBody l
  settled : l.Settled

variable {known : List Value}

theorem Chat.Holding.isWritable (h : c.Holding known l) : c.filters.isWritable = true := by
  rcases h.filters with ⟨hnull, -⟩ | hbody
  · rw [hnull]
    rfl
  · rw [hbody]
    exact isWritable_lookBody h.settled.toNeat

/-- What the client sends back comes to filters that ask for the same, tidied. -/
theorem Chat.Holding.asked (h : c.Holding known l) (hlen : text.length ≤ maxMessage) :
    ∃ asked base, Asked.withActive (messageBodyWith text c.filters) = .ok asked ∧ asked.text = text ∧
      asked.given.orElse (.object []) = .object base ∧ Shows Is base l.tidied := by
  rcases h.filters with ⟨hnull, rfl⟩ | hbody
  · have hmixed : ¬ Look.none.Mixed := fun ⟨⟨_, hc, _⟩, _⟩ => List.not_mem_nil hc
    rw [hnull, Look.settled_none.tidied_eq hmixed]
    exact ⟨⟨text, none⟩, [], withActive_null hlen, rfl, rfl, shows_none⟩
  · rw [hbody]
    exact ⟨⟨text, some (payloadOf l)⟩, _, withActive_lookBody hlen h.settled.toNeat, rfl, orElse_object _,
      shows_toFilters l⟩

/-- A message without a session that gets a reply. -/
theorem ask_of_reply (h : c.Holding known l) {asked : Asked}
    (hasked : Asked.withActive (messageBodyWith text c.filters) = .ok asked) (htext : asked.text = text)
    (hr : (Dialogue.replied (.str text) asked.given (.list known)).outcomeWhen
      c.server.assistant.journal.debugging = .ok r)
    (hshows : Shows Is r.filters l') (hl' : l'.Settled) :
    ∃ c', c.ask text = (.ok ⟨200, bodyOf r (lookBody l') [], none⟩, c') ∧ c'.Holding known l' := by
  have hread := read_of_ok (isWritable_messageBodyWith text h.isWritable) hasked
  have hpath : Route.ofPath? "/api/chat/reply".toList = some .reply := by decide +kernel
  have hreply := (Dialogue.outcome_replyTo c.server.assistant.known text asked.given
    c.server.assistant.journal)
  rw [h.known, hr] at hreply
  have hbody := replyBody_of_ok (payloadBody_of_shows hshows hl'.toNeat)
  have hfinite : (bodyOf r (lookBody l') []).isFinite = true :=
    isFinite_bodyOf r (isFinite_lookBody l') fun _ hp => absurd hp List.not_mem_nil
  refine ⟨⟨{ c.server with assistant := (c.server.assistant.observe (replyTo known (.str text) asked.given)).2 },
    lookBody l'⟩, ?_, h.known, .inr rfl, hl'⟩
  unfold Chat.ask Chat.post
  rw [respond_of_route _ hpath (List.mem_singleton.mpr rfl) post_ne_head]
  unfold Server.follow Server.reply Server.reading
  simp only [hread, htext]
  rw [h.known, answerTraced_of_ok hreply]
  show (Server.respondWith (replyBody r), Chat.mk _ (filtersIn (Server.respondWith (replyBody r)))) = _
  rw [hbody, respondWith_of_finite hfinite]
  rfl

/-! ### both conversations -/

/-- Both conversations ask for the same, unless the one at the session mixes pastel with another color. -/
structure Paired (e : Setting) (id : String) (c c' : Chat) (l l' : Look) : Prop where
  session : c.InSession e id l
  holding : c'.Holding e.known l'
  same : ¬ l.Mixed → l' = l
  pastel : l.Pastel → l'.Pastel

/-- The bodies tell the same of a reply. -/
def TellAlike (body body' : Value) : Prop :=
  ∀ part ∈ ["message", "filters", "apply_filters", "meta"], body.get part = body'.get part

theorem tellAlike_of_alike {r r' : Dialogue.Reply} (h : r.Alike r') (v : Value) (more more' : Fields) :
    TellAlike (bodyOf r v more) (bodyOf r' v more') := by
  rw [h]
  intro part hpart
  simp only [List.mem_cons, List.not_mem_nil, or_false] at hpart
  rcases hpart with rfl | rfl | rfl | rfl <;> rfl

variable {c' : Chat}

/-- The filters that the client sends back ask for this. -/
theorem Paired.settled (h : Paired e id c c' l l') : l'.tidied.Settled :=
  h.holding.settled.named.settled_tidied h.holding.settled.least h.holding.settled.most

/-- Both ask for the same after a reset, or if nothing is lost. -/
theorem Paired.after_eq (h : Paired e id c c' l l') (hc : Dialogue.isReset text.toList = true ∨ ¬ l.Mixed)
    (d : Look) : Dialogue.after text d l = Dialogue.after text d l'.tidied := by
  rcases hc with hreset | hm
  · rw [Dialogue.after_of_reset hreset, Dialogue.after_of_reset hreset]
  · rw [h.same hm, h.session.settled.tidied_eq hm]

/-- A color that has been lost is asked for only if it is named again. -/
theorem Paired.named_of_after_eq (h : Paired e id c c' l l') (hreset : ¬ Dialogue.isReset text.toList = true)
    (he : (Dialogue.after text d l).tokens "colors" = (Dialogue.after text d l'.tidied).tokens "colors")
    {color : String} (hlost : color ∈ lostColors c.filters) : color ∈ d.tokens "colors" := by
  obtain ⟨hp, hc, hn⟩ := (mem_lostColors h.session.colors).mp hlost
  rw [Dialogue.after_of_not_reset hreset, Dialogue.after_of_not_reset hreset] at he
  have hafter : color ∈ (l'.tidied.join d).tokens "colors" := he ▸ mem_firsts.mpr (.inl hc)
  rcases mem_firsts.mp hafter with hkept | hnamed
  · have hnamed := h.holding.settled.named
    exact absurd ⟨hnamed.pastel_tidied (h.pastel hp), color, hkept, hn⟩ hnamed.not_mixed_tidied
  · exact hnamed

/-- The replies are alike if both conversations ask for the same. -/
theorem Paired.replies (h : Paired e id c c' l l') (hlen : text.length ≤ maxMessage)
    (hreads : Dialogue.Reads e.known text d) : ∃ (asked : Asked) (r r' : Dialogue.Reply),
      Asked.withActive (messageBodyWith text c'.filters) = .ok asked ∧ asked.text = text ∧
      e.reply (.str id) (.str text) .null (c.server.assistant.record? id) = .ok r ∧
      (Dialogue.replied (.str text) asked.given (.list e.known)).outcomeWhen
        c'.server.assistant.journal.debugging = .ok r' ∧
      (Dialogue.isReset text.toList = true ∨ ¬ l.Mixed → r.Alike r') ∧
      Shows Is r.filters (Dialogue.after text d l) ∧ Shows Is r'.filters (Dialogue.after text d l'.tidied) := by
  obtain ⟨asked, base', hasked, htext, hgiven, hbase'⟩ := h.holding.asked hlen
  have hstart := h.session.shows
  have hobject := orElse_object (sessionOf (.str id) (c.server.assistant.record? id)).filters
  by_cases hc : Dialogue.isReset text.toList = true ∨ ¬ l.Mixed
  · have hsame : Dialogue.isReset text.toList = true ∨ l = l'.tidied :=
      hc.imp_right fun hm => by rw [h.same hm, h.session.settled.tidied_eq hm]
    obtain ⟨r, r', hr, hr', halike, hshows, hshows'⟩ := hreads.reply e.debugging
      c'.server.assistant.journal.debugging h.session.settled hsame hstart hbase' hobject hgiven
    exact ⟨asked, r, r', hasked, htext, hr, hr', fun _ => halike, hshows, hshows'⟩
  · -- each conversation is answered by itself
    obtain ⟨r, -, hr, -, -, hshows, -⟩ :=
      hreads.reply e.debugging e.debugging h.session.settled (.inr rfl) hstart hstart hobject hobject
    obtain ⟨r', -, hr', -, -, hshows', -⟩ := hreads.reply c'.server.assistant.journal.debugging
      c'.server.assistant.journal.debugging h.settled (.inr rfl) hbase' hbase' hgiven hgiven
    exact ⟨asked, r, r', hasked, htext, hr, hr', fun h => absurd h hc, hshows, hshows'⟩

/-- What the next message comes to in both conversations. -/
structure Answers (text : String) (filters : Value) (body body' : Value) : Prop where
  alike : Dialogue.isReset text.toList = true ∨ lostColors filters = [] → TellAlike body body'
  lost : ¬ Dialogue.isReset text.toList = true → TellAlike body body' →
    ∀ color ∈ lostColors filters, color ∈ colorsIn (body.get "extracted")

/-- **One message in both conversations.** -/
theorem Paired.step (h : Paired e id c c' l l') (hpath : Route.ofPath? path = some (.message id))
    (hlen : text.length ≤ maxMessage) (hreads : Dialogue.Reads e.known text d) :
    ∃ body body' b b' m m', c.say path text = (.ok ⟨200, body, none⟩, b) ∧
      c'.ask text = (.ok ⟨200, body', none⟩, b') ∧ Paired e id b b' m m' ∧
      Answers text c.filters body body' := by
  obtain ⟨asked, r, r', hasked, htext, hr, hr', halike, hshows, hshows'⟩ := h.replies hlen hreads
  obtain ⟨b, hsay, hb⟩ := say_of_reply h.session hpath hlen hr hshows
    (Dialogue.settled_after h.session.settled hreads.settled) (hreads.extract e.debugging) hreads.settled.toNeat
  obtain ⟨b', hask, hb'⟩ := ask_of_reply h.holding hasked htext hr' hshows'
    (Dialogue.settled_after h.settled hreads.settled)
  refine ⟨_, _, b, b', _, _, hsay, hask, ⟨hb, hb', fun hm => ?_, ?_⟩, fun hc => ?_, fun hreset htell c hlost => ?_⟩
  · refine (h.after_eq ?_ d).symm
    refine Classical.or_iff_not_imp_left.mpr fun hreset hmixed => hm ?_
    rw [Dialogue.after_of_not_reset hreset]
    exact hmixed.join
  · exact Dialogue.pastel_after fun hp => h.holding.settled.named.pastel_tidied (h.pastel hp)
  · have hsame := hc.imp_right (not_mixed_of_lostColors h.session.colors)
    rw [← h.after_eq hsame]
    exact tellAlike_of_alike (halike hsame) _ _ _
  · have hfilters : lookBody (Dialogue.after text d l) = lookBody (Dialogue.after text d l'.tidied) :=
      htell "filters" (by decide)
    have hcolors := congrArg colorsIn hfilters
    rw [colorsIn_lookBody, colorsIn_lookBody] at hcolors
    show c ∈ colorsIn (lookBody d)
    rw [colorsIn_lookBody]
    exact h.named_of_after_eq hreset hcolors hlost

/-- Both conversations begin without filters. -/
theorem paired_start {s s' : Server} (hrest : AtRest e s.assistant)
    (hfresh : ∀ r, s.assistant.record? id = some r → r.filters = []) (hknown : s'.assistant.known = e.known) :
    Paired e id ⟨s, .null⟩ ⟨s', .null⟩ Look.none Look.none := by
  refine ⟨⟨hrest, ?_, Look.settled_none, rfl⟩, ⟨hknown, .inl ⟨rfl, rfl⟩, Look.settled_none⟩,
    fun _ => rfl, fun hp => hp⟩
  have hfilters : (sessionOf (.str id) (s.assistant.record? id)).filters = [] := by
    cases hr : s.assistant.record? id with
    | none => rfl
    | some r => exact hfresh r hr
  show Shows Is (sessionOf (.str id) (s.assistant.record? id)).filters Look.none
  rw [hfilters]
  exact shows_none

theorem Accepted.reads {names : List String} (hknown : Message.brandNames e.known = .ok names)
    (h : Accepted text) : ∃ d, Dialogue.Reads e.known text d := by
  refine Dialogue.exists_reads hknown (Message.hasFiniteBudget_of_inRange ?_ h.range)
  have := h.length
  rw [String.length_toList]
  unfold maxMessage at this
  unfold Numeral.maxDigits
  omega

/-- Both conversations stay paired. -/
theorem Paired.after {names : List String} (hknown : Message.brandNames e.known = .ok names)
    (hpath : Route.ofPath? path = some (.message id)) {texts : List String} (htexts : ∀ t ∈ texts, Accepted t)
    (h : Paired e id c c' l l') : ∃ m m', Paired e id (c.afterSaying path texts) (c'.afterAsking texts) m m' := by
  induction texts generalizing c c' l l' with
  | nil => exact ⟨l, l', h⟩
  | cons t texts ih =>
    have ht := htexts t (List.mem_cons_self ..)
    obtain ⟨d, hreads⟩ := ht.reads hknown
    obtain ⟨_, _, b, b', m, m', hsay, hask, hnext, -⟩ := h.step hpath ht.length hreads
    have hrest := ih (fun t ht => htexts t (List.mem_cons_of_mem _ ht)) hnext
    unfold Chat.afterSaying Chat.afterAsking at hrest ⊢
    rw [List.foldl_cons, List.foldl_cons, hsay, hask]
    exact hrest

/-- **The route without a session agrees with the one of a session.** Every message of a conversation gets
a reply by both. It is the same one at every reset, and as long as the filters of the session do not hold
pastel next to another color; if they do, it is not the same until the message names that color again. -/
theorem routes_agree {s s' : Server} {names : List String} (hrest : AtRest e s.assistant)
    (hfresh : ∀ r, s.assistant.record? id = some r → r.filters = [])
    (hknown : Message.brandNames e.known = .ok names) (hsame : s'.assistant.known = e.known)
    (hpath : Route.ofPath? path = some (.message id)) {texts : List String} (text : String)
    (haccepted : ∀ t ∈ text :: texts, Accepted t) :
    ∃ body body', (((Chat.mk s .null).afterSaying path texts).say path text).1 = .ok ⟨200, body, none⟩ ∧
      (((Chat.mk s' .null).afterAsking texts).ask text).1 = .ok ⟨200, body', none⟩ ∧
      Answers text ((Chat.mk s .null).afterSaying path texts).filters body body' := by
  obtain ⟨l, l', hpaired⟩ := (paired_start hrest hfresh hsame).after hknown hpath fun t ht =>
    haccepted t (List.mem_cons_of_mem _ ht)
  have ht := haccepted text (List.mem_cons_self ..)
  obtain ⟨d, hreads⟩ := ht.reads hknown
  obtain ⟨body, body', _, _, _, _, hsay, hask, -, hanswers⟩ := hpaired.step hpath ht.length hreads
  exact ⟨body, body', by rw [hsay], by rw [hask], hanswers⟩

/-- A server to which nothing has been said. -/
def newServer : Server :=
  ⟨.defaults, "http://localhost:8080", .withStore (.initial false) [] (.memory []), []⟩

/-- The path of the messages to a session. -/
def pathOfSession : List Char :=
  "/api/chat/sessions/s/message".toList

theorem routes_agree_of_black : ∃ body body',
    (((Chat.mk newServer .null).afterSaying pathOfSession ["black"]).say pathOfSession "silk").1 =
      .ok ⟨200, body, none⟩ ∧
    (((Chat.mk newServer .null).afterAsking ["black"]).ask "silk").1 = .ok ⟨200, body', none⟩ ∧
    TellAlike body body' := by
  have hrest : AtRest ⟨false, []⟩ newServer.assistant := ⟨⟨rfl, ⟨_, rfl, rfl⟩, rfl, rfl⟩, rfl, rfl, nofun⟩
  have hfresh : ∀ r, newServer.assistant.record? "s" = some r → r.filters = [] := nofun
  have hknown : Message.brandNames newServer.assistant.known = .ok [] := rfl
  have hpath : Route.ofPath? pathOfSession = some (.message "s") := by decide +kernel
  have haccepted : ∀ t ∈ ["silk", "black"], Accepted t := by decide +kernel
  have hlost : lostColors ((Chat.mk newServer .null).afterSaying pathOfSession ["black"]).filters = [] := by
    decide +kernel
  obtain ⟨body, body', hsay, hask, hanswers⟩ :=
    routes_agree hrest hfresh hknown hrest.serving.known hpath "silk" haccepted
  exact ⟨body, body', hsay, hask, hanswers.alike (.inr hlost)⟩

/-- Pastel after black: the session goes on with both, and what is sent back does not. -/
theorem routes_part_of_pastel : ¬ ∀ (texts : List String) (text : String), (∀ t ∈ text :: texts, Accepted t) →
    ∃ body body',
      (((Chat.mk newServer .null).afterSaying pathOfSession texts).say pathOfSession text).1 =
        .ok ⟨200, body, none⟩ ∧
      (((Chat.mk newServer .null).afterAsking texts).ask text).1 = .ok ⟨200, body', none⟩ ∧
      TellAlike body body' := by
  intro h
  have haccepted : ∀ t ∈ ["silk", "black", "pastel"], Accepted t := by decide +kernel
  have hcolors :
      colorsIn ((Chat.mk newServer .null).afterSaying pathOfSession (["black", "pastel"] ++ ["silk"])).filters ≠
        colorsIn ((Chat.mk newServer .null).afterAsking (["black", "pastel"] ++ ["silk"])).filters := by
    decide +kernel
  obtain ⟨body, body', hsay, hask, htell⟩ := h ["black", "pastel"] "silk" haccepted
  have hfilters : body.get "filters" = body'.get "filters" := htell "filters" (by decide)
  rw [Chat.filters_afterSaying, Chat.filters_afterAsking, hsay, hask] at hcolors
  exact hcolors (congrArg colorsIn hfilters)

end Outfitter.Api
