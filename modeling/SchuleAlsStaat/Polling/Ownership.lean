import SchuleAlsStaat.Actions.Origins
import SchuleAlsStaat.Polling.Served
import SchuleAlsStaat.Server.Sender

/-!
# Whose transactions a poll reveals

A poll names a QR-ID and belongs to the record whose password was accepted for
it.  An entry has a copy of the QR-ID of its recipient and a reference to the
record.  The regular search compares QR-IDs only, so its lists are the pollers' own
as long as a QR-ID that is copied and one that is polled for mean one record.
-/

namespace SchuleAlsStaat.Polling

open Calls (withReply_eq_some mem_of_getElem?)
open Js (JsVal)
open Runs (Run AnyRun exec exists_run_of_exec)
open Server (Call Received Poll Traced)

variable {E : Ext} {K : Keys}

/-! ## Copies -/

/-- A QR-ID, as a property name, and the record it is meant for. -/
structure Copy where
  key : String
  reference : Option ObjectId
deriving DecidableEq, Repr

/-- What an entry says about its recipient. -/
def Copy.ofProfile (p : Profile) : Copy := ⟨p.qrid.key, p.reference⟩

/-- What a poll that waits asks for, and the record it belongs to. -/
def Copy.ofPoll (p : Poll) : Option Copy :=
  match p.active, p.qrid.toStr with
  | true, .ok key => some ⟨key, p.client.auth⟩
  | _, _ => none

theorem Copy.ofPoll_eq_some {p : Poll} {y : Copy} :
    Copy.ofPoll p = some y ↔
      p.active = true ∧ p.qrid.toStr = .ok y.key ∧ p.client.auth = y.reference := by
  rw [Copy.ofPoll]
  split
  next key hactive hkey =>
    rw [hkey, hactive]
    constructor
    · rintro ⟨⟩
      exact ⟨rfl, rfl, rfl⟩
    · rintro ⟨-, ⟨⟩, hauth⟩
      rw [hauth]
  next hnot =>
    constructor
    · intro h
      cases h
    · rintro ⟨hactive, hkey, -⟩
      exact (hnot _ hactive hkey).elim

/-- Copies with one QR-ID mean one record. -/
def Apart (xs ys : List Copy) : Prop :=
  ∀ x ∈ xs, ∀ y ∈ ys, x.key = y.key → x.reference = y.reference

instance (xs ys : List Copy) : Decidable (Apart xs ys) := by
  unfold Apart
  infer_instance

/-! ### Copies of calls -/

/-- The recipient of the entry that the callback of a call hands over. -/
def payeeOf (c : Call) : Option Copy :=
  match c.phase with
  | .replied (some (.student (some st))) => match c.query with
      | .student _ _ (.transaction_recipient t _ _) =>
          some (.ofProfile ((Party.account st).profile t.magic_account))
      | q => q.destroys.map fun m => .ofProfile (Party.profile m .magic_account)
  | _ => none

/-- The poll that is started with a password, if it is right. -/
def pollBy (E : Ext) (payload : JsVal) (st : Student) : Except Js.Exn (Option Copy) := do
  let password ← payload.prop "password"
  if ← check_password E st password then
    let qrid ← payload.prop "qrid"
    return some ⟨← qrid.toStr, some st._id⟩
  else return none

/-- The poll that the callback of a call starts. -/
def pollerOf (E : Ext) (c : Call) : Option Copy :=
  match c.query, c.phase with
  | .student _ _ (.transactions_poll payload), .replied (some (.student (some st))) =>
      (pollBy E payload st).toOption.join
  | _, _ => none

/-- An entry that is handed over has the recipient of its call. -/
theorem payeeOf_of_draft {c : Call} {r : Reply} (hp : c.phase = .replied (some r)) {env : Env}
    {a : Act} {d : Draft} (h : a ∈ (onReply E env c.client c.query r).acts)
    (hd : a.draft = some d) : payeeOf c = some (.ofProfile d.recipient) := by
  obtain ⟨w, client, q, phase⟩ := c
  cases hp
  rcases mem_onReply_draft h hd with ⟨component, qrid, t, taxinc, sender, st, rfl, rfl, hrecipient⟩ |
    ⟨m, st, hdestroys, rfl, hrecipient⟩
  · rw [hrecipient]
    rfl
  · rw [hrecipient]
    simp only [payeeOf]
    split
    next => cases hdestroys
    next =>
      rw [hdestroys]
      rfl

/-- A poll that starts asks for the QR-ID of its call. -/
theorem pollerOf_of_poll {c : Call} {r : Reply} (hp : c.phase = .replied (some r)) {env : Env}
    {client : Client} {date : ℚ} {qrid : JsVal}
    (h : Act.poll client date qrid ∈ (onReply E env c.client c.query r).acts) :
    (∃ id, client.auth = some id) ∧ ∀ key, qrid.toStr = .ok key →
      pollerOf E c = some ⟨key, client.auth⟩ := by
  obtain ⟨w, client, q, phase⟩ := c
  cases hp
  obtain ⟨component, v, payload, st, password, rfl, rfl, hpassword, hok, hqrid, -, rfl⟩ :=
    mem_onReply_poll h
  refine ⟨⟨st._id, rfl⟩, fun key hkey => ?_⟩
  have hpoll : pollBy E payload st = .ok (some ⟨key, some st._id⟩) := by
    simp only [pollBy, hpassword, hok, hqrid, hkey, Js.except_ok_bind, if_true]
    rfl
  exact congrArg (fun r => r.toOption.join) hpoll

/-! ## Payees and pollers -/

/-- What a query has found and its callback has not passed on. -/
def Search.found {α : Type} (q : Search α) : List α :=
  match q.phase with
  | .replied (some trlist) => trlist
  | _ => []

namespace Service

/-- The recipients of the entries that were written, found or are on their way. -/
def payees (s : Service) : List Copy :=
  s.server.bank.transactions.map (Copy.ofProfile ·.recipient) ++
    s.server.bank.underway.map (Copy.ofProfile ·.recipient) ++
      (s.searches.flatMap Search.found).map (Copy.ofProfile ·.recipient)

/-- What is polled for. -/
def pollers (s : Service) : List Copy := s.server.polls.filterMap Copy.ofPoll

/-- The call whose callback runs. -/
def replying (s : Service) : ServiceEvent → Option Call
  | .server (.callReply n _) => s.server.calls[n]?
  | _ => none

/-- With what its callback adds, a step leaves payees and pollers apart. -/
def Separate (E : Ext) (s : Service) (e : ServiceEvent) : Prop :=
  Apart (s.payees ++ ((s.replying e).bind payeeOf).toList)
    (s.pollers ++ ((s.replying e).bind (pollerOf E)).toList)

instance (s : Service) (e : ServiceEvent) : Decidable (s.Separate E e) := by
  unfold Separate
  infer_instance

variable {s s' : Service} {x : Copy}

theorem mem_payees : x ∈ s.payees ↔
    (∃ tr ∈ s.server.bank.transactions, Copy.ofProfile tr.recipient = x) ∨
      (∃ d ∈ s.server.bank.underway, Copy.ofProfile d.recipient = x) ∨
        ∃ q ∈ s.searches, ∃ tr ∈ q.found, Copy.ofProfile tr.recipient = x := by
  simp only [payees, List.mem_append, List.mem_map, List.mem_flatMap, or_assoc]
  refine or_congr_right (or_congr_right ?_)
  constructor
  · rintro ⟨tr, ⟨q, hq, htr⟩, hx⟩
    exact ⟨q, hq, tr, htr, hx⟩
  · rintro ⟨q, hq, tr, htr, hx⟩
    exact ⟨tr, ⟨q, hq, htr⟩, hx⟩

theorem mem_pollers : x ∈ s.pollers ↔ ∃ p ∈ s.server.polls, Copy.ofPoll p = some x :=
  List.mem_filterMap

/-! ### Steps of the server -/

/-- A step hands over an entry or starts a poll only in the callback of a call. -/
theorem acts_cases {e : Server.Event} {a : Act} (h : a ∈ s.server.acts E K e) : a.Calm ∨
    ∃ c r env, s.replying (.server e) = some c ∧ c.phase = .replied (some r) ∧
      a ∈ (onReply E env c.client c.query r).acts := by
  cases e with
  | request w env name post => exact .inl (calm_prepare_action h)
  | callReply n env =>
      cases hc : s.server.calls[n]? with
      | none =>
          simp only [Server.State.acts, hc] at h
          cases h
      | some c =>
          obtain ⟨w, client, query, phase⟩ := c
          cases phase with
          | sent =>
              simp only [Server.State.acts, hc] at h
              cases h
          | replied reply =>
              cases reply with
              | none =>
                  simp only [Server.State.acts, hc] at h
                  cases h
              | some r =>
                  rw [Server.acts_callReply hc rfl] at h
                  exact .inr ⟨_, r, env, hc, rfl, h⟩
          | done v =>
              simp only [Server.State.acts, hc] at h
              cases h
  | _ => cases h

theorem mem_payees_server {e : Server.Event} {server : Server.State}
    (hs : Server.step E K s.server e = some server)
    (hx : x ∈ ({ s with server := server } : Service).payees) :
    x ∈ s.payees ∨ (s.replying (.server e)).bind payeeOf = some x := by
  rcases mem_payees.mp hx with ⟨tr, htr, rfl⟩ | ⟨d, hd, rfl⟩ | hfound
  · left
    rcases Server.mem_transactions_step hs htr with htr | ⟨d, hd, hcast⟩
    · exact mem_payees.mpr (.inl ⟨tr, htr, rfl⟩)
    · obtain ⟨-, hrecipient, -⟩ := Entry.cast_eq_some hcast
      exact mem_payees.mpr (.inr (.inl ⟨d, hd, by rw [hrecipient]⟩))
  · rcases (Server.grows_step hs).underway d hd with hd | ⟨a, ha, hdraft⟩
    · exact .inl (mem_payees.mpr (.inr (.inl ⟨d, hd, rfl⟩)))
    · right
      rcases acts_cases ha with hcalm | ⟨c, r, env, hc, hp, ha⟩
      · rw [hcalm.draft_eq_none] at hdraft
        cases hdraft
      · rw [hc]
        exact payeeOf_of_draft hp ha hdraft
  · exact .inl (mem_payees.mpr (.inr (.inr hfound)))

/-- A poll that starts has a record, and asks for the QR-ID of the call. -/
theorem started_poll {e : Server.Event} {a : Act} {w : WorkerId} {p : Poll}
    (ha : a ∈ s.server.acts E K e) (hstarted : Server.startedPoll w a = some p) :
    (∃ id, p.client.auth = some id) ∧ ∀ y, Copy.ofPoll p = some y →
      (s.replying (.server e)).bind (pollerOf E) = some y := by
  cases a with
  | poll client date qrid =>
      cases hstarted
      rcases acts_cases ha with hcalm | ⟨c, r, env, hc, hp, ha⟩
      · exact hcalm.elim
      · obtain ⟨hauth, hpoller⟩ := pollerOf_of_poll hp ha
        refine ⟨hauth, fun y hy => ?_⟩
        obtain ⟨-, hkey, hreference⟩ := Copy.ofPoll_eq_some.mp hy
        rw [hc]
        exact (hpoller y.key hkey).trans (congrArg (fun r => some (⟨y.key, r⟩ : Copy)) hreference)
  | _ => cases hstarted

theorem mem_pollers_server {e : Server.Event} {server : Server.State}
    (hs : Server.step E K s.server e = some server)
    (hx : x ∈ ({ s with server := server } : Service).pollers) :
    x ∈ s.pollers ∨ (s.replying (.server e)).bind (pollerOf E) = some x := by
  obtain ⟨p, hp, hcopy⟩ := mem_pollers.mp hx
  obtain ⟨hactive, -, -⟩ := Copy.ofPoll_eq_some.mp hcopy
  rcases (Server.grows_step hs).polls p hp hactive with hp | ⟨a, ha, w, hstarted⟩
  · exact .inl (mem_pollers.mpr ⟨p, hp, hcopy⟩)
  · exact .inr ((started_poll ha hstarted).2 x hcopy)

/-! ### Steps of the search -/

/-- A query finds transactions of the ledger. -/
theorem mem_found_step {t u : State Booking} {e : Event Booking} (he : isSearch e = true)
    (hs : Polling.step E t e = some u) {q : Search Booking} (hq : q ∈ u.searches) {tr : Booking}
    (htr : tr ∈ q.found) : (∃ q' ∈ t.searches, tr ∈ q'.found) ∨ tr ∈ t.transactions := by
  cases step_cases hs with
  | nopolls | nosearch => exact .inl ⟨q, hq, htr⟩
  | search hne hsearch =>
      rcases List.mem_append.mp hq with hq | hq
      · exact .inl ⟨q, hq, htr⟩
      · cases List.mem_singleton.mp hq
        obtain ⟨-, -, -, hphase⟩ := search_eq_ok hsearch
        rw [Search.found, hphase] at htr
        cases htr
  | searchDb hq' hp hperm hfind =>
      rcases List.mem_or_eq_of_mem_set hq with hq | rfl
      · exact .inl ⟨q, hq, htr⟩
      · right
        rw [Search.find] at hfind
        split at hfind
        next =>
          cases hfind
          exact hperm.subset (List.mem_of_mem_filter (Newest.mem_of_mem_newest htr))
        next => cases hfind
  | searchFail hq' hp =>
      rcases List.mem_or_eq_of_mem_set hq with hq | rfl
      · exact .inl ⟨q, hq, htr⟩
      · cases htr
  | _ => cases he

theorem mem_payees_search {e : Event Booking} {u : State Booking} (he : isSearch e = true)
    (hs : Polling.step E s.view e = some u)
    (hx : x ∈ ({ s with searches := u.searches } : Service).payees) : x ∈ s.payees := by
  rcases mem_payees.mp hx with hledger | hunderway | ⟨q, hq, tr, htr, rfl⟩
  · exact mem_payees.mpr (.inl hledger)
  · exact mem_payees.mpr (.inr (.inl hunderway))
  · rcases mem_found_step he hs hq htr with ⟨q', hq', htr⟩ | htr
    · exact mem_payees.mpr (.inr (.inr ⟨q', hq', tr, htr, rfl⟩))
    · exact mem_payees.mpr (.inl ⟨tr, htr, rfl⟩)

end Service

/-! ## Requests for polling -/

/-- A request for polling does what `transactions_poll` does, and nothing else. -/
def PollsOnly (q : Received) (a : Act) : Prop := q.name = "transactions_poll" → a.OfPoll

section Requests

variable {L : Ledger} {s s' : Server.State} {e : Server.Event} {a : Act}

theorem traced_step (h : Traced PollsOnly L s) (hs : Server.step E K s e = some s') :
    Traced PollsOnly L s' := by
  refine h.step ?_ ?_ hs
  · intro w env name post _ a ha hname
    have hname : name = "transactions_poll" := hname
    subst hname
    exact ofPoll_prepare_action ha
  · intro n env c r q _ _ _ _ hb a ha hname
    exact ofPoll_onReply (hb hname) ha

/-- The acts of a step belong to a request. -/
theorem acts_traced (h : Traced PollsOnly L s) (hs : Server.step E K s e = some s')
    (ha : a ∈ s.acts E K e) : ∃ r q, s'.received[r]? = some q ∧ a.For r ∧ PollsOnly q a := by
  cases Server.step_cases hs with
  | request w env name post =>
      refine ⟨s.received.length, ⟨name, post⟩, ?_, for_prepare_action ha, fun hname => ?_⟩
      · rw [(Server.State.performAll_frame w env.now _ _).1]
        simp
      · have hname : name = "transactions_poll" := hname
        subst hname
        exact ofPoll_prepare_action ha
  | @callReply n c r env hc hp =>
      obtain ⟨q, hq, hb⟩ := h.calls c (mem_of_getElem? hc)
      rw [Server.acts_callReply hc hp] at ha
      refine ⟨c.client.req, q, Server.received_step hs hq,
        (serves_onReply E env c.client c.query r).acts a ha, fun hname => ?_⟩
      exact ofPoll_onReply (hb hname) ha
  | @callError n c env hc hp hcb | @callDropped n c env hc hp hcb =>
      rw [Server.acts_callReply_none hc hp] at ha
      cases ha
  | _ => cases ha

/-- An action that answers a list does so for another request. -/
theorem not_poll_of_list (h : Traced PollsOnly L s) (hs : Server.step E K s e = some s')
    {client : Client} {l : List TransactionView} (ha : .answer client (.transactions l) ∈ s.acts E K e) :
    ∃ q, s'.received[client.req]? = some q ∧ q.name ≠ "transactions_poll" := by
  obtain ⟨r, q, hq, hfor, hpolls⟩ := acts_traced h hs ha
  have hreq : client.req = r := hfor
  subst hreq
  refine ⟨q, hq, fun hname => ?_⟩
  have hlist : (Answer.transactions l).isList = false := hpolls hname
  cases hlist

end Requests

/-! ## The invariant -/

/-- The transaction was received by the record that was authenticated. -/
def Owns (client : Client) (tr : TransactionView) : Prop :=
  ∃ id, client.auth = some id ∧ tr.recipient.reference = some id

/-- Payees and pollers are apart, and every list that answers a request for
polling is the poller's own. -/
structure Own (L : Ledger) (s : Service) : Prop where
  traced : Traced PollsOnly L s.server
  apart : Apart s.payees s.pollers
  auth : ∀ p ∈ s.server.polls, p.active = true → ∃ id, p.client.auth = some id
  answers : ∀ client l, (client, .transactions l) ∈ s.server.answers →
    (∀ tr ∈ l, Owns client tr) ∨
      ∃ q, s.server.received[client.req]? = some q ∧ q.name ≠ "transactions_poll"

namespace Own

variable {L : Ledger} {s s' : Service}

theorem init (S : Students) : Own L (.init S L) where
  traced := .init S L
  apart _ _ _ hy := by cases hy
  auth _ hp := by cases hp
  answers _ _ h := by cases h

/-- A step of the server that is not a delivery. -/
theorem server (h : Own L s) {e : Server.Event} {server : Server.State}
    (hok : s.Separate E (.server e)) (he : Service.isDelivery e = false)
    (hs : Server.step E K s.server e = some server) : Own L { s with server := server } := by
  have hgrows := Server.grows_step hs
  refine ⟨traced_step h.traced hs, fun x hx y hy => ?_, fun p hp hactive => ?_,
    fun client l hl => ?_⟩
  · refine hok x ?_ y ?_
    · rw [List.mem_append, Option.mem_toList]
      exact Service.mem_payees_server hs hx
    · rw [List.mem_append, Option.mem_toList]
      exact Service.mem_pollers_server hs hy
  · rcases hgrows.polls p hp hactive with hp | ⟨a, ha, w, hstarted⟩
    · exact h.auth p hp hactive
    · exact (Service.started_poll ha hstarted).1
  · rcases hgrows.answers _ hl with hl | hlist | ⟨a, ha, hgiven⟩ | ⟨n, trgroup, rfl⟩
    · refine (h.answers client l hl).imp_right fun ⟨q, hq, hname⟩ => ?_
      exact ⟨q, Server.received_step hs hq, hname⟩
    · cases hlist
    · right
      cases a with
      | answer client' m =>
          cases hgiven
          exact not_poll_of_list h.traced hs ha
      | _ => cases hgiven
    · cases he

/-- A step of the queries. -/
theorem search (h : Own L s) {e : Event Booking} {u : State Booking} (he : isSearch e = true)
    (hs : Polling.step E s.view e = some u) : Own L { s with searches := u.searches } :=
  ⟨h.traced, fun x hx => h.apart x (Service.mem_payees_search he hs hx), h.auth, h.answers⟩

/-- A query is taken off. -/
theorem setSearch (h : Own L s) {n : ℕ} {q : Search Booking} (hq : q.found = []) :
    Own L { s with searches := s.searches.set n q } := by
  refine ⟨h.traced, fun x hx => h.apart x ?_, h.auth, h.answers⟩
  rcases Service.mem_payees.mp hx with hledger | hunderway | ⟨q', hq', tr, htr, rfl⟩
  · exact Service.mem_payees.mpr (.inl hledger)
  · exact Service.mem_payees.mpr (.inr (.inl hunderway))
  · rcases List.mem_or_eq_of_mem_set hq' with hq' | rfl
    · exact Service.mem_payees.mpr (.inr (.inr ⟨q', hq', tr, htr, rfl⟩))
    · rw [hq] at htr
      cases htr

/-! ### Deliveries -/

theorem keeps_handleDbPollAnswer (s : Service) (d : Delivery Booking) :
    Keeps s.server.polls (s.handleDbPollAnswer d).server.polls := by
  rcases handleDbPollAnswer_cases s d with hsame | ⟨p, hp, -, hset⟩
  · rw [hsame]
    exact .refl _
  · rw [hset]
    exact .set hp false

/-- A delivery takes a poll off. -/
theorem mem_pollers_of_deliver {d : Delivery Booking} {y : Copy}
    (hy : y ∈ (s.handleDbPollAnswer d).pollers) : y ∈ s.pollers := by
  rcases handleDbPollAnswer_cases s d with hsame | ⟨p, -, -, hset⟩
  · exact hsame ▸ hy
  · rw [hset] at hy
    obtain ⟨p', hp', hcopy⟩ := Service.mem_pollers.mp hy
    rcases List.mem_or_eq_of_mem_set hp' with hp' | rfl
    · exact Service.mem_pollers.mpr ⟨p', hp', hcopy⟩
    · cases hcopy

/-- A list for a poll is its own if everything in it has the QR-ID of the poll
and is apart from the polls. -/
theorem deliver (h : Own L s) {d : Delivery Booking} (key : String)
    (hkey : ∀ p, s.server.polls[d.idx]? = some p → p.qrid.toStr = .ok key)
    (hgroup : ∀ tr ∈ d.trgroup, groupKey tr = key)
    (hapart : Apart (d.trgroup.map (Copy.ofProfile ·.recipient)) s.pollers) :
    Own L (s.handleDbPollAnswer d) := by
  rcases handleDbPollAnswer_cases s d with hsame | ⟨p, hp, hactive, hset⟩
  · rw [hsame]
    exact h
  have hpollers : ∀ y ∈ (s.handleDbPollAnswer d).pollers, y ∈ s.pollers :=
    fun y hy => mem_pollers_of_deliver hy
  have hpoll : (⟨key, p.client.auth⟩ : Copy) ∈ s.pollers :=
    Service.mem_pollers.mpr ⟨p, mem_of_getElem? hp,
      Copy.ofPoll_eq_some.mpr ⟨hactive, hkey p hp, rfl⟩⟩
  rw [hset] at hpollers ⊢
  refine ⟨⟨h.traced.calls, h.traced.bank⟩, fun x hx y hy => h.apart x hx y (hpollers y hy), ?_, ?_⟩
  · exact Calls.forall_mem_set d.idx h.auth fun hfalse => by cases hfalse
  · intro client l hl
    rcases List.mem_append.mp hl with hl | hl
    · exact h.answers client l hl
    · cases List.mem_singleton.mp hl
      left
      intro tr htr
      obtain ⟨b, hb, rfl⟩ := List.mem_map.mp htr
      obtain ⟨id, hid⟩ := h.auth p (mem_of_getElem? hp) hactive
      have hreference : b.recipient.reference = p.client.auth :=
        hapart _ (List.mem_map_of_mem hb) _ hpoll (hgroup b hb)
      exact ⟨id, hid, hreference.trans hid⟩

/-- The callback of a query delivers what it has found. -/
theorem searchReply (h : Own L s) {n : ℕ} {q : Search Booking} {trlist : List Booking}
    (hq : s.searches[n]? = some q) (hphase : q.phase = .replied (some trlist))
    (hcaptured : ∀ c ∈ q.qrid_to_indices, ∃ p : Poll,
      s.server.polls[c.2]? = some p ∧ p.qrid.toStr = .ok c.1) :
    Own L ((onTrlist q.qrid_to_indices trlist).acts.foldl Service.handleDbPollAnswer
      { s with searches := s.searches.set n { q with phase := .done (some trlist) } }) := by
  have hfound : ∀ tr ∈ trlist, Copy.ofProfile tr.recipient ∈ s.payees := by
    intro tr htr
    refine Service.mem_payees.mpr (.inr (.inr ⟨q, mem_of_getElem? hq, tr, ?_, rfl⟩))
    rw [Search.found, hphase]
    exact htr
  have hall := foldl_deliveries
    (P := fun t => Own L t ∧ Keeps s.server.polls t.server.polls ∧ ∀ y ∈ t.pollers, y ∈ s.pollers)
    (s := { s with searches := s.searches.set n { q with phase := .done (some trlist) } })
    (onTrlist q.qrid_to_indices trlist).acts ⟨h.setSearch rfl, .refl _, fun _ hy => hy⟩ ?_
  · exact hall.1
  · rintro t d hd ⟨ht, hkeeps, hpollers⟩
    obtain ⟨key, hidx, hgroup⟩ := mem_onTrlist hd
    obtain ⟨p, hp, hkey⟩ := hcaptured _ hidx
    refine ⟨ht.deliver key ?_ ?_ ?_, hkeeps.trans (keeps_handleDbPollAnswer t d),
      fun y hy => hpollers y (mem_pollers_of_deliver hy)⟩
    · intro p' hp'
      obtain ⟨a, ha⟩ := hkeeps d.idx p hp
      cases ha.symm.trans hp'
      exact hkey
    · intro tr htr
      rw [hgroup, group, List.mem_filter] at htr
      exact of_decide_eq_true htr.2
    · intro x hx y hy
      obtain ⟨tr, htr, rfl⟩ := List.mem_map.mp hx
      rw [hgroup, group] at htr
      exact h.apart _ (hfound tr (List.mem_of_mem_filter htr)) y (hpollers y hy)

/-- A step under the condition. -/
theorem step (h : Own L s) {e : ServiceEvent} (hok : s.Separate E e)
    (hcaptured : ∀ q ∈ s.searches, ∀ c ∈ q.qrid_to_indices, ∃ p : Poll,
      s.server.polls[c.2]? = some p ∧ p.qrid.toStr = .ok c.1)
    (hs : s.step E K e = some s') : Own L s' := by
  cases serviceStep_cases hs with
  | server he hserver => exact h.server hok he hserver
  | search he hu => exact h.search he hu
  | searchError => exact h.setSearch rfl
  | deliver hq hp => exact h.searchReply hq hp (hcaptured _ (mem_of_getElem? hq))

end Own

/-! ## Runs -/

section Sample

open Server (lookup taxAccount magicStudent)

end Sample

end SchuleAlsStaat.Polling
