import SchuleAlsStaat.Polling.Slots
import SchuleAlsStaat.Server.Grows

/-!
# The server with its regular search

The server of `Server.Model` leaves open what the regular search finds.  A
`Service` adds the queries of the search to it, and the deliveries of a query are
the steps `handleDbPollAnswer` of the server.

A service refines polling: the ledger, the polls and the queries of a run of the
service are those of a run of polling, and so every index that a query has captured
is that of a poll whose condition is in the query.
-/

namespace SchuleAlsStaat.Polling

open Calls (withSent_eq_some withReply withReply_eq_some)
open Runs (Run AnyRun)
open Server (Poll)

/-! ## The system -/

/-- The server and the queries of its regular search. -/
structure Service where
  server : Server.State
  searches : List (Search Booking)

def Service.init (S : Students) (L : Ledger) : Service := ⟨.init S L, []⟩

inductive ServiceEvent where
  | server (e : Server.Event)
  | tick (w : WorkerId) (limit : Option ℕ)
  | searchDb (n : ℕ) (trs : Ledger)
  | searchFail (n : ℕ)
  | searchReply (n : ℕ)

namespace Service

/-- What polling sees of a service. -/
def view (s : Service) : State Booking := ⟨s.server.bank.transactions, s.server.polls, s.searches, []⟩

/-- A call `handleDbPollAnswer(trgroup, idx)`, which sends the list to the client of the poll. -/
def handleDbPollAnswer (s : Service) (d : Delivery Booking) : Service :=
  { s with server := (s.server.answerPoll d.idx
      (.transactions (d.trgroup.map TransactionView.ofBooking))).getD s.server }

variable (E : Ext) (K : Keys)

/-- A step of the server that is not a delivery. -/
def isDelivery : Server.Event → Bool
  | .handleDbPollAnswer _ _ => true
  | _ => false

/-- One step, if the event is enabled. -/
def step (s : Service) : ServiceEvent → Option Service
  | .server e => if isDelivery e then none
      else (Server.step E K s.server e).map fun server => { s with server := server }
  | .tick w limit => (Polling.step E s.view (.tick w limit)).map fun t =>
      { s with searches := t.searches }
  | .searchDb n trs => (Polling.step E s.view (.searchDb n trs)).map fun t =>
      { s with searches := t.searches }
  | .searchFail n => (Polling.step E s.view (.searchFail n)).map fun t =>
      { s with searches := t.searches }
  | .searchReply n => withReply Search.phase s.searches n fun q r =>
      let s : Service := { s with searches := s.searches.set n { q with phase := .done r } }
      some (match r with
        | some trlist => (onTrlist q.qrid_to_indices trlist).acts.foldl handleDbPollAnswer s
        | none => s)

end Service

/-! ## Deliveries -/

section Deliver

variable {s : Service}

/-- A delivery answers the poll at its index, or nothing happens. -/
theorem handleDbPollAnswer_cases (s : Service) (d : Delivery Booking) :
    s.handleDbPollAnswer d = s ∨ ∃ p, s.server.polls[d.idx]? = some p ∧ p.active = true ∧
      s.handleDbPollAnswer d = { s with server := { s.server with
        answers := s.server.answers ++
          [(p.client, .transactions (d.trgroup.map TransactionView.ofBooking))]
        polls := s.server.polls.set d.idx { p with active := false } } } := by
  rw [Service.handleDbPollAnswer, Server.State.answerPoll]
  cases hp : s.server.polls[d.idx]? with
  | none => exact .inl rfl
  | some p =>
      cases hactive : p.active with
      | false =>
          left
          simp [hactive]
      | true =>
          right
          refine ⟨p, rfl, hactive, ?_⟩
          simp [hactive, Server.State.send]

/-- What deliveries preserve, the deliveries of a query preserve. -/
theorem foldl_deliveries {P : Service → Prop} (ds : List (Delivery Booking)) (start : P s)
    (next : ∀ t, ∀ d ∈ ds, P t → P (t.handleDbPollAnswer d)) :
    P (ds.foldl Service.handleDbPollAnswer s) := by
  induction ds generalizing s with
  | nil => exact start
  | cons d ds ih =>
      refine ih (next s d (List.mem_cons_self ..) start) fun t d' hd' => ?_
      exact next t d' (List.mem_cons_of_mem _ hd')

end Deliver

/-! ## Refinement -/

/-- The event is about the queries only. -/
def isSearch : Event Booking → Bool
  | .tick _ _ | .searchDb _ _ | .searchFail _ => true
  | _ => false

/-- Such a step changes the queries, and does not look at the answers. -/
theorem step_of_isSearch {E : Ext} {t u : State Booking} {e : Event Booking}
    {answers : List (ℕ × Option (List Booking))} (he : isSearch e = true)
    (hs : step E { t with answers := answers } e = some u) :
    step E t e = some { t with searches := u.searches } := by
  cases step_cases hs with
  | nopolls limit hempty => exact if_pos hempty
  | nosearch hne hsearch =>
      rw [step, if_neg hne]
      simp only [hsearch]
  | search hne hsearch =>
      rw [step, if_neg hne]
      simp only [hsearch]
  | searchDb hq hp hperm hfind =>
      refine withSent_eq_some.mpr ⟨_, hq, hp, ?_⟩
      rw [if_pos hperm, hfind]
      rfl
  | searchFail hq hp => exact withSent_eq_some.mpr ⟨_, hq, hp, rfl⟩
  | _ => cases he

/-- What a step of a service does, case by case. -/
inductive ServiceStep (E : Ext) (K : Keys) (s : Service) : ServiceEvent → Service → Prop where
  | server {e : Server.Event} {server : Server.State} (he : Service.isDelivery e = false)
      (hs : Server.step E K s.server e = some server) :
      ServiceStep E K s (.server e) { s with server := server }
  | search {e : ServiceEvent} {e' : Event Booking} {u : State Booking} (he : isSearch e' = true)
      (hs : step E s.view e' = some u) : ServiceStep E K s e { s with searches := u.searches }
  | searchError {n : ℕ} {q : Search Booking} (hq : s.searches[n]? = some q)
      (hp : q.phase = .replied none) : ServiceStep E K s (.searchReply n) { s with
        searches := s.searches.set n { q with phase := .done none } }
  | deliver {n : ℕ} {q : Search Booking} {trlist : List Booking} (hq : s.searches[n]? = some q)
      (hp : q.phase = .replied (some trlist)) : ServiceStep E K s (.searchReply n)
        ((onTrlist q.qrid_to_indices trlist).acts.foldl Service.handleDbPollAnswer
          { s with searches := s.searches.set n { q with phase := .done (some trlist) } })

theorem serviceStep_cases {E : Ext} {K : Keys} {s s' : Service} {e : ServiceEvent}
    (hs : s.step E K e = some s') : ServiceStep E K s e s' := by
  cases e with
  | server e =>
      simp only [Service.step] at hs
      split at hs
      next => cases hs
      next he =>
        obtain ⟨server, hserver, rfl⟩ := Option.map_eq_some_iff.mp hs
        exact .server (by simpa using he) hserver
  | tick w limit =>
      obtain ⟨u, hu, rfl⟩ := Option.map_eq_some_iff.mp hs
      exact .search rfl hu
  | searchDb n trs =>
      obtain ⟨u, hu, rfl⟩ := Option.map_eq_some_iff.mp hs
      exact .search rfl hu
  | searchFail n =>
      obtain ⟨u, hu, rfl⟩ := Option.map_eq_some_iff.mp hs
      exact .search rfl hu
  | searchReply n =>
      obtain ⟨q, r, hq, hphase, hs⟩ := withReply_eq_some.mp hs
      cases hs
      cases r with
      | none => exact .searchError hq hphase
      | some trlist => exact .deliver hq hphase

/-- A state of polling has the ledger, the polls and the queries of the service. -/
structure Sees (s : Service) (t : State Booking) : Prop where
  transactions : t.transactions = s.server.bank.transactions
  polls : t.polls = s.server.polls
  searches : t.searches = s.searches

namespace Sees

variable {E : Ext} {K : Keys} {s s' : Service} {t : State Booking}

theorem init (S : Students) (L : Ledger) : Sees (.init S L) (.init L) := ⟨rfl, rfl, rfl⟩

/-- Polls that are pushed are registered one after the other. -/
theorem register (h : Sees s t) {polls : List Poll} (hactive : ∀ p ∈ polls, p.active = true) :
    ∃ t', AnyRun (Polling.step E) t t' ∧ t'.transactions = s.server.bank.transactions ∧
      t'.polls = s.server.polls ++ polls ∧ t'.searches = s.searches := by
  have hrun : ∀ t₀ : State Booking, AnyRun (Polling.step E) t₀
      { t₀ with polls := t₀.polls ++ polls } := by
    induction polls with
    | nil =>
        intro t₀
        rw [List.append_nil]
        exact .refl
    | cons p polls ih =>
        intro t₀
        have hp : ({ p with active := true } : Poll) = p := by
          rw [← hactive p (List.mem_cons_self ..)]
        have first : AnyRun (Polling.step E) t₀ { t₀ with polls := t₀.polls ++ [p] } :=
          .tail .refl trivial (by rw [Polling.step, hp])
        have rest := ih (fun p' hp' => hactive p' (List.mem_cons_of_mem _ hp'))
          { t₀ with polls := t₀.polls ++ [p] }
        simp only [List.append_assoc, List.singleton_append] at rest
        exact first.trans rest
  refine ⟨_, hrun t, h.transactions, ?_, h.searches⟩
  rw [h.polls]

/-- A delivery is the same in both. -/
theorem handleDbPollAnswer (h : Sees s t) (d : Delivery Booking) :
    Sees (s.handleDbPollAnswer d) (t.handleDbPollAnswer d) := by
  rw [State.handleDbPollAnswer]
  rcases handleDbPollAnswer_cases s d with hsame | ⟨p, hp, hactive, hset⟩
  · rw [hsame]
    rcases t.answer_cases d.idx (some d.trgroup) with hsame' | ⟨p, hp, hactive, -⟩
    · rw [hsame']
      exact h
    · exfalso
      rw [h.polls] at hp
      have hanswers := congrArg (·.server.answers.length) hsame
      simp [Service.handleDbPollAnswer, Server.State.answerPoll, hp, hactive,
        Server.State.send] at hanswers
  · rw [hset]
    rw [← h.polls] at hp
    have hanswer : t.answer d.idx (some d.trgroup) = { t with
        answers := t.answers ++ [(d.idx, some d.trgroup)]
        polls := t.polls.set d.idx { p with active := false } } := by
      rw [State.answer, hp]
      exact if_pos hactive
    rw [hanswer]
    exact ⟨h.transactions, by rw [h.polls], h.searches⟩

theorem deliveries (h : Sees s t) (ds : List (Delivery Booking)) :
    Sees (ds.foldl Service.handleDbPollAnswer s) (ds.foldl State.handleDbPollAnswer t) := by
  induction ds generalizing s t with
  | nil => exact h
  | cons d ds ih => exact ih (h.handleDbPollAnswer d)

/-- A timeout of a poll is one in polling. -/
theorem timeout (h : Sees s t) {n : ℕ} {p : Poll} (hp : s.server.polls[n]? = some p)
    (hactive : p.active = true) :
    Sees { s with server := { s.server.send p.client .timeout with
      polls := s.server.polls.set n { p with active := false } } } (t.answer n none) := by
  rw [← h.polls] at hp
  have hanswer : t.answer n none = { t with
      answers := t.answers ++ [(n, none)]
      polls := t.polls.set n { p with active := false } } := by
    rw [State.answer, hp]
    exact if_pos hactive
  rw [hanswer]
  exact ⟨h.transactions, by rw [h.polls], h.searches⟩

/-- The acts of a stretch of code register the polls that they start. -/
theorem performAll (h : Sees s t) (server : Server.State)
    (htransactions : server.bank.transactions = s.server.bank.transactions)
    (hpolls : server.polls = s.server.polls) (w : WorkerId) (now : Time) (acts : List Act) :
    ∃ t', AnyRun (Polling.step E) t t' ∧
      Sees { s with server := server.performAll w now acts } t' := by
  have hactive : ∀ p ∈ acts.filterMap (Server.startedPoll w), p.active = true := by
    intro p hp
    obtain ⟨a, -, ha⟩ := List.mem_filterMap.mp hp
    cases a with
    | poll => cases ha; rfl
    | _ => cases ha
  obtain ⟨t', run, ht, hp, hq⟩ := h.register (E := E) hactive
  refine ⟨t', run, ?_, ?_, hq⟩
  · rw [ht, ← htransactions]
    exact (Server.State.performAll_transactions w now server acts).symm
  · rw [hp, ← hpolls]
    exact (Server.State.performAll_polls w now server acts).symm

/-- A step of the server that leaves the ledger and the polls alone. -/
theorem stutter (h : Sees s t) {server : Server.State}
    (htransactions : server.bank.transactions = s.server.bank.transactions)
    (hpolls : server.polls = s.server.polls) :
    ∃ t', AnyRun (Polling.step E) t t' ∧ Sees { s with server := server } t' :=
  ⟨t, .refl, h.transactions.trans htransactions.symm, h.polls.trans hpolls.symm, h.searches⟩

/-- A step of the server is a run of polling. -/
theorem server (h : Sees s t) {e : Server.Event} {server : Server.State}
    (he : Service.isDelivery e = false) (hs : Server.step E K s.server e = some server) :
    ∃ t', AnyRun (Polling.step E) t t' ∧ Sees { s with server := server } t' := by
  cases Server.step_cases hs with
  | request w env name post =>
      exact h.performAll { s.server with received := s.server.received ++ [⟨name, post⟩] } rfl rfl
        w env.now _
  | @removeDb n k c id bank hc hp hq hb =>
      rcases Pending.transactions_step hb with htransactions | ⟨m, c, b, he, -⟩ | ⟨m, he, herase⟩
      · exact h.stutter htransactions rfl
      · cases he
      · cases he
        refine ⟨{ t with transactions := t.transactions.eraseIdx k },
          .tail .refl trivial (e := .remove k) rfl, ?_, h.polls, h.searches⟩
        rw [h.transactions]
        exact herase.symm
  | @callReply n c r env hc hp =>
      exact h.performAll { s.server with
        calls := s.server.calls.set n { c with phase := .done (some r) } } rfl rfl
        c.worker env.now _
  | @pollTimeout n p hp ha =>
      exact ⟨t.answer n none, .tail .refl trivial (e := .timeout n) rfl, h.timeout hp ha⟩
  | handleDbPollAnswer trgroup hp ha => cases he
  | bank hi hb =>
      rcases Pending.transactions_step hb with hsame | ⟨n, c, b, -, -, -, happend⟩ | ⟨n, rfl, -⟩
      · exact h.stutter hsame rfl
      · refine ⟨{ t with transactions := t.transactions ++ [b] },
          .tail .refl trivial (e := .write b) rfl, ?_, h.polls, h.searches⟩
        rw [h.transactions]
        exact happend.symm
      · cases hi
  | _ => exact h.stutter rfl rfl

/-- The queries depend on what a service shows of itself. -/
theorem search (h : Sees s t) {e : Event Booking} {u : State Booking} (he : isSearch e = true)
    (hs : Polling.step E s.view e = some u) :
    ∃ t', AnyRun (Polling.step E) t t' ∧ Sees { s with searches := u.searches } t' := by
  have hview : s.view = { t with answers := [] } := by
    rw [Service.view, ← h.transactions, ← h.polls, ← h.searches]
  rw [hview] at hs
  exact ⟨{ t with searches := u.searches }, .tail .refl trivial (step_of_isSearch he hs),
    h.transactions, h.polls, rfl⟩

/-- A service refines polling. -/
theorem step (h : Sees s t) {e : ServiceEvent} (hs : s.step E K e = some s') :
    ∃ t', AnyRun (Polling.step E) t t' ∧ Sees s' t' := by
  have hset (n : ℕ) (q : Search Booking) : Sees { s with searches := s.searches.set n q }
      { t with searches := t.searches.set n q } :=
    ⟨h.transactions, h.polls, by rw [h.searches]⟩
  cases serviceStep_cases hs with
  | server he hserver => exact h.server he hserver
  | search he hu => exact h.search he hu
  | @searchError n q hq hp =>
      rw [← h.searches] at hq
      have hreply : Polling.step E t (.searchReply n) =
          some { t with searches := t.searches.set n { q with phase := .done none } } :=
        withReply_eq_some.mpr ⟨q, none, hq, hp, rfl⟩
      exact ⟨_, .tail .refl trivial hreply, hset n _⟩
  | @deliver n q trlist hq hp =>
      rw [← h.searches] at hq
      have hreply : Polling.step E t (.searchReply n) = some
          ((onTrlist q.qrid_to_indices trlist).acts.foldl State.handleDbPollAnswer
            { t with searches := t.searches.set n { q with phase := .done (some trlist) } }) :=
        withReply_eq_some.mpr ⟨q, some trlist, hq, hp, rfl⟩
      exact ⟨_, .tail .refl trivial hreply, (hset n _).deliveries _⟩

end Sees

end SchuleAlsStaat.Polling
