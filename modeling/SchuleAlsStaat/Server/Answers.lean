import SchuleAlsStaat.Pending.Owing
import SchuleAlsStaat.Server.Model

/-!
# At most one answer

A request owes one answer.  Its duty is with a call to the database that has a
callback, with a balance that is being summed, with a poll or with the pending
transactions, and ends with the answer.  `owing` counts the duties of a request
together with its answers.

Each action and each callback settles its request at most once, and so no step
raises the count above one, except for the cases that `OneAnswer` leaves out.
-/

namespace SchuleAlsStaat

open Runs (Run exec exists_run_of_exec exists_run_of_exec_forall)
open Calls (Phase countP_set)

/-! ## Sums that are reported -/

namespace Aggregations

/-- The callback has run on an error. -/
def failedDone : Phase (Option ℚ) → Bool
  | .done none => true
  | _ => false

/-- The callback of an aggregation has answered an error. -/
def reported (s : Aggregations) : Bool :=
  failedDone s.income || failedDone s.payments || failedDone s.taxincome

/-- An error or the balance has been passed on. -/
def closed (s : Aggregations) : Bool := s.reported || s.aggregationComplete.isSome

variable {s : Aggregations} {a : Aggregation}

theorem reported_replied (h : s.get a = .sent) (v : Option ℚ) :
    (s.set (.replied v) a).reported = s.reported := by
  cases a <;> simp only [get] at h <;> simp [reported, set, h, failedDone]

theorem closed_replied (h : s.get a = .sent) (v : Option ℚ) :
    (s.set (.replied v) a).closed = s.closed := by
  have before : s.aggregationComplete = none := aggregationComplete_eq_none (a := a) (by simp [h])
  have after : (s.set (.replied v) a).aggregationComplete = none :=
    aggregationComplete_eq_none (a := a) (by simp [get_set])
  rw [closed, closed, before, after, reported_replied h]

/-- Before its last callback a balance is closed only by an error. -/
theorem closed_eq_reported {v : Option ℚ} (h : s.get a = .replied v) : s.closed = s.reported := by
  have before : s.aggregationComplete = none := aggregationComplete_eq_none (a := a) (by simp [h])
  rw [closed, before, Option.isSome_none, Bool.or_false]

/-- A sum is not an error. -/
theorem reported_done_some {x : ℚ} (h : s.get a = .replied (some x)) :
    (s.set (.done (some x)) a).reported = s.reported := by
  cases a <;> simp only [get] at h <;> simp [reported, set, h, failedDone]

theorem reported_done_none : (s.set (.done none) a).reported = true := by
  cases a <;> simp [reported, set, failedDone]

theorem reported_of_aggregationComplete {b : ℚ} (h : s.aggregationComplete = some b) :
    s.reported = false := by
  rw [aggregationComplete.eq_def] at h
  split at h
  next hi hp ht => simp [reported, hi, hp, ht, failedDone]
  next => cases h

end Aggregations

namespace Server

variable {E : Ext} {K : Keys}

/-! ## Counting by request -/

/-- Calls whose callback will answer request `r`. -/
def callsFor (l : List Call) (r : ReqId) : ℕ :=
  l.countP fun c => (c.query.hasCallback && c.client.req = r) && c.phase.open?

def balancesFor (l : List GetBalance) (r : ReqId) : ℕ :=
  l.countP fun c => c.client.req = r && !c.sums.closed

def pollsFor (l : List Poll) (r : ReqId) : ℕ := l.countP fun p => p.client.req = r && p.active

def answersFor (l : List (Client × Answer)) (r : ReqId) : ℕ := l.countP fun x => x.1.req = r

/-- The answers to request `r`. -/
def answersTo (s : State) (r : ReqId) : ℕ :=
  answersFor s.answers r + Pending.answeredFor s.bank.answers r

/-- The answers to request `r` and the duties to answer it. -/
def owing (s : State) (r : ReqId) : ℕ :=
  callsFor s.calls r + balancesFor s.balances r + pollsFor s.polls r + answersFor s.answers r +
    Pending.owing s.bank r

theorem answersTo_le_owing (s : State) (r : ReqId) : answersTo s r ≤ owing s r := by
  rw [answersTo, owing, Pending.owing]
  omega

section Counts

variable (r : ReqId)

theorem callsFor_concat (l : List Call) (c : Call) (h : c.phase = .sent) :
    callsFor (l ++ [c]) r =
      callsFor l r + if c.query.hasCallback ∧ c.client.req = r then 1 else 0 := by
  simp [callsFor, List.countP_append, List.countP_singleton, h]

theorem callsFor_set {l : List Call} {n : ℕ} {c : Call} (h : l[n]? = some c) (c' : Call) :
    callsFor (l.set n c') r +
        (if (c.query.hasCallback ∧ c.client.req = r) ∧ c.phase.open? then 1 else 0) =
      callsFor l r +
        if (c'.query.hasCallback ∧ c'.client.req = r) ∧ c'.phase.open? then 1 else 0 := by
  simpa [callsFor] using
    countP_set (fun c : Call => (c.query.hasCallback && c.client.req = r) && c.phase.open?) h c'

theorem balancesFor_concat (l : List GetBalance) (c : GetBalance) (h : c.sums = .start) :
    balancesFor (l ++ [c]) r = balancesFor l r + if c.client.req = r then 1 else 0 := by
  have hclosed : Aggregations.start.closed = false := rfl
  simp [balancesFor, List.countP_append, List.countP_singleton, h, hclosed]

theorem balancesFor_set {l : List GetBalance} {n : ℕ} {c : GetBalance} (h : l[n]? = some c)
    (c' : GetBalance) :
    balancesFor (l.set n c') r + (if c.client.req = r ∧ c.sums.closed = false then 1 else 0) =
      balancesFor l r + if c'.client.req = r ∧ c'.sums.closed = false then 1 else 0 := by
  simpa [balancesFor] using
    countP_set (fun c : GetBalance => c.client.req = r && !c.sums.closed) h c'

theorem pollsFor_concat (l : List Poll) (p : Poll) (h : p.active = true) :
    pollsFor (l ++ [p]) r = pollsFor l r + if p.client.req = r then 1 else 0 := by
  simp [pollsFor, List.countP_append, List.countP_singleton, h]

theorem pollsFor_set {l : List Poll} {n : ℕ} {p : Poll} (h : l[n]? = some p) (p' : Poll) :
    pollsFor (l.set n p') r + (if p.client.req = r ∧ p.active then 1 else 0) =
      pollsFor l r + if p'.client.req = r ∧ p'.active then 1 else 0 := by
  simpa [pollsFor] using countP_set (fun p : Poll => p.client.req = r && p.active) h p'

theorem answersFor_concat (l : List (Client × Answer)) (x : Client × Answer) :
    answersFor (l ++ [x]) r = answersFor l r + if x.1.req = r then 1 else 0 := by
  simp [answersFor, List.countP_append, List.countP_singleton]

end Counts

/-! ## Acts -/

/-- What the acts of a request add to the count. -/
structure Adds (q : ReqId) (n : ℕ) (s s' : State) : Prop where
  duty : Pending.Duty s.bank → Pending.Duty s'.bank
  received : s'.received = s.received
  owing : Pending.Duty s.bank → ∀ r, owing s' r ≤ owing s r + if q = r then n else 0

theorem Adds.perform {a : Act} {q : ReqId} (h : a.For q) (w : WorkerId) (now : Time) (s : State) :
    Adds q (if a.settles then 1 else 0) s (s.perform w now a) := by
  cases a with
  | invoke name payload => exact ⟨id, rfl, fun _ r => Nat.le_add_right _ _⟩
  | answer client m =>
      cases h
      refine ⟨id, rfl, fun _ r => ?_⟩
      simp only [State.perform, Server.owing, answersFor_concat, Act.settles, if_true]
      omega
  | query client query =>
      cases h
      refine ⟨id, rfl, fun _ r => ?_⟩
      have hle : (if query.hasCallback = true ∧ client.req = r then 1 else 0) ≤
          if client.req = r then if (Act.query client query).settles then 1 else 0 else 0 := by
        simp only [Act.settles]
        split_ifs <;> simp_all
      simp only [State.perform, Server.owing, callsFor_concat]
      omega
  | getBalance client id' =>
      cases h
      refine ⟨id, rfl, fun _ r => ?_⟩
      simp only [State.perform, Server.owing, balancesFor_concat, Act.settles, if_true]
      omega
  | poll client date qrid =>
      cases h
      refine ⟨id, rfl, fun _ r => ?_⟩
      simp only [State.perform, Server.owing, pollsFor_concat, Act.settles, if_true]
      omega
  | intent client sender entry =>
      cases h
      have step := fun hd : Pending.Duty s.bank =>
        hd.step (e := .intent w now sender entry client) trivial trivial rfl
      refine ⟨fun hd => (step hd).1, rfl, fun hd r => ?_⟩
      have := (step hd).2 r
      simp only [Pending.opened] at this
      simp only [State.perform, Server.owing, Act.settles, if_true]
      omega
  | spawn client entry =>
      cases h
      have step := fun hd : Pending.Duty s.bank =>
        hd.step (e := .spawn entry client) trivial trivial rfl
      refine ⟨fun hd => (step hd).1, rfl, fun hd r => ?_⟩
      have := (step hd).2 r
      simp only [Pending.opened] at this
      simp only [State.perform, Server.owing, Act.settles, if_true]
      omega

theorem Adds.performAll {q : ReqId} (w : WorkerId) (now : Time) {acts : List Act}
    (h : ∀ a ∈ acts, a.For q) (s : State) : Adds q (settled acts) s (s.performAll w now acts) := by
  induction acts generalizing s with
  | nil => exact ⟨id, rfl, fun _ r => Nat.le_add_right _ _⟩
  | cons a acts ih =>
      have first := Adds.perform (h a (List.mem_cons_self ..)) w now s
      have rest := ih (fun b hb => h b (List.mem_cons_of_mem _ hb)) (s.perform w now a)
      refine ⟨fun hd => rest.duty (first.duty hd), rest.received.trans first.received,
        fun hd r => ?_⟩
      have h1 := first.owing hd r
      have h2 := rest.owing (first.duty hd) r
      have h3 : settled (a :: acts) = settled acts + if a.settles then 1 else 0 :=
        List.countP_cons
      rw [h3]
      show Server.owing ((s.perform w now a).performAll w now acts) r ≤ _
      split at h1 <;> simp_all <;> omega

/-! ## The invariant -/

/-- A request is answered once by its action. -/
def Answered (E : Ext) (K : Keys) : Event → Prop
  | .request _ env name post => AnsweredOnce E K env name post
  | _ => True

/-- `getBalance` reports one error at most, and the answers of pending
transactions are those of their elements. -/
def Settled (s : State) : Event → Prop
  | .sumReply n a => ∀ c ∈ s.balances[n]?, c.sums.get a = .replied none → c.sums.reported = false
  | .bank e => Pending.NoOverlap s.bank e ∧ Pending.Confirmed s.bank e
  | _ => True

instance (s : State) (e : Event) : Decidable (Settled s e) :=
  match e with
  | .sumReply .. => inferInstanceAs (Decidable (∀ _ ∈ _, _))
  | .bank _ => inferInstanceAs (Decidable (_ ∧ _))
  | .request .. | .callDb .. | .removeDb .. | .callFail _ | .callReply .. | .sumDb ..
  | .pollTimeout _ | .handleDbPollAnswer .. => isTrue trivial

/-- No duty is met twice. -/
def OneAnswer (E : Ext) (K : Keys) (s : State) (e : Event) : Prop := Answered E K e ∧ Settled s e

/-- Every request has at most one answer or duty, and one that has not arrived
has none. -/
structure AtMostOne (s : State) : Prop where
  duty : Pending.Duty s.bank
  owing : ∀ r, owing s r ≤ if r < s.received.length then 1 else 0

namespace AtMostOne

variable {s s' : State}

theorem init (S : Students) (L : Ledger) : AtMostOne (State.init S L) := by
  refine ⟨.init L, fun r => Nat.zero_le _⟩

/-- The count does not go up. -/
theorem of_le (h : AtMostOne s) (hd : Pending.Duty s'.bank) (hr : s'.received = s.received)
    (hle : ∀ r, Server.owing s' r ≤ Server.owing s r) : AtMostOne s' :=
  ⟨hd, fun r => (hle r).trans (by rw [hr]; exact h.owing r)⟩

/-- The acts of a request add to the count what they settle. -/
theorem performAll (hd : Pending.Duty s.bank) {q : ReqId} {w : WorkerId} {now : Time}
    {acts : List Act} (hfor : ∀ a ∈ acts, a.For q)
    (hle : ∀ r, Server.owing s r + (if q = r then settled acts else 0) ≤
      if r < s.received.length then 1 else 0) : AtMostOne (s.performAll w now acts) := by
  have adds := Adds.performAll w now hfor s
  refine ⟨adds.duty hd, fun r => (adds.owing hd r).trans ?_⟩
  rw [adds.received]
  exact hle r

/-- One more request may have an answer. -/
theorem bound_succ (r n : ReqId) : (if r < n + 1 then 1 else 0 : ℕ) =
    (if r < n then 1 else 0) + if n = r then 1 else 0 := by
  rcases lt_trichotomy r n with hlt | rfl | hgt
  · rw [if_pos (Nat.lt_succ_of_lt hlt), if_pos hlt, if_neg (ne_of_gt hlt)]
  · rw [if_pos (Nat.lt_succ_self _), if_neg (lt_irrefl _), if_pos rfl]
  · rw [if_neg (Nat.not_lt.mpr hgt), if_neg (not_lt_of_gt hgt), if_neg (ne_of_lt hgt)]

/-- A new request has no duties yet. -/
theorem request (h : AtMostOne s) {w : WorkerId} {env : Env} {name post : String}
    (hok : AnsweredOnce E K env name post) :
    AtMostOne (State.performAll w env.now { s with received := s.received ++ [⟨name, post⟩] }
      (prepare_action E K env ⟨s.received.length, none⟩ name post).acts) := by
  have serves : Serves (Act.For (⟨s.received.length, none⟩ : Client).req)
      (prepare_action E K env ⟨s.received.length, none⟩ name post) := serves_prepare_action hok
  refine performAll (s := { s with received := s.received ++ [⟨name, post⟩] }) h.duty serves.acts
    fun r => ?_
  have h1 : Server.owing { s with received := s.received ++ [⟨name, post⟩] } r ≤
      if r < s.received.length then 1 else 0 := h.owing r
  have h2 := serves.once
  rw [List.length_append, List.length_singleton, bound_succ]
  refine Nat.add_le_add h1 ?_
  split
  · exact h2
  · exact le_rfl

/-- When its callback has run, a call has no duty. -/
theorem owing_setCall (s : State) {n : ℕ} {c : Call} (hc : s.calls[n]? = some c)
    {v : Option Reply} (hp : c.phase = .replied v) (r : ReqId) :
    Server.owing { s with calls := s.calls.set n { c with phase := .done v } } r +
      (if c.query.hasCallback ∧ c.client.req = r then 1 else 0) = Server.owing s r := by
  have := callsFor_set r hc { c with phase := .done v }
  simp [hp] at this
  simp only [Server.owing]
  omega

/-- A callback takes over the duty of its call. -/
theorem callReply (h : AtMostOne s) {n : ℕ} {c : Call} {reply : Reply}
    (hc : s.calls[n]? = some c) (hp : c.phase = .replied (some reply)) (env : Env) :
    AtMostOne (State.performAll c.worker env.now { s with
      calls := s.calls.set n { c with phase := .done (some reply) } }
      (onReply E env c.client c.query reply).acts) := by
  have serves := serves_onReply E env c.client c.query reply
  refine performAll (s := { s with calls := s.calls.set n { c with phase := .done (some reply) } })
    h.duty serves.acts fun r => ?_
  have h1 := h.owing r
  have h2 := owing_setCall s hc hp r
  have h3 := serves.once
  cases hcb : c.query.hasCallback with
  | true =>
      simp only [hcb, true_and] at h2
      dsimp only
      split_ifs at h1 h2 ⊢ <;> omega
  | false =>
      rw [onReply_acts_of_not_hasCallback E env c.client hcb, settled, List.countP_nil]
      simp only [hcb, Bool.false_eq_true, false_and, if_false] at h2
      dsimp only
      split_ifs at h1 ⊢ <;> omega

/-- The error of a call with a callback is answered. -/
theorem callError (h : AtMostOne s) {n : ℕ} {c : Call} (hc : s.calls[n]? = some c)
    (hp : c.phase = .replied none) (hcb : c.query.hasCallback = true) (m : Answer) :
    AtMostOne (State.send { s with
      calls := s.calls.set n { c with phase := .done none } } c.client m) := by
  refine h.of_le h.duty rfl fun r => ?_
  have h1 := owing_setCall s hc hp r
  simp only [hcb, true_and] at h1
  simp only [Server.owing, State.send, answersFor_concat] at h1 ⊢
  omega

/-- The error of a call without a callback is dropped. -/
theorem callDropped (h : AtMostOne s) {n : ℕ} {c : Call} (hc : s.calls[n]? = some c)
    (hp : c.phase = .replied none) :
    AtMostOne { s with calls := s.calls.set n { c with phase := .done none } } := by
  refine h.of_le h.duty rfl fun r => ?_
  have h1 := owing_setCall s hc hp r
  omega

/-- The last reply to `getBalance`, or an error, ends its duty. -/
theorem closeBalance (h : AtMostOne s) {n : ℕ} {c : GetBalance} (hc : s.balances[n]? = some c)
    {sums : Aggregations} (before : c.sums.closed = false) (after : sums.closed = true)
    (m : Answer) : AtMostOne (State.send { s with
      balances := s.balances.set n { c with sums := sums } } c.client m) := by
  refine h.of_le h.duty rfl fun r => ?_
  have h1 := balancesFor_set r hc { c with sums := sums }
  simp only [before, after, and_true, reduceCtorEq, and_false, if_false] at h1
  simp only [Server.owing, State.send, answersFor_concat]
  omega

/-- The sums of a balance change, and it is answered as before. -/
theorem setBalance (h : AtMostOne s) {n : ℕ} {c : GetBalance} (hc : s.balances[n]? = some c)
    {sums : Aggregations} (same : sums.closed = c.sums.closed) :
    AtMostOne { s with balances := s.balances.set n { c with sums := sums } } := by
  refine h.of_le h.duty rfl fun r => ?_
  have h1 := balancesFor_set r hc { c with sums := sums }
  simp only [same] at h1
  simp only [Server.owing]
  omega

/-- A poll is answered and taken off. -/
theorem takeOff (h : AtMostOne s) {n : ℕ} {p : Poll} (hp : s.polls[n]? = some p)
    (ha : p.active = true) (m : Answer) :
    AtMostOne { s.send p.client m with polls := s.polls.set n { p with active := false } } := by
  refine h.of_le h.duty rfl fun r => ?_
  have h1 := pollsFor_set r hp { p with active := false }
  simp only [ha, and_true, Bool.false_eq_true, and_false, if_false] at h1
  simp only [Server.owing, State.send, answersFor_concat]
  omega

/-- A call that has been executed still has its duty. -/
theorem owing_replied (s : State) {n : ℕ} {c : Call} (hc : s.calls[n]? = some c)
    (hp : c.phase = .sent) (v : Option Reply) (r : ReqId) :
    callsFor (s.calls.set n { c with phase := .replied v }) r = callsFor s.calls r := by
  have := callsFor_set r hc { c with phase := .replied v }
  simp only [hp, Phase.open?_sent, Phase.open?_replied] at this
  omega

theorem opened_of_internal {e : Pending.Event} (h : internal e = true) (r : ReqId) :
    Pending.opened r e = 0 := by
  cases e <;> first | rfl | cases h

/-- No step under `OneAnswer` gives a request a second answer. -/
theorem step (h : AtMostOne s) {e : Event} (hok : OneAnswer E K s e)
    (hs : Server.step E K s e = some s') : AtMostOne s' := by
  cases step_cases hs with
  | request w env name post => exact h.request hok.1
  | @callDb n reply c S m hc hp hx =>
      refine h.of_le h.duty rfl fun r => ?_
      have := owing_replied s hc hp (some reply) r
      simp only [Server.owing]
      omega
  | @removeDb n k c id bank hc hp hq hb =>
      obtain ⟨hd, hle⟩ := h.duty.step (e := .delete k) trivial trivial hb
      refine h.of_le hd rfl fun r => ?_
      have h1 := hle r
      have h2 := owing_replied s hc hp (some .done) r
      simp only [Pending.opened] at h1
      simp only [Server.owing]
      omega
  | callFail hc hp =>
      refine h.of_le h.duty rfl fun r => ?_
      have := owing_replied s hc hp none r
      simp only [Server.owing]
      omega
  | callReply env hc hp => exact h.callReply hc hp env
  | callError env hc hp hcb => exact h.callError hc hp hcb _
  | callDropped env hc hp hcb => exact h.callDropped hc hp
  | sumDb ok hc hp => exact h.setBalance hc (Aggregations.closed_replied hp _)
  | @sumError n a c hc hp =>
      -- an error is answered, and it is the first one
      have before := Aggregations.closed_eq_reported hp
      refine h.closeBalance hc (before.trans (hok.2 c hc hp)) ?_ _
      rw [Aggregations.closed, Aggregations.reported_done_none, Bool.true_or]
  | sumWaits hc hp hb =>
      refine h.setBalance hc ?_
      rw [Aggregations.closed_eq_reported hp, Aggregations.closed, hb,
        Aggregations.reported_done_some hp]
      exact Bool.or_false _
  | sumComplete hc hp hb =>
      -- the balance is answered, and no sum has failed
      have before := Aggregations.closed_eq_reported hp
      have hreported := Aggregations.reported_of_aggregationComplete hb
      refine h.closeBalance hc (before.trans ?_) ?_ _
      · rw [← Aggregations.reported_done_some hp, hreported]
      · rw [Aggregations.closed, hb]
        exact Bool.or_true _
  | pollTimeout hp ha => exact h.takeOff hp ha _
  | handleDbPollAnswer trgroup hp ha => exact h.takeOff hp ha _
  | bank hi hb =>
      obtain ⟨hd, hle⟩ := h.duty.step hok.2.1 hok.2.2 hb
      refine h.of_le hd rfl fun r => ?_
      have := hle r
      rw [opened_of_internal hi] at this
      simp only [Server.owing]
      omega

end AtMostOne

/-! ## Runs -/

/-- In every run under `OneAnswer` a request is answered at most once. -/
theorem at_most_one_answer {S : Students} {L : Ledger} {s : State}
    (run : Run (step E K) (OneAnswer E K) (State.init S L) s) (r : ReqId) :
    answersTo s r ≤ 1 := by
  have h : AtMostOne s := run.invariant (AtMostOne.init S L) fun _ _ _ ih hok hs => ih.step hok hs
  calc answersTo s r ≤ owing s r := answersTo_le_owing s r
    _ ≤ if r < s.received.length then 1 else 0 := h.owing r
    _ ≤ 1 := by split <;> decide

section Sample

/-- The query of a citizen for the balance. -/
def balanceKeys : Keys := .simple [("query",
  "\x7b\"payload\":\x7b\"qrid\":\"1\",\"password\":\"pw\"\x7d\x7d")]

/-- A citizen asks for the balance.  The first two sums may fail. -/
def balanceEvents (ok : Bool) : List Event :=
  [.request 0 .start "get_balance" (bodyOf "query"), .callDb 0 (.student (some (someStudent 1))),
    .callReply 0 .start, .sumDb 0 .income ok, .sumDb 0 .payments ok, .sumDb 0 .taxincome true,
    .sumReply 0 .income, .sumReply 0 .payments, .sumReply 0 .taxincome]

theorem answered_balanceEvents (ok : Bool) :
    ∀ e ∈ balanceEvents ok, Answered Ext.simple balanceKeys e := by
  have request : AnsweredOnce Ext.simple balanceKeys .start "get_balance" (bodyOf "query") :=
    .of_action .start (bodyOf "query") rfl (fun fns h => by cases h) fun _ => trivial
  simp only [balanceEvents, List.forall_mem_cons, Answered, request, true_and]
  simp

theorem at_most_one_answer_balance : ∃ s, Run (step Ext.simple balanceKeys)
    (OneAnswer Ext.simple balanceKeys) (State.init [someStudent 1] []) s ∧ answersTo s 0 = 1 ∧
      answersTo s 0 ≤ 1 := by
  have hexec : (exec (step Ext.simple balanceKeys) Settled (State.init [someStudent 1] [])
      (balanceEvents true)).map (answersTo · 0) = some 1 := by decide +kernel
  obtain ⟨s, run, h⟩ := exists_run_of_exec_forall (answered_balanceEvents true) hexec
  exact ⟨s, run, h, at_most_one_answer run 0⟩

/-- Two sums of a balance fail and both errors are answered. -/
theorem two_failed_sums_answer_twice : ¬ ∀ (E : Ext) (K : Keys) (S : Students) (L : Ledger)
    (s : State), Runs.AnyRun (step E K) (State.init S L) s → ∀ r, answersTo s r ≤ 1 := by
  intro claim
  have hexec : (exec (step Ext.simple balanceKeys) (fun _ _ => True)
      (State.init [someStudent 1] []) (balanceEvents false)).map (answersTo · 0) = some 2 := by
    decide +kernel
  obtain ⟨s, run, h⟩ := exists_run_of_exec (balanceEvents false) hexec
  have hle := claim _ _ _ _ s run 0
  rw [show answersTo s 0 = 2 from h] at hle
  exact absurd hle (by decide)

end Sample

end Server

end SchuleAlsStaat
