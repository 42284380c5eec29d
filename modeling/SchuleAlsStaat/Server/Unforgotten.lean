import SchuleAlsStaat.Actions.Settles
import SchuleAlsStaat.Pending.Owned
import SchuleAlsStaat.Server.Answers

/-!
# No request is forgotten

As long as no exception escapes from an action or a callback, every request that has
arrived is answered or something is under way that will answer it.  The proof counts
the duties of a request as `AtMostOne` does, from below: a step ends a duty only with
an answer or by passing it on.  Together, a request is answered exactly once when
nothing is under way for it any more.
-/

namespace SchuleAlsStaat.Server

open Runs (Run exec exists_run_of_exec exists_run_of_exec_forall)
open Calls (Phase forall_mem_set forall_mem_append mem_of_getElem?)

variable {E : Ext} {K : Keys} {S : Students} {L : Ledger} {s s' : State}

/-! ## Code that a step runs -/

/-- The code that a step runs. -/
def State.code (E : Ext) (K : Keys) (s : State) : Event → Code
  | .request _ env name post => prepare_action E K env ⟨s.received.length, none⟩ name post
  | .callReply n env =>
      match s.calls[n]? with
      | some ⟨_, client, query, .replied (some r)⟩ => onReply E env client query r
      | _ => pure ()
  | _ => pure ()

/-- No exception escapes from the code. -/
def NoEscape (E : Ext) (K : Keys) (s : State) (e : Event) : Prop :=
  (s.code E K e).result.isOk = true

instance (s : State) (e : Event) : Decidable (NoEscape E K s e) :=
  inferInstanceAs (Decidable (_ = true))

theorem code_callReply {n : ℕ} {env : Env} {c : Call} {r : Reply} (hc : s.calls[n]? = some c)
    (hp : c.phase = .replied (some r)) :
    s.code E K (.callReply n env) = onReply E env c.client c.query r := by
  obtain ⟨w, client, query, phase⟩ := c
  cases hp
  simp only [State.code, hc]

/-- Code from which no exception escapes has settled its request. -/
theorem one_le_settled {x : Code} (h : Settles x) (hx : x.result.isOk = true) :
    1 ≤ settled x.acts := by
  cases hres : x.result with
  | error e =>
      rw [hres] at hx
      cases hx
  | ok u => exact h u hres

/-! ## Acts -/

/-- What an act adds to the count at least. -/
theorem perform_owing {a : Act} {q : ReqId} (h : a.For q) (w : WorkerId) (now : Time)
    (ho : Pending.Owned s.bank) : Pending.Owned (s.perform w now a).bank ∧
      ∀ r, owing s r + (if q = r then if a.settles then 1 else 0 else 0) ≤
        owing (s.perform w now a) r := by
  cases a with
  | invoke name payload => exact ⟨ho, fun r => by simp [Act.settles, State.perform]⟩
  | answer client m =>
      cases h
      refine ⟨ho, fun r => ?_⟩
      simp only [State.perform, owing, answersFor_concat, Act.settles, if_true]
      omega
  | query client query =>
      cases h
      refine ⟨ho, fun r => ?_⟩
      have hle : (if client.req = r then if (Act.query client query).settles then 1 else 0 else 0) ≤
          if query.hasCallback = true ∧ client.req = r then 1 else 0 := by
        simp only [Act.settles]
        split_ifs <;> simp_all
      simp only [State.perform, owing, callsFor_concat]
      omega
  | getBalance client id =>
      cases h
      refine ⟨ho, fun r => ?_⟩
      simp only [State.perform, owing, balancesFor_concat, Act.settles, if_true]
      omega
  | poll client date qrid =>
      cases h
      refine ⟨ho, fun r => ?_⟩
      simp only [State.perform, owing, pollsFor_concat, Act.settles, if_true]
      omega
  | intent client sender entry =>
      cases h
      obtain ⟨ho', hle⟩ := ho.step (e := .intent w now sender entry client) rfl
      refine ⟨ho', fun r => ?_⟩
      have hr := hle r
      simp only [Pending.opened] at hr
      simp only [State.perform, owing, Act.settles, if_true]
      omega
  | spawn client entry =>
      cases h
      obtain ⟨ho', hle⟩ := ho.step (e := .spawn entry client) rfl
      refine ⟨ho', fun r => ?_⟩
      have hr := hle r
      simp only [Pending.opened] at hr
      simp only [State.perform, owing, Act.settles, if_true]
      omega

theorem performAll_owing {q : ReqId} (w : WorkerId) (now : Time) {acts : List Act}
    (h : ∀ a ∈ acts, a.For q) (ho : Pending.Owned s.bank) :
    Pending.Owned (s.performAll w now acts).bank ∧
      ∀ r, owing s r + (if q = r then settled acts else 0) ≤
        owing (s.performAll w now acts) r := by
  induction acts generalizing s with
  | nil => exact ⟨ho, fun r => by simp [settled, State.performAll]⟩
  | cons a acts ih =>
      obtain ⟨ho₁, h₁⟩ := perform_owing (h a (List.mem_cons_self ..)) w now ho
      obtain ⟨ho₂, h₂⟩ := ih (fun b hb => h b (List.mem_cons_of_mem _ hb)) ho₁
      refine ⟨ho₂, fun r => ?_⟩
      have hcons : settled (a :: acts) = settled acts + if a.settles then 1 else 0 :=
        List.countP_cons
      calc owing s r + (if q = r then settled (a :: acts) else 0)
          = owing s r + (if q = r then if a.settles then 1 else 0 else 0) +
              (if q = r then settled acts else 0) := by
            rw [hcons]
            split <;> omega
        _ ≤ owing (s.perform w now a) r + (if q = r then settled acts else 0) :=
            Nat.add_le_add_right (h₁ r) _
        _ ≤ owing ((s.perform w now a).performAll w now acts) r := h₂ r

/-! ## Answers of balances and polls -/

/-- The sums of a balance change, and it is answered as before. -/
theorem setBalance_owing {n : ℕ} {c : GetBalance} (hc : s.balances[n]? = some c)
    {sums : Aggregations} (same : sums.closed = c.sums.closed) (r : ReqId) :
    owing s r ≤ owing { s with balances := s.balances.set n { c with sums := sums } } r := by
  have hset := balancesFor_set r hc { c with sums := sums }
  simp only [same] at hset
  simp only [owing]
  omega

/-- A balance is answered, whether it had a duty or not. -/
theorem answerBalance_owing {n : ℕ} {c : GetBalance} (hc : s.balances[n]? = some c)
    (sums : Aggregations) (m : Answer) (r : ReqId) : owing s r ≤ owing
      (State.send { s with balances := s.balances.set n { c with sums := sums } } c.client m) r := by
  have hset := balancesFor_set r hc { c with sums := sums }
  have hle : (if c.client.req = r ∧ c.sums.closed = false then 1 else 0) ≤
      if c.client.req = r then 1 else 0 := by
    split_ifs <;> simp_all
  simp only [owing, State.send, answersFor_concat]
  omega

theorem answerPoll_owing {n : ℕ} {p : Poll} (hp : s.polls[n]? = some p) (m : Answer) (r : ReqId) :
    owing s r ≤
      owing { s.send p.client m with polls := s.polls.set n { p with active := false } } r := by
  have hset := pollsFor_set r hp { p with active := false }
  have hle : (if p.client.req = r ∧ p.active = true then 1 else 0) ≤
      if p.client.req = r then 1 else 0 := by
    split_ifs <;> simp_all
  simp only [owing, State.send, answersFor_concat]
  omega

/-! ## The invariant -/

/-- The database replies to a call with a value of its kind. -/
theorem execute_fits {q : Query} {r : Reply} {t : State} (h : execute E s q r = some t)
    (hcb : q.hasCallback = true) : q.fits r = true := by
  rw [execute.eq_def] at h
  split at h <;> first | rfl | cases hcb | cases h

/-- Every request that has arrived has an answer or a duty. -/
structure Remembered (s : State) : Prop where
  owned : Pending.Owned s.bank
  fits : ∀ c ∈ s.calls, ∀ r, c.phase = .replied (some r) → c.query.hasCallback = true →
    c.query.fits r = true
  owing : ∀ r < s.received.length, 1 ≤ owing s r

namespace Remembered

variable {e : Event}

theorem init (S : Students) (L : Ledger) : Remembered (State.init S L) where
  owned := .init L
  fits c hc := by cases hc
  owing r hr := absurd hr (Nat.not_lt_zero r)

/-- The count does not go down. -/
theorem of_le (h : Remembered s) (ho : Pending.Owned s'.bank) (hr : s'.received = s.received)
    (hfits : ∀ c ∈ s'.calls, ∀ r, c.phase = .replied (some r) → c.query.hasCallback = true →
      c.query.fits r = true) (hle : ∀ r, Server.owing s r ≤ Server.owing s' r) : Remembered s' :=
  ⟨ho, hfits, fun r hlt => (h.owing r (hr ▸ hlt)).trans (hle r)⟩

/-- A call that the database has not replied to, or that is done. -/
theorem fits_set (h : Remembered s) (n : ℕ) {c : Call}
    (hc : ∀ r, c.phase = .replied (some r) → c.query.hasCallback = true → c.query.fits r = true) :
    ∀ k ∈ s.calls.set n c, ∀ r, k.phase = .replied (some r) → k.query.hasCallback = true →
      k.query.fits r = true :=
  forall_mem_set n h.fits hc

theorem request (h : Remembered s) {w : WorkerId} {env : Env} {name post : String}
    (hok : NoEscape E K s (.request w env name post)) :
    Remembered (State.performAll w env.now { s with received := s.received ++ [⟨name, post⟩] }
      (prepare_action E K env ⟨s.received.length, none⟩ name post).acts) := by
  have hfor : ∀ a ∈ (prepare_action E K env ⟨s.received.length, none⟩ name post).acts,
      a.For s.received.length := fun a ha => for_prepare_action ha
  obtain ⟨howned, hle⟩ := performAll_owing
    (s := { s with received := s.received ++ [⟨name, post⟩] }) w env.now hfor h.owned
  have hsettled : 1 ≤ settled
      (prepare_action E K env ⟨s.received.length, none⟩ name post).acts :=
    one_le_settled settles_prepare_action hok
  refine ⟨howned, ?_, fun r hr => le_trans ?_ (hle r)⟩
  · intro c hc r hp hcb
    rcases (State.performAll_frame ..).2.2 c hc with hc | ⟨client, q, -, rfl⟩
    · exact h.fits c hc r hp hcb
    · cases hp
  · rw [(State.performAll_frame ..).1, List.length_append, List.length_singleton] at hr
    by_cases heq : s.received.length = r
    · rw [if_pos heq]
      exact hsettled.trans (Nat.le_add_left ..)
    · exact (h.owing r (by omega)).trans (Nat.le_add_right ..)

/-- A callback answers or passes the duty of its call on. -/
theorem callReply (h : Remembered s) {n : ℕ} {c : Call} {reply : Reply} {env : Env}
    (hc : s.calls[n]? = some c) (hp : c.phase = .replied (some reply))
    (hok : NoEscape E K s (.callReply n env)) :
    Remembered (State.performAll c.worker env.now { s with
      calls := s.calls.set n { c with phase := .done (some reply) } }
      (onReply E env c.client c.query reply).acts) := by
  have hset : ∀ k ∈ s.calls.set n { c with phase := .done (some reply) }, ∀ r,
      k.phase = .replied (some r) → k.query.hasCallback = true → k.query.fits r = true :=
    h.fits_set n fun r hr => by cases hr
  obtain ⟨howned, hle⟩ := performAll_owing (s := { s with
    calls := s.calls.set n { c with phase := .done (some reply) } }) c.worker env.now
    (serves_onReply E env c.client c.query reply).acts h.owned
  refine ⟨howned, ?_, fun r hr => le_trans ?_ (hle r)⟩
  · intro k hk r hr hcb
    rcases (State.performAll_frame ..).2.2 k hk with hk | ⟨client, q, -, rfl⟩
    · exact hset k hk r hr hcb
    · cases hr
  · rw [(State.performAll_frame ..).1] at hr
    have hcount := AtMostOne.owing_setCall s hc hp r
    have hone := h.owing r hr
    by_cases hduty : c.query.hasCallback = true ∧ c.client.req = r
    · rw [if_pos hduty.2]
      rw [NoEscape, code_callReply hc hp] at hok
      have hfits := h.fits c (mem_of_getElem? hc) reply hp hduty.1
      have hsettled := one_le_settled (settles_onReply hfits) hok
      exact hsettled.trans (Nat.le_add_left ..)
    · rw [if_neg hduty, Nat.add_zero] at hcount
      rw [hcount]
      exact hone.trans (Nat.le_add_right ..)

/-- Whatever ends a duty answers it. -/
theorem step (h : Remembered s) (hok : NoEscape E K s e) (hs : Server.step E K s e = some s') :
    Remembered s' := by
  cases step_cases hs with
  | request w env name post => exact h.request hok
  | @callDb n reply c S m hc hp hx =>
      refine h.of_le h.owned rfl (h.fits_set n fun r hr hcb => ?_) fun r => ?_
      · cases hr
        exact execute_fits hx hcb
      · have hopen := AtMostOne.owing_replied s hc hp (some reply) r
        simp only [Server.owing]
        omega
  | @removeDb n k c id bank hc hp hq hb =>
      obtain ⟨howned, hle⟩ := h.owned.step (e := .delete k) hb
      refine h.of_le howned rfl (h.fits_set n fun r hr hcb => ?_) fun r => ?_
      · rw [hq] at hcb
        cases hcb
      · have h1 := hle r
        have h2 := AtMostOne.owing_replied s hc hp (some .done) r
        simp only [Pending.opened] at h1
        simp only [Server.owing]
        omega
  | @callFail n c hc hp =>
      refine h.of_le h.owned rfl (h.fits_set n fun r hr => by cases hr) fun r => ?_
      have hopen := AtMostOne.owing_replied s hc hp none r
      simp only [Server.owing]
      omega
  | callReply env hc hp => exact h.callReply hc hp hok
  | @callError n c env hc hp hcb =>
      refine h.of_le h.owned rfl (h.fits_set n fun r hr => by cases hr) fun r => ?_
      have hcount := AtMostOne.owing_setCall s hc hp r
      simp only [hcb, true_and] at hcount
      simp only [Server.owing, State.send, answersFor_concat] at hcount ⊢
      omega
  | @callDropped n c env hc hp hcb =>
      refine h.of_le h.owned rfl (h.fits_set n fun r hr => by cases hr) fun r => ?_
      have hcount := AtMostOne.owing_setCall s hc hp r
      simp only [hcb, Bool.false_eq_true, false_and, if_false] at hcount
      exact hcount.ge
  | @sumDb n a c ok hc hp =>
      exact h.of_le h.owned rfl h.fits (setBalance_owing hc (Aggregations.closed_replied hp _))
  | sumError hc hp => exact h.of_le h.owned rfl h.fits (answerBalance_owing hc _ _)
  | @sumWaits n a c x hc hp hb =>
      refine h.of_le h.owned rfl h.fits (setBalance_owing hc ?_)
      rw [Aggregations.closed_eq_reported hp, Aggregations.closed, hb,
        Aggregations.reported_done_some hp]
      exact Bool.or_false _
  | sumComplete hc hp hb => exact h.of_le h.owned rfl h.fits (answerBalance_owing hc _ _)
  | pollTimeout hp ha => exact h.of_le h.owned rfl h.fits (answerPoll_owing hp _)
  | handleDbPollAnswer trgroup hp ha => exact h.of_le h.owned rfl h.fits (answerPoll_owing hp _)
  | bank hi hb =>
      obtain ⟨howned, hle⟩ := h.owned.step hb
      refine h.of_le howned rfl h.fits fun r => ?_
      have h1 := hle r
      simp only [Server.owing]
      omega

end Remembered

/-! ## Runs -/

/-- What is under way that will answer request `r`: calls with a callback, balances, polls
and transactions. -/
def duties (s : State) (r : ReqId) : ℕ :=
  callsFor s.calls r + balancesFor s.balances r + pollsFor s.polls r +
    Pending.savingFor s.bank.intents r + Pending.queuedFor s.bank.pending_transactions r +
      Pending.spawningFor s.bank.writes r

theorem owing_eq (s : State) (r : ReqId) : owing s r = answersTo s r + duties s r := by
  rw [owing, Pending.owing, answersTo, duties]
  omega

/-- As long as no exception escapes, a request that has arrived is answered, or something
is under way that will answer it. -/
theorem no_request_forgotten (run : Run (step E K) (NoEscape E K) (State.init S L) s) {r : ReqId}
    (hr : r < s.received.length) : 0 < answersTo s r ∨ 0 < duties s r := by
  have h : Remembered s :=
    run.invariant (Remembered.init S L) fun _ _ _ ih hok hs => ih.step hok hs
  have hone := h.owing r hr
  rw [owing_eq] at hone
  exact Nat.add_pos_iff_pos_or_pos.mp hone

/-- In a run in which no duty is met twice either, a request is answered exactly once when
nothing is under way for it any more. -/
theorem answered_exactly_once
    (run : Run (step E K) (fun s e => OneAnswer E K s e ∧ NoEscape E K s e) (State.init S L) s)
    {r : ReqId} (hr : r < s.received.length) : answersTo s r + duties s r = 1 := by
  have hmost : AtMostOne s := run.invariant (AtMostOne.init S L)
    fun _ _ _ ih hok hs => ih.step hok.1 hs
  have hleast : Remembered s := run.invariant (Remembered.init S L)
    fun _ _ _ ih hok hs => ih.step hok.2 hs
  have hle := hmost.owing r
  rw [if_pos hr] at hle
  rw [← owing_eq]
  exact Nat.le_antisymm hle (hleast.owing r hr)

section Sample

/-- A citizen asks for the balance twice.  The sums of the second request are under way. -/
def askingEvents : List Event :=
  balanceEvents true ++
    [.request 1 .start "get_balance" (bodyOf "query"), .callDb 1 (.student (some (someStudent 1))),
      .callReply 1 .start, .sumDb 1 .income true]

theorem no_request_forgotten_asking : ∃ s, Run (step Ext.simple balanceKeys)
    (NoEscape Ext.simple balanceKeys) (State.init [someStudent 1] []) s ∧
      answersTo s 1 = 0 ∧ 0 < duties s 1 := by
  have hexec : (exec (step Ext.simple balanceKeys) (NoEscape Ext.simple balanceKeys)
      (State.init [someStudent 1] []) askingEvents).map
        (fun s => (answersTo s 1, s.received.length)) = some (0, 2) := by decide +kernel
  obtain ⟨s, run, h⟩ := exists_run_of_exec askingEvents hexec
  have hzero : answersTo s 1 = 0 := congrArg Prod.fst h
  have hlength : s.received.length = 2 := congrArg Prod.snd h
  refine ⟨s, run, hzero, ?_⟩
  rcases no_request_forgotten run (hlength ▸ Nat.one_lt_two) with hpos | hpos
  · exact absurd hzero hpos.ne'
  · exact hpos

theorem answered_exactly_once_balance : ∃ s, Run (step Ext.simple balanceKeys)
    (fun s e => OneAnswer Ext.simple balanceKeys s e ∧ NoEscape Ext.simple balanceKeys s e)
      (State.init [someStudent 1] []) s ∧ duties s 0 = 0 ∧ answersTo s 0 + duties s 0 = 1 := by
  have hexec : (exec (step Ext.simple balanceKeys)
      (fun s e => Settled s e ∧ NoEscape Ext.simple balanceKeys s e)
      (State.init [someStudent 1] []) (balanceEvents true)).map
        (fun s => (duties s 0, s.received.length)) = some (0, 1) := by decide +kernel
  obtain ⟨s, run, h⟩ := exists_run_of_exec_forall (answered_balanceEvents true) hexec
  have hlength : s.received.length = 1 := congrArg Prod.snd h
  have run' : Run (step Ext.simple balanceKeys)
      (fun s e => OneAnswer Ext.simple balanceKeys s e ∧ NoEscape Ext.simple balanceKeys s e)
      (State.init [someStudent 1] []) s := run.mono fun _ _ h => ⟨⟨h.1, h.2.1⟩, h.2.2⟩
  exact ⟨s, run', congrArg Prod.fst h, answered_exactly_once run' (hlength ▸ Nat.one_pos)⟩

end Sample

end SchuleAlsStaat.Server
