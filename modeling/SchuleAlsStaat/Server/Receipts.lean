import SchuleAlsStaat.Actions.Permits
import SchuleAlsStaat.Pending.Receipts
import SchuleAlsStaat.Server.Answers
import SchuleAlsStaat.Server.Grows
import SchuleAlsStaat.Server.Sender
import SchuleAlsStaat.Server.Traced

/-!
# The answers to a transaction

A request that moves money is answered by its action, by one of its lookups or by the
pending transactions.  It hands over one entry at most, and each of its answers is "ok"
exactly if the entry was written.

`Settling` is the invariant.  Its count `issued` is that of lookups, answers and handed
entries of a request.
-/

namespace SchuleAlsStaat

open Js (JsVal)

/-! ## Acts of an action that moves money -/

/-- An act of an action that moves money.  By itself it answers messages other than "ok". -/
def Act.Moves : Act → Prop
  | .answer _ m => m.isMessage = true ∧ m.isText "ok" = false
  | .query _ q => q.moves = true
  | .getBalance _ _ => False
  | .poll _ _ _ => False
  | _ => True

section Moves

variable {E : Ext} {env : Env} {client : Client} {payload : JsVal}

theorem checkAmounts_error {amount_sent amount_received : JsVal} {e : String}
    (h : checkAmounts amount_sent amount_received = .error e) : e ≠ "ok" := by
  rw [checkAmounts] at h
  split at h
  next =>
    cases h
    decide
  next =>
    split at h
    next =>
      cases h
      decide
    next =>
      split at h <;> split at h <;> cases h
      all_goals decide

theorem moves_transaction {sender_qrid recipient_qrid amount_sent amount_received tax
    comment : JsVal} : Does Act.Moves (transaction env client sender_qrid recipient_qrid
      amount_sent amount_received tax comment) := by
  refine .lift_bind fun _ => .lift_bind fun _ => ?_
  split
  next e he => exact .answer _ _ ⟨rfl, decide_eq_false (checkAmounts_error he)⟩
  next => exact .act rfl

theorem moves_transaction_normal {tax : JsVal} :
    Does Act.Moves (transaction_normal env client payload tax) := by
  refine .lift_bind fun args => ?_
  rw [normal]
  refine .lift_bind fun _ => .ite (.answer _ _ ⟨rfl, rfl⟩) ?_
  refine .lift_bind fun _ => .ite (.answer _ _ ⟨rfl, rfl⟩) ?_
  exact .lift_bind fun _ => .ite (.answer _ _ ⟨rfl, rfl⟩) (.act rfl)

theorem moves_onRecipient {t : Transfer} {taxinc : Student} {sender recipient : Party} :
    Does Act.Moves (onRecipient E env client t taxinc sender recipient) := by
  refine .lift_bind fun _ => ?_
  cases sender with
  | magic_account => exact .act trivial
  | account st => exact .act trivial

theorem moves_onSender {t : Transfer} {taxinc : Student} {sender : Party} :
    Does Act.Moves (onSender E env client t taxinc sender) :=
  .ite moves_onRecipient (.act rfl)

theorem moves_money (b : MoneyAction) : Does Act.Moves (b.run env client payload) := by
  cases b with
  | transaction => exact moves_transaction_normal
  | transaction_taxfree => exact moves_transaction_normal
  | spawn_money =>
      exact .lift_bind fun _ => .lift_bind fun _ => .lift_bind fun _ => moves_transaction
  | destroy_money =>
      exact .lift_bind fun _ => .lift_bind fun _ => .lift_bind fun _ => moves_transaction
  | master_transaction =>
      refine .lift_bind fun _ => .lift_bind fun _ => .ite (.answer _ _ ⟨rfl, rfl⟩) ?_
      refine .lift_bind fun _ => .lift_bind fun _ => .lift_bind fun _ => ?_
      exact .lift_bind fun _ => .lift_bind fun _ => moves_transaction

theorem moves_onStudent {cb : StudentCb} (h : cb.moves = true) (st : Option Student) :
    Does Act.Moves (onStudent E env client st cb) := by
  cases cb with
  | transaction_normal args =>
      cases st with
      | none => exact .answer _ _ ⟨rfl, rfl⟩
      | some st => exact .lift_bind fun _ => .ite (.answer _ _ ⟨rfl, rfl⟩) moves_transaction
  | transaction_taxinc t =>
      cases st with
      | none => exact .answer _ _ ⟨rfl, rfl⟩
      | some st => exact .ite moves_onSender (.act rfl)
  | transaction_sender t taxinc =>
      cases st with
      | none => exact .answer _ _ ⟨rfl, rfl⟩
      | some st => exact moves_onSender
  | transaction_recipient t taxinc sender =>
      cases st with
      | none => exact .answer _ _ ⟨rfl, rfl⟩
      | some st => exact moves_onRecipient
  | _ => cases h

theorem moves_onReply {q : Query} (h : q.moves = true) (r : Reply) :
    Does Act.Moves (onReply E env client q r) := by
  intro a ha
  obtain ⟨component, v, cb, st, rfl, rfl, ha⟩ := mem_onReply_moves _ _ _ h ha
  exact moves_onStudent h st a ha

end Moves

/-- The request names an action that moves money. -/
def Received.MovesMoney (q : Server.Received) : Prop :=
  ∃ b, actions q.name = some (.action (.money b))

namespace Server

open Runs (Run exec exists_run_of_exec exists_run_of_exec_forall)
open Calls (Phase forall_mem_set forall_mem_concat mem_of_getElem?)

variable {E : Ext} {K : Keys} {S : Students} {L : Ledger} {s s' : State}

/-- The acts of a request that moves money. -/
def Moving (q : Received) (a : Act) : Prop := Received.MovesMoney q → a.Moves

theorem moving_prepare_action {env : Env} {client : Client} {q : Received} {a : Act}
    (h : a ∈ (prepare_action E K env client q.name q.post).acts) : Moving q a := by
  rintro ⟨b, hb⟩
  rcases mem_prepare_action h with ⟨m, hm, rfl⟩ | ⟨payload, rfl⟩ | ⟨b', payload, ⟨hb', -⟩, h⟩
  · exact ⟨Answer.isMessage_of_isError hm, Answer.isText_ok_of_isError hm⟩
  · trivial
  · cases hb.symm.trans hb'
    exact moves_money b a h

/-! ## Counting by request -/

/-- The lookups of request `r`, its answers and what it has handed over. -/
def issued (s : State) (r : ReqId) : ℕ :=
  callsFor s.calls r + answersFor s.answers r + Pending.handed s.bank r

/-- The acts of a request add at most what they settle. -/
theorem perform_issued {a : Act} {q : ReqId} (h : a.For q) (w : WorkerId) (now : Time) (s : State)
    (r : ReqId) : issued (s.perform w now a) r ≤
      issued s r + if q = r then (if a.settles then 1 else 0) else 0 := by
  cases a with
  | invoke | getBalance | poll => exact Nat.le_add_right _ _
  | answer client m =>
      cases h
      simp only [State.perform, issued, answersFor_concat, Act.settles, if_true]
      omega
  | query client query =>
      cases h
      have hle : (if query.hasCallback = true ∧ client.req = r then 1 else 0) ≤
          if client.req = r then if (Act.query client query).settles then 1 else 0 else 0 := by
        simp only [Act.settles]
        split_ifs <;> simp_all
      simp only [State.perform, issued, callsFor_concat]
      omega
  | intent client sender entry =>
      cases h
      have := Pending.handed_step (s := s.bank) (e := .intent w now sender entry client) rfl r
      simp only [Pending.opened] at this
      simp only [State.perform, issued, Act.settles, if_true]
      omega
  | spawn client entry =>
      cases h
      have := Pending.handed_step (s := s.bank) (e := .spawn entry client) rfl r
      simp only [Pending.opened] at this
      simp only [State.perform, issued, Act.settles, if_true]
      omega

theorem performAll_issued {q : ReqId} (w : WorkerId) (now : Time) {acts : List Act}
    (h : ∀ a ∈ acts, a.For q) (s : State) (r : ReqId) :
    issued (s.performAll w now acts) r ≤ issued s r + if q = r then settled acts else 0 := by
  induction acts generalizing s with
  | nil => exact Nat.le_add_right _ _
  | cons a acts ih =>
      have first := perform_issued (h a (List.mem_cons_self ..)) w now s r
      have rest := ih (fun b hb => h b (List.mem_cons_of_mem _ hb)) (s.perform w now a)
      have hcons : settled (a :: acts) = settled acts + if a.settles then 1 else 0 :=
        List.countP_cons
      calc issued ((s.perform w now a).performAll w now acts) r
          ≤ issued (s.perform w now a) r + (if q = r then settled acts else 0) := rest
        _ ≤ issued s r + (if q = r then (if a.settles then 1 else 0) else 0) +
              (if q = r then settled acts else 0) := Nat.add_le_add_right first _
        _ = issued s r + (if q = r then settled (a :: acts) else 0) := by
            rw [hcons]
            split <;> omega

/-! ## The invariant -/

/-- If the request has arrived, it moves money. -/
def State.mayMove (s : State) (r : ReqId) : Prop := ∀ q ∈ s.received[r]?, Received.MovesMoney q

/-- What is there for a request that moves money is what the acts of such a request lead
to, and there is one thing at most. -/
structure Settling (s : State) : Prop where
  calls : ∀ c ∈ s.calls, From Moving s.received c.client (.query c.client c.query)
  balances : ∀ c ∈ s.balances, From Moving s.received c.client (.getBalance c.client c.id)
  polls : ∀ p ∈ s.polls, From Moving s.received p.client (.poll p.client p.date p.qrid)
  answers : ∀ x ∈ s.answers, From Moving s.received x.1 (.answer x.1 x.2)
  bound : ∀ r, s.mayMove r → issued s r ≤ if r < s.received.length then 1 else 0

namespace Settling

theorem init (S : Students) (L : Ledger) : Settling (State.init S L) where
  calls := by simp [State.init]
  balances := by simp [State.init]
  polls := by simp [State.init]
  answers := by simp [State.init]
  bound _ _ := Nat.zero_le _

/-- A request that moves money has no balance and no poll. -/
theorem ne_of_moving {client : Client} {a : Act} (h : From Moving s.received client a)
    (ha : ¬ a.Moves) {r : ReqId} (hr : s.mayMove r) : client.req ≠ r := by
  rintro rfl
  obtain ⟨q, hq, hmoving⟩ := h
  exact ha (hmoving (hr q hq))

/-- The acts of a request belong to it. -/
theorem performAll (h : Settling s) {q : Received} {r : ReqId} (hq : s.received[r]? = some q)
    {acts : List Act} (hacts : ∀ a ∈ acts, a.For r ∧ Moving q a) (w : WorkerId) (now : Time)
    (hbound : ∀ r', s.mayMove r' → issued s r' + (if r = r' then settled acts else 0) ≤
      if r' < s.received.length then 1 else 0) : Settling (s.performAll w now acts) := by
  obtain ⟨hreceived, -, hcalls⟩ := State.performAll_frame w now acts s
  have of_act : ∀ {client : Client} {a : Act}, a ∈ acts → (a.For r → client.req = r) →
      From Moving s.received client a := fun ha hfor =>
    ⟨q, (hfor (hacts _ ha).1) ▸ hq, (hacts _ ha).2⟩
  refine ⟨?_, ?_, ?_, ?_, fun r' hr' => ?_⟩
  all_goals rw [hreceived]
  · intro c hc
    rcases hcalls c hc with hc | ⟨client, query, ha, rfl⟩
    · exact h.calls c hc
    · exact of_act ha id
  · rw [State.performAll_balances]
    refine Calls.forall_mem_append h.balances fun c hc => ?_
    obtain ⟨a, ha, hsome⟩ := List.mem_filterMap.mp hc
    cases a with
    | getBalance client account =>
        cases hsome
        exact of_act ha id
    | _ => cases hsome
  · rw [State.performAll_polls]
    refine Calls.forall_mem_append h.polls fun p hp => ?_
    obtain ⟨a, ha, hsome⟩ := List.mem_filterMap.mp hp
    cases a with
    | poll client date qrid =>
        cases hsome
        exact of_act ha id
    | _ => cases hsome
  · rw [State.performAll_answers]
    refine Calls.forall_mem_append h.answers fun x hx => ?_
    obtain ⟨a, ha, hsome⟩ := List.mem_filterMap.mp hx
    cases a with
    | answer client m =>
        cases hsome
        exact of_act ha id
    | _ => cases hsome
  · rw [State.mayMove, hreceived] at hr'
    exact (performAll_issued w now (fun a ha => (hacts a ha).1) s r').trans (hbound r' hr')

/-- The requests stay, and the count does not go up. -/
theorem of_le (h : Settling s) (hr : s'.received = s.received)
    (hcalls : ∀ c ∈ s'.calls, From Moving s.received c.client (.query c.client c.query))
    (hbalances : ∀ c ∈ s'.balances, From Moving s.received c.client (.getBalance c.client c.id))
    (hpolls : ∀ p ∈ s'.polls, From Moving s.received p.client (.poll p.client p.date p.qrid))
    (hanswers : ∀ x ∈ s'.answers, From Moving s.received x.1 (.answer x.1 x.2))
    (hle : ∀ r, s.mayMove r → issued s' r ≤ issued s r) : Settling s' where
  calls := hr ▸ hcalls
  balances := hr ▸ hbalances
  polls := hr ▸ hpolls
  answers := hr ▸ hanswers
  bound r hmay := by
    rw [State.mayMove, hr] at hmay
    rw [hr]
    exact (hle r hmay).trans (h.bound r hmay)

/-- The phase of a call changes. -/
theorem calls_set (h : Settling s) {n : ℕ} {c : Call} (hc : s.calls[n]? = some c)
    (p : Phase (Option Reply)) : ∀ k ∈ s.calls.set n { c with phase := p },
      From Moving s.received k.client (.query k.client k.query) :=
  forall_mem_set n h.calls (h.calls c (mem_of_getElem? hc))

/-- When its callback has run, a call does not count any more. -/
theorem callsFor_done {n : ℕ} {c : Call} (hc : s.calls[n]? = some c) {v : Option Reply}
    (hp : c.phase = .replied v) (r : ReqId) :
    callsFor (s.calls.set n { c with phase := .done v }) r +
      (if c.query.hasCallback ∧ c.client.req = r then 1 else 0) = callsFor s.calls r := by
  have := callsFor_set r hc { c with phase := .done v }
  simpa [hp] using this

/-- The lookup of an action that moves money has a callback. -/
theorem hasCallback_of_moves {q : Query} (h : q.moves = true) : q.hasCallback = true := by
  cases q <;> first | rfl | cases h

/-- A balance or a poll is answered, which is none of a request that moves money. -/
theorem send (h : Settling s) {client : Client} {a : Act} (ha : From Moving s.received client a)
    (hmoves : ¬ a.Moves) (m : Answer) : Settling (s.send client m) := by
  refine h.of_le rfl h.calls h.balances h.polls ?_ fun r hr => ?_
  · obtain ⟨q, hq, hmoving⟩ := ha
    exact forall_mem_concat h.answers ⟨q, hq, fun hm => absurd (hmoving hm) hmoves⟩
  · simp only [issued, State.send, answersFor_concat, if_neg (ne_of_moving ha hmoves hr)]
    exact le_rfl

/-- A new request has nothing yet. -/
theorem request (h : Settling s) {w : WorkerId} {env : Env} {name post : String}
    (hok : AnsweredOnce E K env name post) :
    Settling (State.performAll w env.now { s with received := s.received ++ [⟨name, post⟩] }
      (prepare_action E K env ⟨s.received.length, none⟩ name post).acts) := by
  have serves : Serves (Act.For (⟨s.received.length, none⟩ : Client).req)
      (prepare_action E K env ⟨s.received.length, none⟩ name post) := serves_prepare_action hok
  have old : ∀ r, State.mayMove { s with received := s.received ++ [⟨name, post⟩] } r →
      s.mayMove r := fun r hr q hq =>
    hr q (Calls.getElem?_append_of_some hq [⟨name, post⟩])
  have arrived : Settling { s with received := s.received ++ [⟨name, post⟩] } := by
    refine ⟨fun c hc => (h.calls c hc).concat _, fun c hc => (h.balances c hc).concat _,
      fun p hp => (h.polls p hp).concat _, fun x hx => (h.answers x hx).concat _, fun r hr => ?_⟩
    refine (h.bound r (old r hr)).trans ?_
    rw [List.length_append, List.length_singleton, AtMostOne.bound_succ]
    exact Nat.le_add_right _ _
  refine arrived.performAll (q := ⟨name, post⟩) (r := s.received.length) (by simp)
    (fun a ha => ⟨serves.acts a ha, moving_prepare_action (q := ⟨name, post⟩) ha⟩) w env.now
    fun r hr => ?_
  have h1 := h.bound r (old r hr)
  have h2 := serves.once
  have hissued : issued { s with received := s.received ++ [⟨name, post⟩] } r = issued s r := rfl
  rw [hissued, List.length_append, List.length_singleton, AtMostOne.bound_succ]
  refine Nat.add_le_add h1 ?_
  split
  · exact h2
  · exact le_rfl

/-- A callback takes over from its lookup. -/
theorem callReply (h : Settling s) {n : ℕ} {c : Call} {reply : Reply}
    (hc : s.calls[n]? = some c) (hp : c.phase = .replied (some reply)) (env : Env) :
    Settling (State.performAll c.worker env.now { s with
      calls := s.calls.set n { c with phase := .done (some reply) } }
      (onReply E env c.client c.query reply).acts) := by
  have serves := serves_onReply E env c.client c.query reply
  obtain ⟨q, hq, hmoving⟩ := h.calls c (mem_of_getElem? hc)
  have done : Settling { s with
      calls := s.calls.set n { c with phase := .done (some reply) } } := by
    refine h.of_le rfl (h.calls_set hc _) h.balances h.polls h.answers fun r _ => ?_
    have := callsFor_done hc hp r
    simp only [issued]
    omega
  refine done.performAll hq (fun a ha => ⟨serves.acts a ha, fun hm => ?_⟩) c.worker env.now
    fun r hr => ?_
  · exact moves_onReply (hmoving hm) reply a ha
  have h1 := h.bound r hr
  have h2 := callsFor_done hc hp r
  have h3 := serves.once
  simp only [issued] at h1 ⊢
  by_cases hreq : c.client.req = r
  · have hcb : c.query.hasCallback = true :=
      hasCallback_of_moves (hmoving (hr q (hreq ▸ hq)))
    rw [if_pos ⟨hcb, hreq⟩] at h2
    rw [if_pos hreq]
    omega
  · rw [if_neg hreq]
    omega

/-- The pending transactions take a step by themselves. -/
theorem bank (h : Settling s) {e : Pending.Event} {bank : Pending.State}
    (ho : ∀ r, Pending.opened r e = 0) (hb : Pending.step s.bank e = some bank) :
    Settling { s with bank := bank } := by
  refine h.of_le rfl h.calls h.balances h.polls h.answers fun r _ => ?_
  have := Pending.handed_step hb r
  rw [ho, Nat.add_zero] at this
  simp only [issued, this]
  exact le_rfl

/-- The database replies to a call. -/
theorem replied (h : Settling s) {n : ℕ} {c : Call} (hc : s.calls[n]? = some c)
    (hp : c.phase = .sent) (v : Option Reply) (S : Students) (m : ObjectId) :
    Settling { s with
      students := S
      nextStudent := m
      calls := s.calls.set n { c with phase := .replied v } } := by
  refine h.of_le rfl (h.calls_set hc _) h.balances h.polls h.answers fun r _ => ?_
  simp only [issued, AtMostOne.owing_replied s hc hp v r]
  exact le_rfl

/-- The sums of a balance change. -/
theorem setBalance (h : Settling s) {n : ℕ} {c : GetBalance} (hc : s.balances[n]? = some c)
    (sums : Aggregations) :
    Settling { s with balances := s.balances.set n { c with sums := sums } } :=
  h.of_le rfl h.calls (forall_mem_set n h.balances (h.balances c (mem_of_getElem? hc))) h.polls
    h.answers fun _ _ => le_rfl

/-- A poll is taken off. -/
theorem setPoll (h : Settling s) {n : ℕ} {p : Poll} (hp : s.polls[n]? = some p) :
    Settling { s with polls := s.polls.set n { p with active := false } } :=
  h.of_le rfl h.calls h.balances (forall_mem_set n h.polls (h.polls p (mem_of_getElem? hp)))
    h.answers fun _ _ => le_rfl

/-- No step adds to what there is for a request that moves money. -/
theorem step (h : Settling s) {e : Event} (hok : Answered E K e)
    (hs : Server.step E K s e = some s') : Settling s' := by
  cases step_cases hs with
  | request w env name post => exact h.request hok
  | callDb hc hp hx => exact h.replied hc hp _ _ _
  | @removeDb n k c id bank hc hp hq hb =>
      exact (h.replied hc hp (some .done) s.students s.nextStudent).bank (e := .delete k)
        (fun _ => rfl) hb
  | callFail hc hp => exact h.replied hc hp none s.students s.nextStudent
  | callReply env hc hp => exact h.callReply hc hp env
  | @callError n c env hc hp hcb =>
      obtain ⟨q, hq, -⟩ := h.calls c (mem_of_getElem? hc)
      refine h.of_le rfl (h.calls_set hc _) h.balances h.polls ?_ fun r _ => ?_
      · exact forall_mem_concat h.answers ⟨q, hq, fun _ => ⟨rfl, rfl⟩⟩
      · have := callsFor_done hc hp r
        simp only [hcb, true_and] at this
        simp only [issued, State.send, answersFor_concat]
        omega
  | @callDropped n c env hc hp hcb =>
      refine h.of_le rfl (h.calls_set hc _) h.balances h.polls h.answers fun r _ => ?_
      have := callsFor_done hc hp r
      simp only [issued]
      omega
  | sumDb ok hc hp => exact h.setBalance hc _
  | @sumError n a c hc hp =>
      exact (h.setBalance hc _).send (h.balances c (mem_of_getElem? hc)) id _
  | sumWaits hc hp hb => exact h.setBalance hc _
  | @sumComplete n a c x bal hc hp hb =>
      exact (h.setBalance hc _).send (h.balances c (mem_of_getElem? hc)) id _
  | @pollTimeout n p hp ha => exact (h.setPoll hp).send (h.polls p (mem_of_getElem? hp)) id _
  | @handleDbPollAnswer n p trgroup hp ha =>
      exact (h.setPoll hp).send (h.polls p (mem_of_getElem? hp)) id _
  | bank hi hb => exact h.bank (AtMostOne.opened_of_internal hi) hb

end Settling

/-! ## Runs -/

/-- The answers to request `r`. -/
def State.told (s : State) (r : ReqId) : List Answer :=
  (s.answers.filter fun x => x.1.req = r).map Prod.snd ++
    (s.bank.answers.filter fun x => x.client.req = r).map Pending.Sent.answer

theorem mem_told {r : ReqId} {m : Answer} : m ∈ s.told r ↔
    (∃ x ∈ s.answers, x.1.req = r ∧ x.2 = m) ∨
      ∃ x ∈ s.bank.answers, x.client.req = r ∧ x.answer = m := by
  simp only [State.told, List.mem_append, List.mem_map, List.mem_filter, decide_eq_true_eq,
    and_assoc]

/-- Answers are not taken back. -/
theorem told_step {e : Event} (hs : step E K s e = some s') {r : ReqId} {m : Answer}
    (hm : m ∈ s.told r) : m ∈ s'.told r := by
  have answers : ∀ x ∈ s.answers, x ∈ s'.answers := by
    intro x hx
    cases step_cases hs with
    | request | callReply =>
        rw [State.performAll_answers]
        exact List.mem_append_left _ hx
    | callError | sumError | sumComplete | pollTimeout | handleDbPollAnswer =>
        exact List.mem_append_left _ hx
    | _ => exact hx
  have bank : Runs.AnyRun Pending.step s.bank s'.bank :=
    bank_step (fun _ _ _ _ => trivial) (fun _ _ => trivial) (fun _ _ _ => trivial) hs
  rcases mem_told.mp hm with ⟨x, hx, h⟩ | ⟨x, hx, h⟩
  · exact mem_told.mpr (.inl ⟨x, answers x hx, h⟩)
  · exact mem_told.mpr (.inr ⟨x, Pending.mem_answers_of_run bank hx, h⟩)

/-- The chains of the pending transactions do not overlap, and they report errors only
after a refusal. -/
def Ordered (s : State) : Event → Prop
  | .bank e => Pending.Orderly s.bank e
  | _ => True

instance (s : State) (e : Event) : Decidable (Ordered s e) :=
  match e with
  | .bank _ => inferInstanceAs (Decidable (Pending.Orderly _ _))
  | .request .. | .callDb .. | .removeDb .. | .callFail _ | .callReply .. | .sumDb ..
  | .sumReply .. | .pollTimeout _ | .handleDbPollAnswer .. => isTrue trivial

/-- The action of a request runs once, and its pending transaction is in order. -/
def Told (E : Ext) (K : Keys) (s : State) (e : Event) : Prop := Answered E K e ∧ Ordered s e

/-- The answers to a request are messages, and each tells whether the entry was written. -/
theorem Settling.booked (h : Settling s) (receipts : Pending.Receipts s.bank) {r : ReqId}
    {q : Received} (hq : s.received[r]? = some q) (hmoney : Received.MovesMoney q) :
    Pending.booked s.bank r ≤ 1 ∧ ∀ m ∈ s.told r, m.isMessage = true ∧
      Pending.booked s.bank r = if m.isText "ok" then 1 else 0 := by
  have hmay : s.mayMove r := by
    intro q' hmem
    cases hq.symm.trans hmem
    exact hmoney
  have hone : issued s r ≤ 1 := (h.bound r hmay).trans (by split <;> decide)
  rw [issued] at hone
  refine ⟨receipts.booked_le_one (by omega), fun m hm => ?_⟩
  rcases mem_told.mp hm with ⟨x, hx, rfl, rfl⟩ | ⟨x, hx, rfl, rfl⟩
  · -- the action or a lookup has answered, and handed over nothing
    obtain ⟨q', hq', hmoving⟩ := h.answers x hx
    cases hq.symm.trans hq'
    obtain ⟨hmessage, hok⟩ : x.2.isMessage = true ∧ x.2.isText "ok" = false := hmoving hmoney
    have hpos : 0 < answersFor s.answers x.1.req :=
      List.countP_pos_iff.mpr ⟨x, hx, by simp⟩
    rw [hok]
    exact ⟨hmessage, receipts.booked_eq_zero (by omega)⟩
  · exact ⟨receipts.messages x hx, receipts.booked_eq hx (by omega)⟩

/-- The pending transactions of a run under `Told`. -/
theorem receipts_of_run (run : Run (step E K) (Told E K) (State.init S L) s) :
    Pending.Receipts s.bank := by
  have handed : ∀ b e, internal e = false → Pending.Orderly b e := by
    intro b e he
    cases e <;> first | exact ⟨trivial, trivial⟩ | cases he
  exact .of_run (bank_run handed run fun _ _ hok => hok.2)

theorem settling_of_run (run : Run (step E K) (Told E K) (State.init S L) s) : Settling s :=
  run.invariant (.init S L) fun _ _ _ h hok hs => h.step hok.1 hs

/-- In every run under `Told` a request that moves money has at most one entry, and every
answer it gets is "ok" exactly if the entry was written, then and at any later time. -/
theorem answer_tells_booking (run : Run (step E K) (Told E K) (State.init S L) s)
    (run' : Run (step E K) (Told E K) s s') {r : ReqId} {q : Received}
    (hq : s.received[r]? = some q) (hmoney : Received.MovesMoney q) :
    Pending.booked s'.bank r ≤ 1 ∧ ∀ m ∈ s.told r,
      Pending.booked s'.bank r = if m.isText "ok" then 1 else 0 := by
  obtain ⟨hq', told⟩ : s'.received[r]? = some q ∧ ∀ m ∈ s.told r, m ∈ s'.told r :=
    run'.invariant (I := fun t => t.received[r]? = some q ∧ ∀ m ∈ s.told r, m ∈ t.told r)
      ⟨hq, fun _ hm => hm⟩ fun _ _ _ h _ hs =>
        ⟨received_step hs h.1, fun m hm => told_step hs (h.2 m hm)⟩
  have whole := run.trans run'
  obtain ⟨hle, hbooked⟩ := (settling_of_run whole).booked (receipts_of_run whole) hq' hmoney
  exact ⟨hle, fun m hm => (hbooked m (told m hm)).2⟩

section Sample

open Pending (endowment)

/-- A payment that is answered. -/
def toldEvents : List Event := paymentEvents ++ [.bank (.writeReply 0)]

theorem answered_toldEvents : ∀ e ∈ toldEvents, Answered Ext.simple editKeys e := by
  have request : AnsweredOnce Ext.simple editKeys .start "transaction" (bodyOf "payOwn") :=
    .of_action .start (bodyOf "payOwn") rfl (fun fns h => by cases h) fun _ => trivial
  have write : ∀ e ∈ writeIntent, Answered Ext.simple editKeys e := by
    simp only [writeIntent, List.forall_mem_map]
    exact fun _ _ => trivial
  simp only [toldEvents, paymentEvents, lookup, List.forall_mem_append, List.forall_mem_cons,
    Answered, request, true_and]
  exact ⟨⟨by simp, write⟩, by simp⟩

theorem answer_tells_booking_payment : ∃ s, Run (step Ext.simple editKeys)
    (Told Ext.simple editKeys) (State.init citizens endowment) s ∧
      (s.told 0).map (·.isText "ok") = [true] ∧ Pending.booked s.bank 0 ≤ 1 ∧
        ∀ m ∈ s.told 0, Pending.booked s.bank 0 = if m.isText "ok" then 1 else 0 := by
  have hexec : (exec (step Ext.simple editKeys) Ordered (State.init citizens endowment)
      toldEvents).map (fun s => (s.received[0]?, (s.told 0).map (·.isText "ok"))) =
        some (some ⟨"transaction", bodyOf "payOwn"⟩, [true]) := by decide +kernel
  obtain ⟨s, run, h⟩ := exists_run_of_exec_forall answered_toldEvents hexec
  obtain ⟨hreceived, htold⟩ := Prod.mk.inj h
  exact ⟨s, run, htold, answer_tells_booking run .refl hreceived ⟨.transaction, rfl⟩⟩

end Sample

end Server

end SchuleAlsStaat
