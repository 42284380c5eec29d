import SchuleAlsStaat.Server.Answers
import SchuleAlsStaat.Server.Grows
import SchuleAlsStaat.Server.Traced

/-!
# Requests that only ask

A request that looks up students, writes to them and answers leaves the pending
transactions, the balances and the polls alone.  In a run of such requests the state is
`Asking`, and a step is one of a few: a request arrives, or a call to the database goes on.
-/

namespace SchuleAlsStaat

/-- The act answers or asks the database, but not for the removal of a transaction. -/
def Act.Asks : Act → Prop
  | .invoke _ _ => True
  | .answer _ _ => True
  | .query _ q => ∀ id, q ≠ .removeTransaction id
  | _ => False

namespace Server

open Calls (Phase forall_mem_set mem_of_getElem?)

/-! ## The calls of a stretch of code -/

/-- The call that an act of worker `w` issues. -/
def startedCall (w : WorkerId) : Act → Option Call
  | .query client q => some ⟨w, client, q, .sent⟩
  | _ => none

theorem State.performAll_calls (w : WorkerId) (now : Time) (s : State) (acts : List Act) :
    (s.performAll w now acts).calls = s.calls ++ acts.filterMap (startedCall w) :=
  performAll_append w now s acts State.calls (startedCall w) fun s a => by
    cases a <;> simp [perform, startedCall]

theorem startedCall_phase {w : WorkerId} {a : Act} {c : Call} (h : startedCall w a = some c) :
    c.phase = .sent := by
  cases a with
  | query client q =>
      cases h
      rfl
  | _ => cases h

/-- What the calls of a stretch of code add to those with a callback. -/
theorem countP_startedCall (w : WorkerId) {q : ReqId} {acts : List Act} (h : ∀ a ∈ acts, a.For q)
    (r : ReqId) :
    ((acts.filterMap (startedCall w)).countP fun c => c.client.req = r && c.query.hasCallback) ≤
      if q = r then settled acts else 0 := by
  induction acts with
  | nil => exact Nat.zero_le _
  | cons a acts ih =>
      have hrest := ih fun b hb => h b (List.mem_cons_of_mem _ hb)
      have hfor := h a (List.mem_cons_self ..)
      have hsettled : settled (a :: acts) = settled acts + if a.settles then 1 else 0 :=
        List.countP_cons
      rw [hsettled]
      cases a with
      | query client query =>
          cases hfor
          have hstarted : startedCall w (.query client query) =
              some ⟨w, client, query, .sent⟩ := rfl
          rw [List.filterMap_cons_some hstarted, List.countP_cons]
          simp only [Act.settles, Bool.and_eq_true, decide_eq_true_eq]
          split_ifs at hrest ⊢ <;> simp_all; omega
      | _ =>
          exact hrest.trans (by split <;> omega)

/-! ## Runs of requests that only ask -/

/-- Every request is for the action `name`. -/
def Only (name : String) : Event → Prop
  | .request _ _ n _ => n = name
  | _ => True

instance (name : String) : ∀ e, Decidable (Only name e)
  | .request _ _ n _ => inferInstanceAs (Decidable (n = name))
  | .callDb .. | .removeDb .. | .callFail _ | .callReply .. | .sumDb .. | .sumReply ..
  | .pollTimeout _ | .handleDbPollAnswer .. | .bank _ => inferInstanceAs (Decidable True)

section Asking

variable {E : Ext} {K : Keys} {L : Ledger} {s s' : State}

/-- Nothing but calls to the database is under way. -/
structure Asking (L : Ledger) (s : State) : Prop where
  bank : s.bank = .init L
  balances : s.balances = []
  polls : s.polls = []
  calls : ∀ c ∈ s.calls, ∀ id, c.query ≠ .removeTransaction id

/-- The steps of a run that only asks. -/
inductive AskingStep (E : Ext) (K : Keys) (s : State) : Event → State → Prop where
  | stay (e : Event) : AskingStep E K s e s
  | request (w : WorkerId) (env : Env) (name post : String) :
      AskingStep E K s (.request w env name post)
        (({ s with received := s.received ++ [⟨name, post⟩] } : State).performAll w env.now
          (prepare_action E K env ⟨s.received.length, none⟩ name post).acts)
  | callDb {n : ℕ} {r : Reply} {c : Call} {S : Students} {m : ObjectId}
      (hc : s.calls[n]? = some c) (hp : c.phase = .sent)
      (hx : execute E s c.query r = some { s with students := S, nextStudent := m }) :
      AskingStep E K s (.callDb n r) { s with
        students := S
        nextStudent := m
        calls := s.calls.set n { c with phase := .replied (some r) } }
  | callFail {n : ℕ} {c : Call} (hc : s.calls[n]? = some c) (hp : c.phase = .sent) :
      AskingStep E K s (.callFail n)
        { s with calls := s.calls.set n { c with phase := .replied none } }
  | callReply {n : ℕ} {c : Call} {r : Reply} (env : Env) (hc : s.calls[n]? = some c)
      (hp : c.phase = .replied (some r)) :
      AskingStep E K s (.callReply n env)
        (({ s with calls := s.calls.set n { c with phase := .done (some r) } } : State).performAll
          c.worker env.now (onReply E env c.client c.query r).acts)
  | callError {n : ℕ} {c : Call} (env : Env) (hc : s.calls[n]? = some c)
      (hp : c.phase = .replied none) (hcb : c.query.hasCallback = true) :
      AskingStep E K s (.callReply n env)
        (({ s with calls := s.calls.set n { c with phase := .done none } } : State).send c.client
          (.dbError c.query.component))
  | callDropped {n : ℕ} {c : Call} (env : Env) (hc : s.calls[n]? = some c)
      (hp : c.phase = .replied none) (hcb : c.query.hasCallback = false) :
      AskingStep E K s (.callReply n env)
        { s with calls := s.calls.set n { c with phase := .done none } }

/-- Without transactions on their way the bank only ticks. -/
theorem bank_step_init {e : Pending.Event} {bank : Pending.State} (hi : internal e = true)
    (hb : Pending.step (.init L) e = some bank) : bank = .init L := by
  cases Pending.step_cases hb with
  | intent | spawn | delete => cases hi
  | tick w => rfl
  | expire hn => cases hn
  | intentDb _ hc | queued hc | intentError hc | checkDb hc | checkFail hc | permitted hc
  | refused hc | checkError hc | sumDb _ hc | sumError hc | sumWaits hc | sumComplete hc | saved hc
  | writeFail hc | written hc | writeError hc | removeDb _ hc => cases hc

namespace Asking

theorem init (S : Students) (L : Ledger) : Asking L (State.init S L) :=
  ⟨rfl, rfl, rfl, fun _ h => by cases h⟩

theorem step_cases {e : Event} (h : Asking L s) (hs : step E K s e = some s') :
    AskingStep E K s e s' := by
  cases Server.step_cases hs with
  | request w env name post => exact .request w env name post
  | callDb hc hp hx => exact .callDb hc hp hx
  | removeDb hc _ hq => exact absurd hq (h.calls _ (mem_of_getElem? hc) _)
  | callFail hc hp => exact .callFail hc hp
  | callReply env hc hp => exact .callReply env hc hp
  | callError env hc hp hcb => exact .callError env hc hp hcb
  | callDropped env hc hp hcb => exact .callDropped env hc hp hcb
  | sumDb _ hc | sumError hc | sumWaits hc | sumComplete hc =>
      rw [h.balances] at hc
      cases hc
  | pollTimeout hp | handleDbPollAnswer _ hp =>
      rw [h.polls] at hp
      cases hp
  | @bank e bank hi hb =>
      rw [h.bank] at hb
      have hstay : ({ s with bank := bank } : State) = s := by
        rw [bank_step_init hi hb, ← h.bank]
      rw [hstay]
      exact .stay _

theorem performAll (h : Asking L s) {acts : List Act} (hacts : ∀ a ∈ acts, a.Asks) (w : WorkerId)
    (now : Time) : Asking L (s.performAll w now acts) := by
  induction acts generalizing s with
  | nil => exact h
  | cons a acts ih =>
      have ha := hacts a (List.mem_cons_self ..)
      refine ih ?_ fun b hb => hacts b (List.mem_cons_of_mem _ hb)
      cases a with
      | invoke | answer => exact ⟨h.bank, h.balances, h.polls, h.calls⟩
      | query client q =>
          exact ⟨h.bank, h.balances, h.polls, Calls.forall_mem_concat h.calls ha⟩
      | getBalance | intent | spawn | poll => exact ha.elim

theorem setCall (h : Asking L s) {n : ℕ} {c : Call} (hc : s.calls[n]? = some c)
    (p : Phase (Option Reply)) :
    Asking L { s with calls := s.calls.set n { c with phase := p } } :=
  ⟨h.bank, h.balances, h.polls,
    forall_mem_set (P := fun c : Call => ∀ id, c.query ≠ .removeTransaction id) n h.calls
      (h.calls c (mem_of_getElem? hc))⟩

/-- The acts of a step only ask. -/
theorem step {e : Event} (h : Asking L s) (hacts : ∀ a ∈ s.acts E K e, a.Asks)
    (hs : step E K s e = some s') : Asking L s' := by
  cases h.step_cases hs with
  | stay => exact h
  | request w env name post =>
      have hreceived : Asking L { s with received := s.received ++ [⟨name, post⟩] } :=
        ⟨h.bank, h.balances, h.polls, h.calls⟩
      exact hreceived.performAll hacts w env.now
  | callDb hc _ _ | callFail hc _ | callError _ hc _ _ | callDropped _ hc _ _ =>
      have hset := h.setCall hc
      exact ⟨h.bank, h.balances, h.polls, (hset _).calls⟩
  | callReply env hc hp =>
      rw [acts_callReply hc hp] at hacts
      exact (h.setCall hc _).performAll hacts _ env.now

/-- No duty of a run that only asks is met twice. -/
theorem settled (h : Asking L s) (e : Event) : Settled s e := by
  cases e with
  | sumReply n a =>
      intro c hc
      rw [h.balances] at hc
      cases hc
  | bank e =>
      simp only [Settled, h.bank]
      cases e <;> simp [Pending.NoOverlap, Pending.Confirmed, Pending.State.init]
  | _ => trivial

end Asking

end Asking

/-! ## Requests of one action -/

section Handled

variable {E : Ext} {K : Keys} {L : Ledger} {s s' : State} {name : String}
  {B : Received → Act → Prop}

/-- The requests for the action `name` only ask and have one answer, and their callbacks
hand on the property `B`. -/
structure Handled (E : Ext) (K : Keys) (name : String) (B : Received → Act → Prop) : Prop where
  request : ∀ {env client post a}, a ∈ (prepare_action E K env client name post).acts →
    B ⟨name, post⟩ a
  reply : ∀ {env client query r q a}, B q (.query client query) →
    a ∈ (onReply E env client query r).acts → B q a
  asks : ∀ {q a}, B q a → a.Asks
  once : ∀ env post, AnsweredOnce E K env name post

/-- What holds in runs of requests for one action. -/
structure Underway (B : Received → Act → Prop) (L : Ledger) (s : State) : Prop where
  asking : Asking L s
  traced : Traced B L s
  once : AtMostOne s

namespace Underway

theorem init (S : Students) (L : Ledger) : Underway B L (State.init S L) :=
  ⟨.init S L, .init S L, .init S L⟩

theorem step (h : Underway B L s) (hb : Handled E K name B) {e : Event} (hok : Only name e)
    (hs : Server.step E K s e = some s') : Underway B L s' := by
  refine ⟨h.asking.step ?_ hs, h.traced.step ?_ ?_ hs, h.once.step ⟨?_, h.asking.settled e⟩ hs⟩
  · intro a ha
    cases e with
    | request w env name' post =>
        cases hok
        exact hb.asks (hb.request ha)
    | callReply n env =>
        rw [State.acts] at ha
        split at ha
        next w client query r hc =>
          obtain ⟨q, -, hq⟩ := h.traced.calls _ (mem_of_getElem? hc)
          exact hb.asks (hb.reply hq ha)
        next => cases ha
    | _ => cases ha
  · rintro w env name' post rfl a ha
    cases hok
    exact hb.request ha
  · intro n env c r q _ _ _ _ hq a ha
    exact hb.reply hq ha
  · cases e with
    | request w env name' post =>
        cases hok
        exact hb.once env post
    | _ => trivial

/-- A request has at most one answer or duty. -/
theorem owing_le_one (h : Underway B L s) (r : ReqId) : owing s r ≤ 1 := by
  refine (h.once.owing r).trans ?_
  split <;> decide

/-- The call that a callback belongs to is a duty, so its request has no answer yet. -/
theorem answersFor_eq_zero (h : Underway B L s) {c : Call} (hc : c ∈ s.calls)
    (hcb : c.query.hasCallback = true) (hopen : c.phase.open? = true) :
    answersFor s.answers c.client.req = 0 := by
  have howing := h.owing_le_one c.client.req
  have hcalls : 0 < callsFor s.calls c.client.req :=
    List.countP_pos_iff.mpr ⟨c, hc, by simp [hcb, hopen]⟩
  rw [owing] at howing
  omega

end Underway

end Handled

end Server

end SchuleAlsStaat
