import SchuleAlsStaat.Pending.Entries
import SchuleAlsStaat.Server.Model

/-!
# Tracing entries to requests

Every query, intent and write of spawned money belongs to the request it was
issued for.  If the acts of a request have a property, and its callbacks hand
the property on, then all that is under way for the request has it: `Traced`.
-/

namespace SchuleAlsStaat.Server

open Calls (Phase forall_mem_set forall_mem_concat mem_of_getElem?)

variable {E : Ext} {K : Keys} {B B' : Received → Act → Prop} {L : Ledger} {s s' : State}

/-- The act is for a request that has arrived, and has `B` with it. -/
def From (B : Received → Act → Prop) (received : List Received) (client : Client) (a : Act) : Prop :=
  ∃ q, received[client.req]? = some q ∧ B q a

theorem From.concat {received : List Received} {client : Client} {a : Act}
    (h : From B received client a) (q : Received) : From B (received ++ [q]) client a := by
  obtain ⟨q', hq, hb⟩ := h
  exact ⟨q', Calls.getElem?_append_of_some hq [q], hb⟩

theorem From.mono (hB : ∀ q a, B q a → B' q a) {received : List Received} {client : Client}
    {a : Act} (h : From B received client a) : From B' received client a :=
  h.imp fun q hq => ⟨hq.1, hB q a hq.2⟩

/-- What is under way has `B` with its request. -/
structure Traced (B : Received → Act → Prop) (L : Ledger) (s : State) : Prop where
  calls : ∀ c ∈ s.calls, From B s.received c.client (.query c.client c.query)
  bank : Pending.Carries
    (fun client sender e => From B s.received client (.intent client sender e))
    (fun client e => From B s.received client (.spawn client e)) L s.bank

namespace Traced

theorem init (S : Students) (L : Ledger) : Traced B L (State.init S L) :=
  ⟨by simp [State.init], .init L⟩

theorem mono (hB : ∀ q a, B q a → B' q a) (h : Traced B L s) : Traced B' L s where
  calls c hc := (h.calls c hc).mono hB
  bank := h.bank.mono (fun _ _ _ hb => hb.mono hB) fun _ _ hb => hb.mono hB

theorem concat (h : Traced B L s) (q : Received) :
    Traced B L { s with received := s.received ++ [q] } where
  calls c hc := (h.calls c hc).concat q
  bank := h.bank.mono (fun _ _ _ hb => hb.concat q) fun _ _ hb => hb.concat q

theorem perform (h : Traced B L s) {q : Received} {r : ReqId} {a : Act} (hq : s.received[r]? = some q)
    (hfor : a.For r) (ha : B q a) (w : WorkerId) (now : Time) :
    Traced B L (s.perform w now a) := by
  cases a with
  | query client query =>
      cases hfor
      exact ⟨forall_mem_concat h.calls ⟨q, hq, ha⟩, h.bank⟩
  | intent client sender entry =>
      cases hfor
      exact ⟨h.calls, h.bank.intent ⟨q, hq, ha⟩ w now⟩
  | spawn client entry =>
      cases hfor
      exact ⟨h.calls, h.bank.spawn ⟨q, hq, ha⟩⟩
  | invoke | answer | getBalance | poll => exact ⟨h.calls, h.bank⟩

theorem performAll (h : Traced B L s) {q : Received} {r : ReqId} (hq : s.received[r]? = some q)
    {acts : List Act} (hacts : ∀ a ∈ acts, a.For r ∧ B q a) (w : WorkerId) (now : Time) :
    Traced B L (s.performAll w now acts) := by
  induction acts generalizing s with
  | nil => exact h
  | cons a acts ih =>
      obtain ⟨hfor, ha⟩ := hacts a (List.mem_cons_self ..)
      refine ih (h.perform hq hfor ha w now) ?_ fun b hb => hacts b (List.mem_cons_of_mem _ hb)
      exact (congrArg (·[r]?) (State.performAll_frame w now [a] s).1).trans hq

/-- The calls change their phases only. -/
theorem setCall (h : Traced B L s) {n : ℕ} {c : Call} (hc : s.calls[n]? = some c)
    (p : Phase (Option Reply)) :
    Traced B L { s with calls := s.calls.set n { c with phase := p } } :=
  ⟨forall_mem_set n h.calls (h.calls c (mem_of_getElem? hc)), h.bank⟩

theorem handsOver_of_internal {P : Client → ObjectId → Draft → Prop}
    {Q : Client → Draft → Prop} {e : Pending.Event} (h : internal e = true) : Pending.HandsOver P Q e := by
  cases e <;> trivial

/-- A property that requests start with and callbacks hand on is preserved. -/
theorem step (h : Traced B L s) {e : Event}
    (request : ∀ w env name post, e = .request w env name post →
      ∀ a ∈ (prepare_action E K env ⟨s.received.length, none⟩ name post).acts, B ⟨name, post⟩ a)
    (reply : ∀ n env c r q, e = .callReply n env → s.calls[n]? = some c →
      c.phase = .replied (some r) → s.received[c.client.req]? = some q →
      B q (.query c.client c.query) → ∀ a ∈ (onReply E env c.client c.query r).acts, B q a)
    (hs : Server.step E K s e = some s') : Traced B L s' := by
  cases step_cases hs with
  | request w env name post =>
      refine (h.concat ⟨name, post⟩).performAll (q := ⟨name, post⟩) (r := s.received.length) ?_
        (fun a ha => ⟨for_prepare_action ha, request _ _ _ _ rfl a ha⟩) w env.now
      simp
  | @callDb n r c S m hc hp hx =>
      have hset := h.setCall hc (.replied (some r))
      exact ⟨hset.calls, hset.bank⟩
  | @removeDb n k c id bank hc hp hq hb =>
      exact ⟨(h.setCall hc (.replied (some .done))).calls,
        h.bank.step (e := .delete k) trivial hb⟩
  | callFail hc hp => exact h.setCall hc _
  | @callReply n c r env hc hp =>
      obtain ⟨q, hq, hb⟩ := h.calls c (mem_of_getElem? hc)
      have hacts : ∀ a ∈ (onReply E env c.client c.query r).acts, a.For c.client.req ∧ B q a := by
        intro a ha
        exact ⟨(serves_onReply E env c.client c.query r).acts a ha,
          reply n env c r q rfl hc hp hq hb a ha⟩
      exact (h.setCall hc (.done (some r))).performAll hq hacts c.worker env.now
  | callError env hc hp hcb =>
      have hset := h.setCall hc (.done none)
      exact ⟨hset.calls, hset.bank⟩
  | callDropped env hc hp hcb => exact h.setCall hc _
  | bank hi hb => exact ⟨h.calls, h.bank.step (handsOver_of_internal hi) hb⟩
  | _ => exact ⟨h.calls, h.bank⟩

end Traced

end SchuleAlsStaat.Server
