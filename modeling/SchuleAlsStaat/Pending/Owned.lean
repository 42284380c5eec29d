import SchuleAlsStaat.Pending.Owing

/-!
# No transaction is forgotten

`owing` is bounded from below as well.  Chains may overlap and errors may be answered
for elements that stay in the queue, but no step drops a duty without an answer.

The reason is that a slot is filled once.  What a chain finds in its slot is the
element that it began with, or nothing: `Owned`.  So an element leaves the queue only
together with an answer to its own client.
-/

namespace SchuleAlsStaat.Pending

open Calls

/-! ## Slots -/

/-- The slot has been filled, and what is left in it answers to the client. -/
def Owns (slots : List Slot) (i : ℕ) (client : Client) : Prop :=
  i < slots.length ∧ ∀ pe, elemAt slots i = some pe → pe.answer = client

namespace Owns

variable {l : List Slot} {i : ℕ} {client : Client}

theorem of_elemAt {pe : Elem} (h : elemAt l i = some pe) : Owns l i pe.answer := by
  obtain ⟨w, hw⟩ := elemAt_eq_some.mp h
  refine ⟨(List.getElem?_eq_some_iff.mp hw).1, fun pe' h' => ?_⟩
  rw [Option.some.inj (h'.symm.trans h)]

/-- A push fills the next slot. -/
theorem concat (h : Owns l i client) (sl : Slot) : Owns (l ++ [sl]) i client := by
  refine ⟨h.1.trans_le (by simp), fun pe hpe => h.2 pe ?_⟩
  rw [elemAt, List.getElem?_append_left h.1] at hpe
  exact hpe

theorem deleteAt (h : Owns l i client) (j : ℕ) : Owns (deleteAt l j) i client := by
  refine ⟨by rw [Pending.deleteAt, List.length_modify]; exact h.1, fun pe hpe => h.2 pe ?_⟩
  rw [elemAt_deleteAt] at hpe
  split at hpe
  · cases hpe
  · exact hpe

/-- With the answer to its client, an element may leave the queue. -/
theorem queuedFor_le (h : Owns l i client) (r : ReqId) :
    queuedFor l r ≤ queuedFor (Pending.deleteAt l i) r + if client.req = r then 1 else 0 := by
  cases he : elemAt l i with
  | some pe =>
      have hdelete := queuedFor_deleteAt r he
      rw [h.2 pe he] at hdelete
      exact hdelete.ge
  | none =>
      have hsame : queuedFor (Pending.deleteAt l i) r = queuedFor l r := by
        have hlt : i < l.length := h.1
        obtain ⟨⟨w, e⟩, hw⟩ : ∃ sl, l[i]? = some sl := ⟨l[i], List.getElem?_eq_getElem hlt⟩
        have hnone : e = none := by simpa [elemAt, hw] using he
        rw [Pending.deleteAt, List.modify_eq_set_getElem?, hw]
        exact Calls.countP_set_eq hw (by rw [hnone])
      rw [hsame]
      exact Nat.le_add_right ..

end Owns

/-! ## The invariant -/

/-- Every chain has a slot of its client. -/
structure Owned (s : State) : Prop where
  balances : ∀ c ∈ s.balances, Owns s.pending_transactions c.slot c.pe.answer
  writes : ∀ c ∈ s.writes, ∀ i t, c.origin = some (i, t) → Owns s.pending_transactions i c.answer

namespace Owned

variable {s s' : State}

theorem init (L : Ledger) : Owned (State.init L) := by
  constructor <;> simp [State.init]

theorem deleteSlot (h : Owned s) (i : ℕ) : Owned (s.deleteSlot i) where
  balances c hc := (h.balances c hc).deleteAt i
  writes c hc i' t ho := (h.writes c hc i' t ho).deleteAt i

theorem setWrite (h : Owned s) {n : ℕ} {c : WriteCall} (hc : s.writes[n]? = some c)
    (p : Phase Bool) : Owned { s with writes := s.writes.set n { c with phase := p } } :=
  ⟨h.balances, forall_mem_set n h.writes (h.writes c (mem_of_getElem? hc))⟩

theorem setSums (h : Owned s) {n : ℕ} {c : BalanceCall} (hc : s.balances[n]? = some c)
    (sums : Aggregations) :
    Owned { s with balances := s.balances.set n { c with sums := sums } } :=
  ⟨forall_mem_set n h.balances (h.balances c (mem_of_getElem? hc)), h.writes⟩

theorem transaction_write (h : Owned s) {origin : Option (ℕ × ObjectId)} {client : Client}
    (ho : ∀ i t, origin = some (i, t) → Owns s.pending_transactions i client) (entry : Draft) :
    Owned (s.transaction_write origin entry client) :=
  ⟨h.balances, forall_mem_concat h.writes ho⟩

/-- The balance decides: the element leaves the queue with an answer, or it is written. -/
theorem onBalance (h : Owned s) {c : BalanceCall}
    (hc : Owns s.pending_transactions c.slot c.pe.answer) (bal : ℚ) :
    Owned (s.onBalance c bal) ∧ ∀ r, owing s r ≤ owing (s.onBalance c bal) r := by
  rw [State.onBalance]
  split
  next =>
    refine ⟨deleteSlot (s := (s.send c.pe.answer c.trid _).writeComplete c.trid) ⟨h.balances,
      h.writes⟩ c.slot, fun r => ?_⟩
    have hle := hc.queuedFor_le r
    simp only [owing, State.deleteSlot, State.writeComplete, State.send, answeredFor_concat]
    omega
  next =>
    refine ⟨h.transaction_write (fun i t ho => ?_) c.pe.entry, fun r => ?_⟩
    · cases ho
      exact hc
    · simp only [owing, State.transaction_write, spawningFor_concat, reduceCtorEq, false_and,
        if_false]
      omega

/-- A written transaction is confirmed. -/
theorem onWritten (h : Owned s) {c : WriteCall}
    (hc : ∀ i t, c.origin = some (i, t) → Owns s.pending_transactions i c.answer) :
    Owned (s.onWritten c) ∧ ∀ r, owing s r +
      (if c.origin = none ∧ c.answer.req = r then 1 else 0) ≤ owing (s.onWritten c) r := by
  obtain ho | ⟨i, t, ho⟩ := c.origin_cases
  · rw [State.onWritten_none ho]
    refine ⟨⟨h.balances, h.writes⟩, fun r => ?_⟩
    simp only [owing, State.send, answeredFor_concat, ho, true_and]
    omega
  · rw [State.onWritten_some ho]
    refine ⟨?_, fun r => ?_⟩
    · exact ⟨(deleteSlot (s := s.send c.answer t .ok) ⟨h.balances, h.writes⟩ i).balances,
        (deleteSlot (s := s.send c.answer t .ok) ⟨h.balances, h.writes⟩ i).writes⟩
    · have hle := (hc i t ho).queuedFor_le r
      simp only [owing, State.deleteSlot, State.writeComplete, State.send, answeredFor_concat, ho,
        reduceCtorEq, false_and, if_false]
      omega

/-- No step lowers the number of duties and answers of a request, and one that takes on
a duty raises it. -/
theorem step (h : Owned s) {e : Event} (hs : Pending.step s e = some s') :
    Owned s' ∧ ∀ r, owing s r + opened r e ≤ owing s' r := by
  cases step_cases hs with
  | intent w now sender entry answer =>
      refine ⟨⟨h.balances, h.writes⟩, fun r => ?_⟩
      simp only [owing, State.intent, savingFor_concat, opened, Phase.open?_sent, and_true]
      omega
  | spawn entry answer =>
      refine ⟨h.transaction_write (fun i t ho => by cases ho) entry, fun r => ?_⟩
      simp only [owing, State.transaction_write, spawningFor_concat, opened, true_and]
      omega
  | @intentDb n c ok hc hp =>
      refine ⟨⟨h.balances, h.writes⟩, fun r => ?_⟩
      have hset := savingFor_set r hc { c with phase := .replied ok }
      simp only [hp, Phase.open?_sent, Phase.open?_replied] at hset
      simp only [owing, opened]
      omega
  | @queued n c hc hp =>
      refine ⟨⟨fun k hk => (h.balances k hk).concat _,
        fun k hk i t ho => (h.writes k hk i t ho).concat _⟩, fun r => ?_⟩
      have hdone := Duty.savingFor_done hc hp r
      simp only [owing, State.transaction_queue, queuedFor_concat, opened]
      omega
  | @intentError n c hc hp =>
      refine ⟨⟨h.balances, h.writes⟩, fun r => ?_⟩
      have hdone := Duty.savingFor_done hc hp r
      simp only [owing, State.send, answeredFor_concat, opened]
      omega
  | @permitted n c hc hp =>
      rw [State.onWritePermission]
      split
      next => exact ⟨⟨h.balances, h.writes⟩, fun r => le_rfl⟩
      next pe he =>
        exact ⟨⟨forall_mem_concat h.balances (.of_elemAt he), h.writes⟩, fun r => le_rfl⟩
  | checkError hc hp =>
      refine ⟨⟨h.balances, h.writes⟩, fun r => ?_⟩
      simp only [owing, State.send, answeredFor_concat, opened]
      omega
  | sumDb ok hc hp => exact ⟨h.setSums hc _, fun r => le_rfl⟩
  | @sumError n a c hc hp =>
      have hset := h.setSums hc (c.sums.set (.done none) a)
      refine ⟨⟨hset.balances, hset.writes⟩, fun r => ?_⟩
      simp only [owing, State.send, answeredFor_concat, opened]
      omega
  | sumWaits hc hp hb => exact ⟨h.setSums hc _, fun r => le_rfl⟩
  | @sumComplete n a c x bal hc hp hb =>
      exact (h.setSums hc (c.sums.set (.done (some x)) a)).onBalance
        (c := { c with sums := c.sums.set (.done (some x)) a })
        (h.balances c (mem_of_getElem? hc)) bal
  | @saved n c b hc hp hb =>
      have hset := h.setWrite hc (.replied true)
      refine ⟨⟨hset.balances, hset.writes⟩, fun r => ?_⟩
      have hcount := spawningFor_set r hc { c with phase := .replied true }
      simp only [hp, Phase.open?_sent, Phase.open?_replied] at hcount
      simp only [owing, opened]
      omega
  | @writeFail n c hc hp =>
      refine ⟨h.setWrite hc _, fun r => ?_⟩
      have hcount := spawningFor_set r hc { c with phase := .replied false }
      simp only [hp, Phase.open?_sent, Phase.open?_replied] at hcount
      simp only [owing, opened]
      omega
  | @written n c hc hp =>
      have hwritten := (h.setWrite hc (.done true)).onWritten (c := c)
        (h.writes c (mem_of_getElem? hc))
      refine ⟨hwritten.1, fun r => le_trans ?_ (hwritten.2 r)⟩
      have hdone := Duty.spawningFor_done hc hp r
      simp only [owing, opened]
      omega
  | @writeError n c hc hp =>
      have hset := h.setWrite hc (.done false)
      refine ⟨⟨hset.balances, hset.writes⟩, fun r => ?_⟩
      have hdone := Duty.spawningFor_done hc hp r
      have hle : (if c.origin = none ∧ c.answer.req = r then 1 else 0) ≤
          if c.answer.req = r then 1 else 0 := by
        split_ifs <;> simp_all
      simp only [owing, State.send, answeredFor_concat, opened]
      omega
  | _ => exact ⟨⟨h.balances, h.writes⟩, fun r => le_rfl⟩

end Owned

end SchuleAlsStaat.Pending
