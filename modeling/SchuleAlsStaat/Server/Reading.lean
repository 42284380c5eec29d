import SchuleAlsStaat.Ledger.Reading
import SchuleAlsStaat.Server.Bank

/-!
# Balances that the server reads

The calls of `getBalance` that the server issues for its clients take the steps
of `Reading`, with the entries that pending transactions write in between.  So
a balance that is answered is one that the account had meanwhile, as long as
those entries are coherent with the reads: `ReadsCoherent`.
-/

namespace SchuleAlsStaat.Server

open Runs (Run)

variable {E : Ext} {K : Keys} {s s' : State} {n : ℕ}

/-- No entry is removed, and one that is written is coherent with what the
`n`-th call has read. -/
def ReadsCoherent (n : ℕ) (s : State) : Event → Prop
  | .bank (.writeDb m true) => ∀ c ∈ s.balances[n]?, ∀ k ∈ s.bank.writes[m]?, ∀ b ∈ k.entry.cast,
      Reading.Coherent c.id ⟨s.bank.transactions, c.sums, none⟩ (.write b)
  | .removeDb _ _ => False
  | _ => True

/-- A call of the server with the ledger, as `Reading` sees them. -/
structure Reads (n : ℕ) (id : ObjectId) (s : State) (r : Reading.State) : Prop where
  transactions : r.transactions = s.bank.transactions
  call : ∃ client, s.balances[n]? = some ⟨client, id, r.sums⟩
  passed : ∀ v, r.sums.aggregationComplete = some v → ∃ L', r.passed = some (v, L')

namespace Reads

variable {id : ObjectId} {r : Reading.State}

/-- A step that touches neither the ledger nor the call. -/
theorem stutter (h : Reads n id s r) (ht : s'.bank.transactions = s.bank.transactions)
    (hb : s'.balances[n]? = s.balances[n]?) : Reads n id s' r :=
  ⟨h.transactions.trans ht.symm, hb ▸ h.call, h.passed⟩

/-- New calls come after the `n`-th one. -/
theorem performAll (h : Reads n id s r) (w : WorkerId) (now : Time) (acts : List Act) :
    Reads n id (s.performAll w now acts) r := by
  refine h.stutter (State.performAll_transactions w now s acts) ?_
  obtain ⟨client, hc⟩ := h.call
  rw [State.performAll_balances, Calls.getElem?_append_of_some hc, hc]

/-- The callback of a sum is a step of the call it belongs to. -/
theorem sumReply (h : Reads n id s r) {m : ℕ} {a : Aggregation} {c : GetBalance} {v : Option ℚ}
    (hc : s.balances[m]? = some c) (hp : c.sums.get a = .replied v)
    (ht : s'.bank.transactions = s.bank.transactions)
    (hb : s'.balances = s.balances.set m { c with sums := c.sums.set (.done v) a }) :
    ∃ r', Run (Reading.step id) (Reading.Coherent id) r r' ∧ Reads n id s' r' := by
  obtain ⟨client, hn⟩ := h.call
  by_cases hm : m = n
  · subst hm
    cases hc.symm.trans hn
    refine ⟨_, .tail (e := .sumReply a) .refl trivial (by simp only [Reading.step, hp]; rfl), ?_⟩
    refine ⟨h.transactions.trans ht.symm, ⟨client, ?_⟩, fun x hx => ?_⟩
    · rw [hb, List.getElem?_set_self (List.getElem?_eq_some_iff.mp hn).1]
    · -- the callback that stores the last sum passes the balance on
      dsimp only at hx ⊢
      cases v with
      | none =>
          have hsound := Aggregations.sound_of_aggregationComplete hx
          rw [Aggregations.sound_done hp] at hsound
          cases a <;> simp only [Aggregations.get] at hp <;>
            simp [Aggregations.sound, hp] at hsound
      | some q =>
          rw [hx]
          exact ⟨_, rfl⟩
  · refine ⟨r, .refl, h.stutter ht ?_⟩
    rw [hb, List.getElem?_set_ne hm]

/-- A step of the server is at most one step of the call. -/
theorem step (h : Reads n id s r) {e : Event} (hok : ReadsCoherent n s e)
    (hs : Server.step E K s e = some s') :
    ∃ r', Run (Reading.step id) (Reading.Coherent id) r r' ∧ Reads n id s' r' := by
  cases step_cases hs with
  | request w env name post =>
      refine ⟨r, .refl, Reads.performAll ?_ w env.now _⟩
      exact h.stutter rfl rfl
  | removeDb => exact hok.elim
  | @callReply m c reply env hc hp =>
      have hset : Reads n id
          { s with calls := s.calls.set m { c with phase := .done (some reply) } } r :=
        h.stutter rfl rfl
      exact ⟨r, .refl, hset.performAll c.worker env.now _⟩
  | @sumDb m a c ok hc hp =>
      obtain ⟨client, hn⟩ := h.call
      by_cases hm : m = n
      · subst hm
        cases hc.symm.trans hn
        refine ⟨_, .tail (e := .sumDb a ok) .refl trivial (by simp only [Reading.step, hp]; rfl), ?_⟩
        refine ⟨h.transactions, ⟨client, ?_⟩, fun v hv => ?_⟩
        · rw [List.getElem?_set_self (List.getElem?_eq_some_iff.mp hn).1, h.transactions]
        · rw [Aggregations.aggregationComplete_eq_none (a := a) (by simp [Aggregations.get_set])] at hv
          cases hv
      · exact ⟨r, .refl, h.stutter rfl (List.getElem?_set_ne hm)⟩
  | sumError hc hp => exact h.sumReply hc hp rfl rfl
  | sumWaits hc hp hb => exact h.sumReply hc hp rfl rfl
  | sumComplete hc hp hb => exact h.sumReply hc hp rfl rfl
  | bank hi hb =>
      rcases ledger_step hs with ht | ⟨m, k, b, he, hk, hcast, ht⟩ | ⟨m, k, he, -⟩
      · exact ⟨r, .refl, h.stutter ht rfl⟩
      · cases he
        obtain ⟨client, hn⟩ := h.call
        have hcoherent := hok _ hn k hk b hcast
        rw [← h.transactions] at hcoherent
        refine ⟨_, .tail (e := .write b) .refl hcoherent rfl, ?_⟩
        refine ⟨?_, ⟨client, hn⟩, h.passed⟩
        rw [ht, h.transactions]
      · cases he
  | _ => exact ⟨r, .refl, h.stutter rfl rfl⟩

end Reads

/-- A `getBalance` of the server that has been issued follows `Reading`. -/
theorem reads_of_run {s₀ : State} {client : Client} {id : ObjectId}
    (start : s₀.balances[n]? = some ⟨client, id, .start⟩)
    (run : Run (step E K) (ReadsCoherent n) s₀ s) :
    ∃ r, Run (Reading.step id) (Reading.Coherent id) (.init s₀.bank.transactions) r ∧
      Reads n id s r := by
  have init : Reads n id s₀ (.init s₀.bank.transactions) :=
    ⟨rfl, ⟨client, start⟩, fun v hv => by cases hv⟩
  refine run.simulate init fun t e u r rel hok hs => ?_
  exact rel.step hok hs

/-- The balance that a call of the server sums up is one that the account had
since the call was issued. -/
theorem sums_a_balance {s₀ : State} {client : Client} {id : ObjectId} {c : GetBalance} {v : ℚ}
    (start : s₀.balances[n]? = some ⟨client, id, .start⟩)
    (run : Run (step E K) (ReadsCoherent n) s₀ s) (hc : s.balances[n]? = some c)
    (hv : c.sums.aggregationComplete = some v) :
    ∃ k, s₀.bank.transactions.length ≤ k ∧ k ≤ s.bank.transactions.length ∧
      v = Ledger.balance (s.bank.transactions.take k) id := by
  obtain ⟨r, hrun, reads⟩ := reads_of_run start run
  obtain ⟨client', hn⟩ := reads.call
  cases hc.symm.trans hn
  obtain ⟨L', hp⟩ := reads.passed v hv
  obtain ⟨k, hk, hk', hbal⟩ := (Reading.consistent_of_run hrun).passed v L' hp
  have hprefix : L' <+: s.bank.transactions := reads.transactions ▸ Reading.passed_prefix hrun v L' hp
  obtain ⟨rest, hrest⟩ := hprefix
  refine ⟨k, hk, ?_, ?_⟩
  · rw [← hrest, List.length_append]
    omega
  · rw [← hrest, List.take_append_of_le_length hk']
    exact hbal

end SchuleAlsStaat.Server
