import SchuleAlsStaat.Pending.Chains
import SchuleAlsStaat.Server.Model

/-!
# The pending transactions of the server

The server refines the system of pending transactions: what happens to `bank`
in a run of the server is a run of that system.  The actions and callbacks hand
over intents and spawned money, `transaction_delete` removes entries, and the
other steps the system takes by itself.  So what holds of all runs of pending
transactions holds of every run of the server.
-/

namespace SchuleAlsStaat.Server

open Runs (Run)

variable {E : Ext} {K : Keys} {s s' : State} {ok : State → Event → Prop}
  {okBank : Pending.State → Pending.Event → Prop}

section Handed

-- the intents and the spawned money that the server hands over are not restricted
variable (handed : ∀ b e, internal e = false → (∀ k, e ≠ .delete k) → okBank b e)
include handed

theorem bank_perform (w : WorkerId) (now : Time) (s : State) (a : Act) :
    Run Pending.step okBank s.bank (s.perform w now a).bank := by
  cases a with
  | intent client sender entry =>
      exact .tail .refl (handed _ (.intent w now sender entry client) rfl (by simp)) rfl
  | spawn client entry => exact .tail .refl (handed _ (.spawn entry client) rfl (by simp)) rfl
  | _ => exact .refl

theorem bank_performAll (w : WorkerId) (now : Time) (acts : List Act) (s : State) :
    Run Pending.step okBank s.bank (s.performAll w now acts).bank := by
  induction acts generalizing s with
  | nil => exact .refl
  | cons a acts ih => exact (bank_perform handed w now s a).trans (ih (s.perform w now a))

/-- A step of the server is a run of the pending transactions. -/
theorem bank_step {e : Event} (hok : ∀ b, e = .bank b → okBank s.bank b)
    (hdelete : ∀ n k, e = .removeDb n k → okBank s.bank (.delete k))
    (hs : step E K s e = some s') : Run Pending.step okBank s.bank s'.bank := by
  cases step_cases hs with
  | request w env name post =>
      exact bank_performAll handed w env.now _
        { s with received := s.received ++ [⟨name, post⟩] }
  | removeDb hc hp hq hb => exact .tail .refl (hdelete _ _ rfl) hb
  | @callReply n c r env hc hp =>
      exact bank_performAll handed c.worker env.now _
        { s with calls := s.calls.set n { c with phase := .done (some r) } }
  | bank hi hb => exact .tail .refl (hok _ rfl) hb
  | _ => exact .refl

/-- A run of the server is a run of the pending transactions. -/
theorem bank_of_run (run : Run (step E K) ok s s') (hok : ∀ s b, ok s (.bank b) → okBank s.bank b)
    (hdelete : ∀ s n k, ok s (.removeDb n k) → okBank s.bank (.delete k)) :
    Run Pending.step okBank s.bank s'.bank := by
  have next : ∀ t e u b, t.bank = b → ok t e → step E K t e = some u →
      ∃ c, Run Pending.step okBank b c ∧ u.bank = c := by
    rintro t e u b rfl hok' hs
    exact ⟨u.bank, bank_step handed (fun b he => hok t b (he ▸ hok'))
      (fun n k he => hdelete t n k (he ▸ hok')) hs, rfl⟩
  obtain ⟨b, hrun, rfl⟩ := run.simulate (R := fun s b => s.bank = b) rfl next
  exact hrun

end Handed

/-- The server refines the system of pending transactions. -/
theorem bank_run {S : Students} {L : Ledger} (handed : ∀ b e, internal e = false → okBank b e)
    (run : Run (step E K) ok (State.init S L) s) (hok : ∀ s b, ok s (.bank b) → okBank s.bank b) :
    Run Pending.step okBank (Pending.State.init L) s.bank :=
  bank_of_run (fun b e h _ => handed b e h) run hok fun s _ k _ => handed s.bank (.delete k) rfl

/-- A step of the server leaves the ledger as it is, appends the entry that is
written or removes one. -/
theorem ledger_step {e : Event} (hs : step E K s e = some s') :
    s'.bank.transactions = s.bank.transactions ∨
      (∃ m c b, e = .bank (.writeDb m true) ∧ s.bank.writes[m]? = some c ∧
        c.entry.cast = some b ∧ s'.bank.transactions = s.bank.transactions ++ [b]) ∨
      ∃ n k, e = .removeDb n k ∧ s'.bank.transactions = s.bank.transactions.eraseIdx k := by
  cases step_cases hs with
  | request w env name post => exact .inl (State.performAll_transactions w env.now _ _)
  | @removeDb n k c id bank hc hp hq hb =>
      rcases Pending.transactions_step hb with h | ⟨m, c, b, he, -⟩ | ⟨m, he, h⟩
      · exact .inl h
      · cases he
      · cases he
        exact .inr (.inr ⟨n, k, rfl, h⟩)
  | @callReply n c r env hc hp => exact .inl (State.performAll_transactions c.worker env.now _ _)
  | bank hi hb =>
      rcases Pending.transactions_step hb with h | ⟨m, c, b, rfl, hc, hcast, h⟩ | ⟨m, rfl, -⟩
      · exact .inl h
      · exact .inr (.inl ⟨m, c, b, rfl, hc, hcast, h⟩)
      · cases hi
  | _ => exact .inl rfl

/-- The server writes no intent twice, if no permission arrives for an element
that has a chain. -/
theorem written_le_one {S : Students} {L : Ledger}
    (run : Run (step E K) (fun s e => ∀ b, e = .bank b → Pending.NoOverlap s.bank b)
      (State.init S L) s) (t : ObjectId) : Pending.written s.bank.writes t ≤ 1 := by
  have handed : ∀ b e, internal e = false → Pending.NoOverlap b e := by
    intro b e h
    cases e <;> trivial
  have chains := Pending.Chains.of_run (bank_run handed run fun s b h => h b rfl)
  exact chains.written_le_one t

end SchuleAlsStaat.Server
