import SchuleAlsStaat.Actions.Origins
import SchuleAlsStaat.Server.Bank
import SchuleAlsStaat.Server.Sender

/-!
# The money check

`onWritePermission` compares the balance of the sender with the amount and writes
the entry later.  The balance is three sums that are read at different times, and
other entries are appended before, between and after.  As long as none of them is
sent by the same account, none is deleted and none debits a recipient, the sums that
were read bound the balance from below until the entry is appended.
-/

namespace SchuleAlsStaat.Pending

open Calls (mem_of_getElem?)
open Js (Number)
open Ledger (Credits)
open Runs (Run)

/-- Nothing is deleted, and what is appended credits its recipients and is sent by
another account. -/
def Quiet (id : ObjectId) (s : State) : Event → Prop
  | .writeDb n true => ∀ c ∈ s.writes[n]?, ∀ b ∈ c.entry.cast,
      Credits b ∧ b.sender.reference ≠ some id
  | .delete _ => False
  | _ => True

variable {s s' : State} {id : ObjectId}

theorem quiet_step {e : Event} (hquiet : Quiet id s e) (hs : step s e = some s') :
    s'.transactions = s.transactions ∨ ∃ b, Credits b ∧ b.sender.reference ≠ some id ∧
      s'.transactions = s.transactions ++ [b] := by
  rcases transactions_step hs with hsame | ⟨n, c, b, rfl, hc, hb, happend⟩ | ⟨n, rfl, -⟩
  · exact .inl hsame
  · obtain ⟨hcredits, hother⟩ := hquiet c hc b hb
    exact .inr ⟨b, hcredits, hother, happend⟩
  · exact hquiet.elim

/-! ## Calls stay in their lists -/

/-- The sums of a chain change, and those of the others stay. -/
theorem getElem?_setSums {l : List BalanceCall} {n k : ℕ} {c d : BalanceCall} (hc : l[n]? = some c)
    (hd : l[k]? = some d) (sums : Aggregations) :
    (l.set k { d with sums := sums })[n]? = some c ∨
      (c = d ∧ (l.set k { d with sums := sums })[n]? = some { c with sums := sums }) := by
  by_cases hk : k = n
  · subst hk
    cases hc.symm.trans hd
    exact .inr ⟨rfl, List.getElem?_set_self (List.getElem?_eq_some_iff.mp hc).1⟩
  · exact .inl (by rw [List.getElem?_set_ne hk, hc])

/-- A step keeps a chain, and its sums stay bounds of the balance. -/
theorem bounds_step {e : Event} {n : ℕ} {c : BalanceCall} (hc : s.balances[n]? = some c)
    (hbounds : c.sums.Bounds s.transactions c.pe.sender) (hquiet : Quiet c.pe.sender s e)
    (hs : step s e = some s') : ∃ sums, s'.balances[n]? = some { c with sums := sums } ∧
      sums.Bounds s'.transactions c.pe.sender := by
  have deliver : ∀ {k a d r}, s.balances[k]? = some d → d.sums.get a = .replied r →
      ∃ sums, (s.balances.set k { d with sums := d.sums.set (.done r) a })[n]? =
        some { c with sums := sums } ∧ sums.Bounds s.transactions c.pe.sender := by
    intro k a d r hd hr
    rcases getElem?_setSums hc hd (d.sums.set (.done r) a) with hsame | ⟨rfl, hset⟩
    · exact ⟨c.sums, hsame, hbounds⟩
    · exact ⟨_, hset, hbounds.deliver hr⟩
  cases step_cases hs with
  | permitted =>
      rw [State.onWritePermission]
      split
      · exact ⟨c.sums, hc, hbounds⟩
      · exact ⟨c.sums, Calls.getElem?_append_of_some hc _, hbounds⟩
  | @sumDb k a d ok hd hp =>
      rcases getElem?_setSums hc hd (d.sums.set _ a) with hsame | ⟨rfl, hset⟩
      · exact ⟨c.sums, hsame, hbounds⟩
      · exact ⟨_, hset, hbounds.execute a ok⟩
  | sumError hd hp => exact deliver hd hp
  | sumWaits hd hp hb => exact deliver hd hp
  | sumComplete hd hp hb =>
      rw [State.onBalance]
      split
      · exact deliver hd hp
      · exact deliver hd hp
  | @saved m k b hk hp hb =>
      obtain ⟨hcredits, hother⟩ := hquiet k hk b hb
      exact ⟨c.sums, hc, hbounds.concat hcredits hother⟩
  | written =>
      rw [State.onWritten]
      split <;> exact ⟨c.sums, hc, hbounds⟩
  | delete => exact hquiet.elim
  | _ => exact ⟨c.sums, hc, hbounds⟩

/-- A step keeps a write and its entry. -/
theorem write_step {e : Event} {m : ℕ} {c : WriteCall} (hc : s.writes[m]? = some c)
    (hs : step s e = some s') : ∃ p, s'.writes[m]? = some { c with phase := p } := by
  have same : s.writes[m]? = some { c with phase := c.phase } := hc
  have setPhase : ∀ {k d p}, s.writes[k]? = some d →
      ∃ p', (s.writes.set k { d with phase := p })[m]? = some { c with phase := p' } := by
    intro k d p hd
    by_cases hk : k = m
    · subst hk
      cases hc.symm.trans hd
      exact ⟨p, List.getElem?_set_self (List.getElem?_eq_some_iff.mp hc).1⟩
    · exact ⟨c.phase, by rw [List.getElem?_set_ne hk, hc]⟩
  cases step_cases hs with
  | spawn entry answer => exact ⟨c.phase, Calls.getElem?_append_of_some hc _⟩
  | permitted =>
      rw [State.onWritePermission]
      split <;> exact ⟨c.phase, same⟩
  | sumComplete hd hp hb =>
      rw [State.onBalance]
      split
      · exact ⟨c.phase, same⟩
      · exact ⟨c.phase, Calls.getElem?_append_of_some hc _⟩
  | saved hd hp hb => exact setPhase hd
  | writeFail hd hp => exact setPhase hd
  | written hd hp =>
      rw [State.onWritten]
      split <;> exact setPhase hd
  | writeError hd hp => exact setPhase hd
  | _ => exact ⟨c.phase, same⟩

/-! ## The check and the write -/

/-- The sums that a chain has read bound the balance after a quiet time. -/
theorem bounds_run {s₀ : State} {n : ℕ} {c : BalanceCall} (hc : s₀.balances[n]? = some c)
    (hstart : c.sums = .start) (run : Run step (Quiet c.pe.sender) s₀ s) :
    ∃ sums, s.balances[n]? = some { c with sums := sums } ∧
      sums.Bounds s.transactions c.pe.sender := by
  induction run with
  | refl => exact ⟨c.sums, hc, hstart ▸ Aggregations.bounds_start _ _⟩
  | tail run hok hs ih =>
      obtain ⟨sums, hsums, hbounds⟩ := ih
      exact bounds_step (c := { c with sums := sums }) hsums hbounds hok hs

/-- A check that passes issues the write, and the balance covers the amount. -/
theorem covered_of_check {n : ℕ} {c : BalanceCall} {a : Aggregation} (hc : s.balances[n]? = some c)
    (hbounds : c.sums.Bounds s.transactions c.pe.sender) (hs : step s (.sumReply n a) = some s')
    (hpasses : s'.writes ≠ s.writes) :
    s'.writes = s.writes ++ [⟨some (c.slot, c.trid), c.pe.entry, c.pe.answer, .sent⟩] ∧
      ∀ b, c.pe.entry.cast = some b → b.amount_sent ≤ s'.transactions.balance c.pe.sender := by
  cases step_cases hs with
  | sumError hd hp => exact absurd rfl hpasses
  | sumWaits hd hp hcomplete => exact absurd rfl hpasses
  | @sumComplete _ _ d x bal hd hp hcomplete =>
      cases hc.symm.trans hd
      have hbal := (hbounds.deliver hp).complete_le hcomplete
      rw [State.onBalance] at hpasses ⊢
      split at hpasses
      next => exact absurd rfl hpasses
      next hle =>
        rw [if_neg hle]
        refine ⟨rfl, fun b hb => ?_⟩
        obtain ⟨-, -, -, hsent, -, -⟩ := Entry.cast_eq_some hb
        rw [hsent, Number.fin_sub, Number.fin_lt_fin, decide_eq_true_eq, not_lt] at hle
        exact le_trans (by linarith) hbal

/-- Quiet steps do not take from the balance. -/
theorem le_balance_run {s₀ : State} {x : ℚ} (hx : x ≤ s₀.transactions.balance id)
    (run : Run step (Quiet id) s₀ s) : x ≤ s.transactions.balance id := by
  refine run.invariant (I := fun s => x ≤ s.transactions.balance id) hx fun t e u ih hok hs => ?_
  rcases quiet_step hok hs with hsame | ⟨b, hcredits, hother, happend⟩
  · rw [hsame]
    exact ih
  · rw [happend]
    exact ih.trans (Ledger.balance_le_concat_of_ne hcredits hother)

theorem write_run {s₀ : State} {ok : State → Event → Prop} {m : ℕ} {c : WriteCall}
    (hc : s₀.writes[m]? = some c) (run : Run step ok s₀ s) :
    ∃ p, s.writes[m]? = some { c with phase := p } := by
  induction run with
  | refl => exact ⟨c.phase, hc⟩
  | tail run hok hs ih =>
      obtain ⟨p, hp⟩ := ih
      exact write_step (c := { c with phase := p }) hp hs

/-- The balance of the sender after the entry of a chain is written. -/
theorem nonneg_of_check {s₀ s₁ s₂ s₃ s₄ : State} {n : ℕ} {c : BalanceCall} {a : Aggregation}
    (hc : s₀.balances[n]? = some c) (hstart : c.sums = .start)
    (hsender : c.pe.entry.sender.reference = some c.pe.sender)
    (hcredits : ∀ b ∈ c.pe.entry.cast, Credits b)
    (reading : Run step (Quiet c.pe.sender) s₀ s₁) (hcheck : step s₁ (.sumReply n a) = some s₂)
    (hpasses : s₂.writes ≠ s₁.writes) (writing : Run step (Quiet c.pe.sender) s₂ s₃)
    (hwrite : step s₃ (.writeDb s₁.writes.length true) = some s₄) :
    0 ≤ s₄.transactions.balance c.pe.sender := by
  obtain ⟨sums, hsums, hbounds⟩ := bounds_run hc hstart reading
  obtain ⟨hissued, hcovers⟩ :=
    covered_of_check (c := { c with sums := sums }) hsums hbounds hcheck hpasses
  have hlast : s₂.writes[s₁.writes.length]? =
      some ⟨some (c.slot, c.trid), c.pe.entry, c.pe.answer, .sent⟩ := by
    rw [hissued, List.getElem?_concat_length]
  obtain ⟨p, hp⟩ := write_run hlast writing
  cases step_cases hwrite with
  | @saved _ d b hd _ hb =>
      cases hp.symm.trans hd
      have hreference : b.sender.reference = some c.pe.sender := by
        rw [(Entry.cast_eq_some hb).1, hsender]
      have hcovered := le_balance_run (hcovers b hb) writing
      have hle := Ledger.balance_sub_le_concat (L := s₃.transactions) (hcredits b hb) hreference
      dsimp only at hcovered ⊢
      linarith

end SchuleAlsStaat.Pending

namespace SchuleAlsStaat.Server

open Ledger (Credits)
open Runs (Run AnyRun exec exec_run)

/-! ## The server -/

/-- An intent of any request is for the sender of its entry. -/
def Matches (_ : Received) (a : Act) : Prop := a.Matched

variable {E : Ext} {K : Keys} {S : Students} {L : Ledger} {s s' : State}

theorem matches_step (h : Traced Matches L s) {e : Event} (hs : step E K s e = some s') :
    Traced Matches L s' :=
  h.step (fun _ _ _ _ _ _ ha => (calm_prepare_action ha).matched)
    (fun _ _ _ _ _ _ _ _ _ _ _ ha => matched_onReply ha) hs

/-- A chain sums the balance of the sender of its entry. -/
theorem sender_of_balance (run : AnyRun (step E K) (State.init S L) s) :
    ∀ c ∈ s.bank.balances, c.pe.entry.sender.reference = some c.pe.sender := by
  have h : Traced Matches L s := run.invariant (.init S L) fun _ _ _ ih _ hs => matches_step ih hs
  intro c hc
  obtain ⟨q, -, hmatched⟩ := h.bank.balances c hc
  exact hmatched

/-- Nothing is deleted, and what is appended credits its recipients and is sent by
another account. -/
def Quiet (id : ObjectId) (s : State) : Event → Prop
  | .bank e => Pending.Quiet id s.bank e
  | .removeDb _ _ => False
  | _ => True

theorem bank_of_quiet {id : ObjectId} (run : Run (step E K) (Quiet id) s s') :
    Run Pending.step (Pending.Quiet id) s.bank s'.bank := by
  refine bank_of_run ?_ run (fun s b h => h) fun s n k h => h.elim
  intro b e hinternal hdelete
  cases e with
  | delete k => exact absurd rfl (hdelete k)
  | intent | spawn => trivial
  | _ => cases hinternal

theorem bank_of_step {e : Pending.Event} (hs : step E K s (.bank e) = some s') :
    Pending.step s.bank e = some s'.bank := by
  cases step_cases hs with
  | bank hi hb => exact hb

/-- A chain is granted and has not read a sum.  Then it reads the three sums, the check
passes, and its entry is written, all of it while the rest is quiet.  After that the sender
has not gone below zero. -/
theorem check_covers_write {s₀ s₁ s₂ s₃ s₄ : State} {n : ℕ} {c : Pending.BalanceCall}
    {a : Aggregation} (run : AnyRun (step E K) (State.init S L) s₀)
    (granted : s₀.bank.balances[n]? = some c) (hstart : c.sums = .start)
    (hcredits : ∀ b ∈ c.pe.entry.cast, Credits b)
    (reading : Run (step E K) (Quiet c.pe.sender) s₀ s₁)
    (check : step E K s₁ (.bank (.sumReply n a)) = some s₂)
    (passes : s₂.bank.writes ≠ s₁.bank.writes)
    (writing : Run (step E K) (Quiet c.pe.sender) s₂ s₃)
    (write : step E K s₃ (.bank (.writeDb s₁.bank.writes.length true)) = some s₄) :
    0 ≤ s₄.bank.transactions.balance c.pe.sender :=
  Pending.nonneg_of_check granted hstart
    (sender_of_balance run c (Calls.mem_of_getElem? granted)) hcredits (bank_of_quiet reading)
    (bank_of_step check) passes (bank_of_quiet writing) (bank_of_step write)

section Sample

open Pending (endowment)

instance (b : Booking) : Decidable (Credits b) := inferInstanceAs (Decidable (_ ∧ _))

instance (id : ObjectId) (s : Pending.State) (e : Pending.Event) :
    Decidable (Pending.Quiet id s e) :=
  match e with
  | .writeDb _ true => inferInstanceAs (Decidable (∀ _ ∈ _, ∀ _ ∈ _, _))
  | .delete _ => isFalse False.elim
  | .writeDb _ false | .intent _ _ _ _ _ | .spawn _ _ | .intentDb _ _ | .intentReply _ | .tick _
  | .checkDb _ _ | .checkFail _ | .checkReply _ | .sumDb _ _ _ | .sumReply _ _ | .writeReply _
  | .removeDb _ _ | .expire _ => isTrue trivial

instance (id : ObjectId) (s : State) (e : Event) : Decidable (Quiet id s e) :=
  match e with
  | .bank e => inferInstanceAs (Decidable (Pending.Quiet id s.bank e))
  | .removeDb .. => isFalse False.elim
  | .request .. | .callDb .. | .callFail _ | .callReply .. | .sumDb .. | .sumReply ..
  | .pollTimeout _ | .handleDbPollAnswer .. => isTrue trivial

/-- The queries of a payment and of money that is spawned. -/
def checkKeys : Keys := .simple [
  ("payOwn", "\x7b\"payload\":\x7b\"sender\":\"1\",\"recipient\":\"3\"," ++
    "\"sender_password\":\"pw\",\"amount_received\":10\x7d\x7d"),
  ("spawn", "\x7b\"cert\":\"master_hash.\",\"payload\":\x7b\"recipient\":\"1\",\"amount\":10\x7d\x7d")]

/-- Money is spawned twice, and one of the entries is written between two sums of the
payment. -/
def readingEvents : List Event :=
  .request 1 .start "spawn_money" (bodyOf "spawn") :: lookup 4 (taxAccount 4) ++
    .request 1 .start "spawn_money" (bodyOf "spawn") :: lookup 5 (someStudent 1) ++
    lookup 6 (taxAccount 4) ++ lookup 7 (someStudent 1) ++
    ([.sumDb 0 .income true, .writeDb 0 true, .sumDb 0 .payments true, .sumDb 0 .taxincome true,
      .sumReply 0 .income, .sumReply 0 .payments] : List Pending.Event).map .bank

/-- A payment of the citizen with the money, up to the permission to write it. -/
def grantedState : State :=
  (exec (step Ext.simple checkKeys) (fun _ _ => True) (State.init citizens endowment)
    (paymentEvents.take 14)).get (by decide +kernel)

/-- Two of the three sums have arrived. -/
def readingState : State :=
  (exec (step Ext.simple checkKeys) (Quiet 1) grantedState readingEvents).get (by decide +kernel)

def checkedState : State :=
  (step Ext.simple checkKeys readingState (.bank (.sumReply 0 .taxincome))).get (by decide +kernel)

/-- The other spawned entry is written before the one of the payment. -/
def writingState : State :=
  (exec (step Ext.simple checkKeys) (Quiet 1) checkedState
    [.bank (.writeDb 1 true)]).get (by decide +kernel)

def writtenState : State :=
  (step Ext.simple checkKeys writingState (.bank (.writeDb 2 true))).get (by decide +kernel)

theorem check_covers_write_payment : ∃ c : Pending.BalanceCall,
    grantedState.bank.balances[0]? = some c ∧ c.pe.sender = 1 ∧
      writtenState.bank.transactions.map (·.sender.reference) = [none, none, none, some 1] ∧
      0 ≤ writtenState.bank.transactions.balance c.pe.sender := by
  have hfacts : (grantedState.bank.balances[0]?.map (fun c => (c.pe.sender,
      decide (c.sums = .start ∧ ∀ b ∈ c.pe.entry.cast, Credits b))) = some (1, true)) ∧
      readingState.bank.writes.length = 2 ∧ checkedState.bank.writes.length = 3 ∧
        writtenState.bank.transactions.map (·.sender.reference) = [none, none, none, some 1] := by
    decide +kernel
  obtain ⟨hgranted, hread, hchecked, hwritten⟩ := hfacts
  obtain ⟨c, hc, hcall⟩ := Option.map_eq_some_iff.mp hgranted
  rw [Prod.mk.injEq, decide_eq_true_eq] at hcall
  obtain ⟨hsender, hstart, hcredits⟩ := hcall
  have run : AnyRun (step Ext.simple checkKeys) (State.init citizens endowment) grantedState :=
    exec_run (Option.some_get _).symm
  have reading : Run (step Ext.simple checkKeys) (Quiet c.pe.sender) grantedState readingState := by
    rw [hsender]
    exact exec_run (Option.some_get _).symm
  have check : step Ext.simple checkKeys readingState (.bank (.sumReply 0 .taxincome)) =
      some checkedState := (Option.some_get _).symm
  have passes : checkedState.bank.writes ≠ readingState.bank.writes := by
    intro hsame
    rw [hsame, hread] at hchecked
    cases hchecked
  have writing : Run (step Ext.simple checkKeys) (Quiet c.pe.sender) checkedState writingState := by
    rw [hsender]
    exact exec_run (Option.some_get _).symm
  have write : step Ext.simple checkKeys writingState
      (.bank (.writeDb readingState.bank.writes.length true)) = some writtenState := by
    rw [hread]
    exact (Option.some_get _).symm
  exact ⟨c, hc, hsender, hwritten,
    check_covers_write run hc hstart hcredits reading check passes writing write⟩

end Sample

end SchuleAlsStaat.Server
