import SchuleAlsStaat.Pending.Chains

/-!
# Where entries come from

An entry is handed over with an intent or as spawned money, and on its way to
the ledger neither the entry nor its client changes.  So what holds of every
entry when it is handed over holds of it wherever it is: `Carries`.  The ledger
itself is what was there and what was written, without what was removed:
`Composed`.
-/

namespace SchuleAlsStaat.Pending

open Calls Runs

variable {P P' : Client → ObjectId → Draft → Prop} {Q Q' : Client → Draft → Prop} {L : Ledger}
  {s s' : State}

/-- The entries with an intent have `P` with the sender of the intent, those of spawned
money have `Q`, and each entry of the ledger was in `L` or has been written. -/
structure Carries (P : Client → ObjectId → Draft → Prop) (Q : Client → Draft → Prop) (L : Ledger)
    (s : State) : Prop where
  intents : ∀ c ∈ s.intents, P c.answer c.pt.sender c.entry
  elems : ∀ i pe, elemAt s.pending_transactions i = some pe → P pe.answer pe.sender pe.entry
  balances : ∀ c ∈ s.balances, P c.pe.answer c.pe.sender c.pe.entry
  writes : ∀ c ∈ s.writes, c.origin ≠ none → ∃ sender, P c.answer sender c.entry
  spawned : ∀ c ∈ s.writes, c.origin = none → Q c.answer c.entry
  ledger : ∀ b ∈ s.transactions, b ∈ L ∨
    ∃ c ∈ s.writes, c.phase.outcome = some true ∧ c.entry.cast = some b

/-- What is handed over has `P` or `Q`. -/
def HandsOver (P : Client → ObjectId → Draft → Prop) (Q : Client → Draft → Prop) : Event → Prop
  | .intent _ _ sender entry answer => P answer sender entry
  | .spawn entry answer => Q answer entry
  | _ => True

namespace Carries

theorem init (L : Ledger) : Carries P Q L (State.init L) := by
  refine ⟨?_, ?_, ?_, ?_, ?_, fun b hb => .inl hb⟩ <;> simp [State.init, elemAt]

theorem mono (h : Carries P Q L s)
    (hP : ∀ client sender e, P client sender e → P' client sender e)
    (hQ : ∀ client e, Q client e → Q' client e) : Carries P' Q' L s where
  intents c hc := hP _ _ _ (h.intents c hc)
  elems i pe he := hP _ _ _ (h.elems i pe he)
  balances c hc := hP _ _ _ (h.balances c hc)
  writes c hc ho := (h.writes c hc ho).imp fun sender he => hP _ sender _ he
  spawned c hc ho := hQ _ _ (h.spawned c hc ho)
  ledger := h.ledger

/-- An entry that is being written has `P` or `Q`. -/
theorem written (h : Carries P Q L s) {c : WriteCall} (hc : c ∈ s.writes) :
    (∃ sender, P c.answer sender c.entry) ∨ Q c.answer c.entry := by
  by_cases ho : c.origin = none
  · exact .inr (h.spawned c hc ho)
  · exact .inl (h.writes c hc ho)

theorem intent (h : Carries P Q L s) {client : Client} {sender : ObjectId} {e : Draft}
    (he : P client sender e) (w : WorkerId) (now : Time) :
    Carries P Q L (s.intent w now sender e client) :=
  { h with intents := forall_mem_concat h.intents he }

/-- A write that is added keeps what has been written. -/
theorem ledger_concat (h : Carries P Q L s) (w : WriteCall) :
    ∀ b ∈ s.transactions, b ∈ L ∨
      ∃ c ∈ s.writes ++ [w], c.phase.outcome = some true ∧ c.entry.cast = some b := by
  intro b hb
  rcases h.ledger b hb with hL | ⟨c, hc, hcast⟩
  · exact .inl hL
  · exact .inr ⟨c, List.mem_append_left _ hc, hcast⟩

theorem spawn (h : Carries P Q L s) {client : Client} {e : Draft} (he : Q client e) :
    Carries P Q L (s.transaction_write none e client) :=
  { h with
    writes := forall_mem_concat h.writes fun ho => absurd rfl ho
    spawned := forall_mem_concat h.spawned fun _ => he
    ledger := h.ledger_concat _ }

theorem deleteSlot (h : Carries P Q L s) (i : ℕ) : Carries P Q L (s.deleteSlot i) := by
  refine { h with elems := fun j pe he => ?_ }
  rw [State.deleteSlot, elemAt_deleteAt] at he
  split at he
  · cases he
  · exact h.elems j pe he

theorem onWritePermission (h : Carries P Q L s) (i : ℕ) (trid : ObjectId) :
    Carries P Q L (s.onWritePermission i trid) := by
  rw [State.onWritePermission]
  cases he : elemAt s.pending_transactions i with
  | none => exact h
  | some pe => exact { h with balances := forall_mem_concat h.balances (h.elems i pe he) }

theorem onBalance (h : Carries P Q L s) {c : BalanceCall} (hc : P c.pe.answer c.pe.sender c.pe.entry)
    (bal : ℚ) : Carries P Q L (s.onBalance c bal) := by
  rw [State.onBalance]
  split
  next =>
    have hdel := h.deleteSlot c.slot
    exact ⟨h.intents, hdel.elems, h.balances, h.writes, h.spawned, h.ledger⟩
  next =>
    exact { h with
      writes := forall_mem_concat h.writes fun _ => ⟨_, hc⟩
      spawned := forall_mem_concat h.spawned fun ho => by cases ho
      ledger := h.ledger_concat _ }

/-- The sums of a chain change. -/
theorem setSums (h : Carries P Q L s) {n : ℕ} {c : BalanceCall} (hc : s.balances[n]? = some c)
    (sums : Aggregations) :
    Carries P Q L { s with balances := s.balances.set n { c with sums := sums } } :=
  { h with balances := forall_mem_set n h.balances (h.balances c (mem_of_getElem? hc)) }

/-- A write moves to another phase, in which it is still executed if it was. -/
theorem setWrite (h : Carries P Q L s) {n : ℕ} {c : WriteCall} (hc : s.writes[n]? = some c)
    {p : Phase Bool} (hp : c.phase.outcome = some true → p.outcome = some true) :
    Carries P Q L { s with writes := s.writes.set n { c with phase := p } } := by
  have hmem := mem_of_getElem? hc
  refine { h with
    writes := forall_mem_set n h.writes (h.writes c hmem)
    spawned := forall_mem_set n h.spawned (h.spawned c hmem)
    ledger := fun b hb => (h.ledger b hb).imp_right ?_ }
  rintro ⟨k, hk, hout, hcast⟩
  by_cases hkc : k = c
  · subst hkc
    exact ⟨_, mem_set_self _ hc, hp hout, hcast⟩
  · exact ⟨k, mem_set_of_ne _ hc hk hkc, hout, hcast⟩

theorem onWritten (h : Carries P Q L s) (c : WriteCall) : Carries P Q L (s.onWritten c) := by
  rw [State.onWritten]
  split
  next i trid _ =>
    have hdel := h.deleteSlot i
    exact ⟨h.intents, hdel.elems, h.balances, h.writes, h.spawned, h.ledger⟩
  next => exact ⟨h.intents, h.elems, h.balances, h.writes, h.spawned, h.ledger⟩

/-- Every step hands the entries on as they are. -/
theorem step (h : Carries P Q L s) {e : Event} (hok : HandsOver P Q e)
    (hs : Pending.step s e = some s') : Carries P Q L s' := by
  cases step_cases hs with
  | intent w now sender entry answer => exact h.intent hok w now
  | spawn entry answer => exact h.spawn hok
  | @intentDb n c ok hc hp =>
      exact { h with intents := forall_mem_set n h.intents (h.intents c (mem_of_getElem? hc)) }
  | @queued n c hc hp =>
      have hentry := h.intents c (mem_of_getElem? hc)
      refine { h with intents := forall_mem_set n h.intents hentry, elems := fun i pe he => ?_ }
      rcases elemAt_concat he with he | rfl
      · exact h.elems i pe he
      · exact hentry
  | @intentError n c hc hp =>
      exact { h with intents := forall_mem_set n h.intents (h.intents c (mem_of_getElem? hc)) }
  | @permitted n c hc hp =>
      have hset : Carries P Q L
          { s with checks := s.checks.set n { c with phase := .done (some true) } } :=
        ⟨h.intents, h.elems, h.balances, h.writes, h.spawned, h.ledger⟩
      exact hset.onWritePermission c.slot c.trid
  | sumDb ok hc hp => exact h.setSums hc _
  | @sumError n a c hc hp =>
      have hset := h.setSums hc (c.sums.set (.done none) a)
      exact ⟨h.intents, h.elems, hset.balances, h.writes, h.spawned, h.ledger⟩
  | sumWaits hc hp hb => exact h.setSums hc _
  | @sumComplete n a c x bal hc hp hb =>
      exact (h.setSums hc _).onBalance (h.balances c (mem_of_getElem? hc)) bal
  | @saved n c b hc hp hb =>
      have hset := h.setWrite hc (p := .replied true) (by simp)
      refine { hset with ledger := forall_mem_concat hset.ledger ?_ }
      exact .inr ⟨_, mem_set_self _ hc, rfl, hb⟩
  | writeFail hc hp => exact h.setWrite hc (by simp [hp])
  | @written n c hc hp =>
      exact (h.setWrite hc (p := .done true) (by simp [hp])).onWritten c
  | writeError hc hp =>
      have hset := h.setWrite hc (p := .done false) (by simp [hp])
      exact ⟨h.intents, h.elems, h.balances, hset.writes, hset.spawned, hset.ledger⟩
  | delete => exact { h with ledger := fun b hb => h.ledger b (List.mem_of_mem_eraseIdx hb) }
  | _ => exact ⟨h.intents, h.elems, h.balances, h.writes, h.spawned, h.ledger⟩

end Carries

/-! ## What the ledger consists of -/

/-- What the write has put into the ledger. -/
def WriteCall.booking (c : WriteCall) : Option Booking :=
  if c.phase.outcome = some true then c.entry.cast else none

/-- An execution appends its entry, and other steps write none. -/
theorem bookings_step {e : Event} (hs : Pending.step s e = some s') :
    (s'.writes.filterMap WriteCall.booking = s.writes.filterMap WriteCall.booking ∧
        (s'.transactions = s.transactions ∨
          ∃ n, e = .delete n ∧ s'.transactions = s.transactions.eraseIdx n)) ∨
      ∃ b, (s'.writes.filterMap WriteCall.booking).Perm
          (b :: s.writes.filterMap WriteCall.booking) ∧
        s'.transactions = s.transactions ++ [b] := by
  have concat : ∀ w : WriteCall, w.phase = .sent →
      (s.writes ++ [w]).filterMap WriteCall.booking = s.writes.filterMap WriteCall.booking := by
    intro w hw
    have hnone : w.booking = none := by simp [WriteCall.booking, hw]
    simp [List.filterMap_append, hnone]
  have set : ∀ {n : ℕ} {c : WriteCall} (p : Phase Bool), s.writes[n]? = some c →
      (p.outcome = some true ↔ c.phase.outcome = some true) →
        (s.writes.set n { c with phase := p }).filterMap WriteCall.booking =
          s.writes.filterMap WriteCall.booking := by
    intro n c p hc hp
    refine filterMap_set _ hc ?_
    simp only [WriteCall.booking, hp]
  cases step_cases hs with
  | spawn entry answer => exact .inl ⟨concat _ rfl, .inl rfl⟩
  | permitted =>
      refine .inl ?_
      rw [State.onWritePermission]
      split <;> exact ⟨rfl, .inl rfl⟩
  | @sumComplete n a c x bal hc hp hb =>
      refine .inl ?_
      rw [State.onBalance]
      split
      next => exact ⟨rfl, .inl rfl⟩
      next => exact ⟨concat _ rfl, .inl rfl⟩
  | @saved n c b hc hp hb =>
      refine .inr ⟨b, filterMap_set_perm hc ?_ ?_, rfl⟩
      · simp [WriteCall.booking, hp]
      · simp [WriteCall.booking, hb]
  | writeFail hc hp => exact .inl ⟨set _ hc (by simp [hp]), .inl rfl⟩
  | @written n c hc hp =>
      have hset := set (.done true) hc (by simp [hp])
      refine .inl ?_
      rw [State.onWritten]
      split <;> exact ⟨hset, .inl rfl⟩
  | writeError hc hp => exact .inl ⟨set _ hc (by simp [hp]), .inl rfl⟩
  | @delete n hn => exact .inl ⟨rfl, .inr ⟨n, rfl, rfl⟩⟩
  | _ => exact .inl ⟨rfl, .inl rfl⟩

/-- The ledger consists of what was there and then what was written, and if nothing was
`removed`, of all of it. -/
def Composed (removed : Prop) (L : Ledger) (s : State) : Prop :=
  ∃ new : Ledger, new.Perm (s.writes.filterMap WriteCall.booking) ∧
    s.transactions.Sublist (L ++ new) ∧ (removed ∨ s.transactions = L ++ new)

theorem Composed.init (removed : Prop) (L : Ledger) : Composed removed L (State.init L) :=
  ⟨[], .nil, by rw [List.append_nil]; exact .refl L, .inr (List.append_nil L).symm⟩

theorem Composed.mono {removed removed' : Prop} (h : Composed removed L s)
    (himp : removed → removed') : Composed removed' L s :=
  h.imp fun _ hnew => ⟨hnew.1, hnew.2.1, hnew.2.2.imp_left himp⟩

theorem Composed.step {removed : Prop} (h : Composed removed L s) {e : Event}
    (hdelete : ∀ n, e = .delete n → removed) (hs : Pending.step s e = some s') :
    Composed removed L s' := by
  obtain ⟨new, hnew, hsub, hall⟩ := h
  rcases bookings_step hs with ⟨hwrites, htr | ⟨n, rfl, htr⟩⟩ | ⟨b, hperm, htr⟩
  · exact ⟨new, hwrites ▸ hnew, htr ▸ hsub, htr ▸ hall⟩
  · refine ⟨new, hwrites ▸ hnew, ?_, .inl (hdelete n rfl)⟩
    rw [htr]
    exact (List.eraseIdx_sublist ..).trans hsub
  · refine ⟨new ++ [b], ?_, ?_, hall.imp_right fun heq => ?_⟩
    · exact (List.perm_append_singleton b new).trans ((hnew.cons b).trans hperm.symm)
    · rw [htr, ← List.append_assoc]
      exact hsub.append (List.Sublist.refl [b])
    · rw [htr, heq, List.append_assoc]

end SchuleAlsStaat.Pending
