import SchuleAlsStaat.Pending.Orphans

/-!
# The slot of an intent

An element keeps the slot it was pushed to, and the calls that are made for it
carry the slot and the intent along.  So a call never reaches the element of
another intent, and the element of an intent that is being removed is gone.
-/

namespace SchuleAlsStaat.Pending

open Calls

/-! ## Where an element was pushed -/

/-- The intent `t` was saved and its element pushed to slot `i`. -/
structure PushedTo (l : List IntentCall) (slots : List Slot) (i : ℕ) (t : ObjectId) : Prop where
  saved : ∃ client, Queued l t client
  lt : i < slots.length
  iff : ∀ j pe, elemAt slots j = some pe → (j = i ↔ pe.trid = t)

section PushedTo

variable {l : List IntentCall} {slots : List Slot} {i j : ℕ} {t : ObjectId} {pe : Elem}

theorem length_deleteAt : (deleteAt slots i).length = slots.length := by
  rw [deleteAt, List.length_modify]

theorem elemAt_lt (h : elemAt slots i = some pe) : i < slots.length := by
  obtain ⟨w, hw⟩ := elemAt_eq_some.mp h
  exact (List.getElem?_eq_some_iff.mp hw).1

theorem elemAt_length {w : WorkerId} :
    elemAt (slots ++ [⟨w, some pe⟩]) slots.length = some pe :=
  elemAt_eq_some.mpr ⟨w, by simp⟩

/-- A push adds an element at the end. -/
theorem elemAt_push {w : WorkerId} {pe' : Elem}
    (h : elemAt (slots ++ [⟨w, some pe'⟩]) j = some pe) :
    elemAt slots j = some pe ∨ j = slots.length ∧ pe = pe' := by
  rcases Nat.lt_trichotomy j slots.length with hlt | rfl | hgt
  · refine .inl ?_
    rwa [elemAt, List.getElem?_append_left hlt] at h
  · rw [elemAt_length] at h
    cases h
    exact .inr ⟨rfl, rfl⟩
  · have := elemAt_lt h
    rw [List.length_append, List.length_singleton] at this
    omega

theorem elemAt_of_deleteAt (h : elemAt (deleteAt slots i) j = some pe) :
    i ≠ j ∧ elemAt slots j = some pe := by
  rw [elemAt_deleteAt] at h
  split at h
  next => cases h
  next hne => exact ⟨hne, h⟩

namespace PushedTo

theorem concat (h : PushedTo l slots i t) (c : IntentCall) : PushedTo (l ++ [c]) slots i t :=
  { h with saved := h.saved.imp fun _ hq => hq.concat c }

theorem set (h : PushedTo l slots i t) {n : ℕ} {c : IntentCall} (hc : l[n]? = some c)
    (hp : c.phase ≠ .done true) (p : Phase Bool) :
    PushedTo (l.set n { c with phase := p }) slots i t :=
  { h with saved := h.saved.imp fun _ hq => hq.set hc hp p }

theorem deleteAt (h : PushedTo l slots i t) (k : ℕ) : PushedTo l (deleteAt slots k) i t where
  saved := h.saved
  lt := by rw [length_deleteAt]; exact h.lt
  iff j pe hpe := h.iff j pe (elemAt_of_deleteAt hpe).2

theorem push (h : PushedTo l slots i t) (w : WorkerId) (ne : pe.trid ≠ t) :
    PushedTo l (slots ++ [⟨w, some pe⟩]) i t where
  saved := h.saved
  lt := by
    rw [List.length_append]
    exact Nat.lt_add_right _ h.lt
  iff j pe' hpe := by
    rcases elemAt_push hpe with hold | ⟨rfl, rfl⟩
    · exact h.iff j pe' hold
    · exact ⟨fun hj => absurd hj h.lt.ne', fun ht => absurd ht ne⟩

/-- A call whose callback has not run has no element. -/
theorem ne_of_open (h : PushedTo l slots i t) {n : ℕ} {c : IntentCall} (hc : l[n]? = some c)
    (hp : c.phase ≠ .done true) : n ≠ t := by
  rintro rfl
  obtain ⟨_, c', hc', hdone, -⟩ := h.saved
  cases hc.symm.trans hc'
  exact hp hdone

end PushedTo

end PushedTo

/-! ## Places -/

/-- Every call belongs to the slot its element was pushed to, and the element of an
intent that is being removed is gone. -/
structure Placed (s : State) : Prop where
  elems : ∀ i pe, elemAt s.pending_transactions i = some pe →
    PushedTo s.intents s.pending_transactions i pe.trid ∧
      ∃ c, s.intents[pe.trid]? = some c ∧ c.pt.sender = pe.sender
  checks : ∀ c ∈ s.checks, PushedTo s.intents s.pending_transactions c.slot c.trid
  balances : ∀ c ∈ s.balances, PushedTo s.intents s.pending_transactions c.slot c.trid
  writes : ∀ c ∈ s.writes, ∀ i t, c.origin = some (i, t) →
    PushedTo s.intents s.pending_transactions i t
  removes : ∀ r ∈ s.removes, ∀ i pe, elemAt s.pending_transactions i = some pe → pe.trid ≠ r.trid

variable {s s' : State} {gone : List PendingTransaction}

namespace Placed

theorem init (L : Ledger) : Placed (State.init L) := by
  constructor <;> simp [State.init, elemAt]

/-- Nothing of the queue changes. -/
theorem send (h : Placed s) (client : Client) (trid : Option ObjectId) (m : Answer) :
    Placed (s.send client trid m) :=
  ⟨h.elems, h.checks, h.balances, h.writes, h.removes⟩

theorem intent (h : Placed s) (w : WorkerId) (now : Time) (sender : ObjectId) (entry : Draft)
    (answer : Client) : Placed (s.intent w now sender entry answer) where
  elems i pe hpe := by
    obtain ⟨hat, c, hc, hsender⟩ := h.elems i pe hpe
    exact ⟨hat.concat _, c, getElem?_append_of_some hc _, hsender⟩
  checks c hc := (h.checks c hc).concat _
  balances c hc := (h.balances c hc).concat _
  writes c hc i t ho := (h.writes c hc i t ho).concat _
  removes := h.removes

/-- The save of an intent goes on. -/
theorem setIntent (h : Placed s) {n : ℕ} {c : IntentCall} (hc : s.intents[n]? = some c)
    (hp : c.phase ≠ .done true) (p : Phase Bool) (docs : List PendingTransaction) :
    Placed { s with
      intents := s.intents.set n { c with phase := p }
      pendingtransactions := docs } where
  elems i pe hpe := by
    obtain ⟨hat, k, hk, hsender⟩ := h.elems i pe hpe
    refine ⟨hat.set hc hp p, k, ?_, hsender⟩
    rw [List.getElem?_set_ne (hat.ne_of_open hc hp), hk]
  checks k hk := (h.checks k hk).set hc hp p
  balances k hk := (h.balances k hk).set hc hp p
  writes k hk i t ho := (h.writes k hk i t ho).set hc hp p
  removes := h.removes

/-- The confirmed save of an intent pushes its element. -/
theorem queued (h : Placed s) {n : ℕ} {c : IntentCall} (hc : s.intents[n]? = some c)
    (hp : c.phase = .replied true) (hid : c.pt._id = n) (fresh : ∀ r ∈ s.removes, r.trid ≠ n) :
    Placed (({ s with intents := s.intents.set n { c with phase := .done true } } :
      State).transaction_queue c) := by
  have hn : n < s.intents.length := (List.getElem?_eq_some_iff.mp hc).1
  have hself : (s.intents.set n { c with phase := .done true })[n]? =
      some { c with phase := .done true } := List.getElem?_set_self hn
  have hopen : c.phase ≠ .done true := by simp [hp]
  have old : ∀ {i t}, PushedTo s.intents s.pending_transactions i t →
      PushedTo (s.intents.set n { c with phase := .done true })
        (s.pending_transactions ++
          [⟨c.worker, some ⟨c.pt._id, c.pt.sender, c.entry, c.answer⟩⟩]) i t := by
    intro i t hat
    refine (hat.set hc hopen (.done true)).push c.worker ?_
    rw [hid]
    exact hat.ne_of_open hc hopen
  refine ⟨fun i pe hpe => ?_, fun k hk => old (h.checks k hk), fun k hk => old (h.balances k hk),
    fun k hk i t ho => old (h.writes k hk i t ho), fun r hr i pe hpe => ?_⟩
  · rcases elemAt_push hpe with hpe | ⟨rfl, rfl⟩
    · obtain ⟨hat, k, hk, hsender⟩ := h.elems i pe hpe
      refine ⟨old hat, k, ?_, hsender⟩
      show (s.intents.set n _)[_]? = _
      rw [List.getElem?_set_ne (hat.ne_of_open hc hopen), hk]
    · refine ⟨⟨⟨c.answer, { c with phase := .done true }, ?_, rfl, rfl⟩,
        by simp [State.transaction_queue], ?_⟩, { c with phase := .done true }, ?_, rfl⟩
      · rw [hid]
        exact hself
      · intro j pe hpe
        rcases elemAt_push hpe with hpe | ⟨rfl, rfl⟩
        · have hat := (h.elems j pe hpe).1
          refine ⟨fun hj => absurd hj (elemAt_lt hpe).ne, fun ht => ?_⟩
          exact absurd (hid.symm.trans ht.symm) (hat.ne_of_open hc hopen)
        · simp
      · rw [hid]
        exact hself
  · rcases elemAt_push hpe with hpe | ⟨rfl, rfl⟩
    · exact h.removes r hr i pe hpe
    · rw [hid]
      exact (fresh r hr).symm

/-- Slot `i` is emptied and the intent of its element is removed. -/
theorem finish (h : Placed s) {i : ℕ} {t : ObjectId}
    (hat : PushedTo s.intents s.pending_transactions i t) :
    Placed ((s.deleteSlot i).writeComplete t) := by
  refine ⟨fun j pe hpe => ?_, fun k hk => (h.checks k hk).deleteAt i,
    fun k hk => (h.balances k hk).deleteAt i, fun k hk j t ho => (h.writes k hk j t ho).deleteAt i,
    ?_⟩
  · obtain ⟨hj, hc⟩ := h.elems j pe (elemAt_of_deleteAt hpe).2
    exact ⟨hj.deleteAt i, hc⟩
  · refine forall_mem_concat (fun r hr j pe hpe => ?_) fun j pe hpe ht => ?_
    · exact h.removes r hr j pe (elemAt_of_deleteAt hpe).2
    · obtain ⟨hne, hpe⟩ := elemAt_of_deleteAt hpe
      exact hne ((hat.iff j pe hpe).mpr ht).symm

theorem transaction_write (h : Placed s) {origin : Option (ℕ × ObjectId)} (entry : Draft)
    (answer : Client) (ho : ∀ i t, origin = some (i, t) →
      PushedTo s.intents s.pending_transactions i t) :
    Placed (s.transaction_write origin entry answer) :=
  { h with writes := forall_mem_concat h.writes ho }

theorem onWritePermission (h : Placed s) {i : ℕ} {t : ObjectId}
    (hat : PushedTo s.intents s.pending_transactions i t) : Placed (s.onWritePermission i t) := by
  rw [State.onWritePermission]
  split
  next => exact h
  next => exact { h with balances := forall_mem_concat h.balances hat }

theorem onBalance (h : Placed s) {c : BalanceCall}
    (hat : PushedTo s.intents s.pending_transactions c.slot c.trid) (bal : ℚ) :
    Placed (s.onBalance c bal) := by
  rw [State.onBalance]
  split
  next => exact (h.finish hat).send c.pe.answer c.trid (.text "nomoney")
  next =>
    refine h.transaction_write _ _ fun i t ho => ?_
    cases ho
    exact hat

theorem onWritten (h : Placed s) {c : WriteCall} (hat : ∀ i t, c.origin = some (i, t) →
    PushedTo s.intents s.pending_transactions i t) : Placed (s.onWritten c) := by
  rcases c.origin_cases with ho | ⟨i, t, ho⟩
  · rw [State.onWritten_none ho]
    exact (h.send _ _ _).send _ _ _
  · rw [State.onWritten_some ho]
    exact (h.finish (hat i t ho)).send c.answer t .ok

theorem setCheck (h : Placed s) {n : ℕ} {c : CheckCall} (hc : s.checks[n]? = some c)
    (p : Phase (Option Bool)) : Placed { s with checks := s.checks.set n { c with phase := p } } :=
  { h with checks := forall_mem_set n h.checks (h.checks c (mem_of_getElem? hc)) }

theorem setSums (h : Placed s) {n : ℕ} {c : BalanceCall} (hc : s.balances[n]? = some c)
    (sums : Aggregations) :
    Placed { s with balances := s.balances.set n { c with sums := sums } } :=
  { h with balances := forall_mem_set n h.balances (h.balances c (mem_of_getElem? hc)) }

theorem setWrite (h : Placed s) {n : ℕ} {c : WriteCall} (hc : s.writes[n]? = some c)
    (p : Phase Bool) (L : Ledger) :
    Placed { s with writes := s.writes.set n { c with phase := p }, transactions := L } :=
  { h with writes := forall_mem_set n h.writes (h.writes c (mem_of_getElem? hc)) }

/-- Every step keeps the places. -/
theorem step (h : Placed s) (hk : Kept ⟨s, gone⟩) {e : Event} (hs : Pending.step s e = some s') :
    Placed s' := by
  cases step_cases hs with
  | intent w now sender entry answer => exact h.intent w now sender entry answer
  | spawn entry answer => exact h.transaction_write entry answer fun i t ho => by cases ho
  | intentDb ok hc hp => exact h.setIntent hc (by simp [hp]) (.replied ok) _
  | @queued n c hc hp =>
      refine h.queued hc hp (hk.ids n c hc) fun r hr ht => ?_
      obtain ⟨_, ⟨c', hc', hdone, -⟩, -⟩ := hk.removes r hr
      rw [ht] at hc'
      cases hc.symm.trans hc'
      rw [hp] at hdone
      cases hdone
  | intentError hc hp =>
      exact (h.setIntent hc (by simp [hp]) (.done false) s.pendingtransactions).send _ _ _
  | tick w =>
      refine { h with checks := forall_mem_append h.checks fun c hc => ?_ }
      obtain ⟨-, pe, hpe, htrid, -⟩ := mem_tickChecks hc
      exact htrid ▸ (h.elems _ pe hpe).1
  | checkDb hc hp hf => exact h.setCheck hc _
  | checkFail hc hp => exact h.setCheck hc _
  | permitted hc hp =>
      exact (h.setCheck hc _).onWritePermission (h.checks _ (mem_of_getElem? hc))
  | refused hc hp => exact h.setCheck hc _
  | checkError hc hp => exact (h.setCheck hc _).send _ _ _
  | sumDb ok hc hp => exact h.setSums hc _
  | sumError hc hp => exact (h.setSums hc _).send _ _ _
  | sumWaits hc hp hb => exact h.setSums hc _
  | sumComplete hc hp hb =>
      exact (h.setSums hc _).onBalance (h.balances _ (mem_of_getElem? hc)) _
  | saved hc hp hb => exact h.setWrite hc _ _
  | writeFail hc hp => exact h.setWrite hc _ s.transactions
  | written hc hp =>
      exact (h.setWrite hc (.done true) s.transactions).onWritten
        (h.writes _ (mem_of_getElem? hc))
  | writeError hc hp => exact (h.setWrite hc (.done false) s.transactions).send _ _ _
  | @removeDb n c ok hc hp =>
      exact { h with removes := forall_mem_set n h.removes (h.removes c (mem_of_getElem? hc)) }
  | expire hn => exact ⟨h.elems, h.checks, h.balances, h.writes, h.removes⟩
  | delete => exact ⟨h.elems, h.checks, h.balances, h.writes, h.removes⟩

end Placed

end SchuleAlsStaat.Pending
