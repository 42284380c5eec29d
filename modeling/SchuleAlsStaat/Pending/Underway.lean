import SchuleAlsStaat.Pending.Chains

/-!
# Entries on their way

`underway` lists the entries that may still be written: those of intents that
are being saved, of the elements of `pending_transactions`, of balances that may
still be passed on and of writes that are not executed yet.  A step adds at most
the entry that is handed over, and the ledger grows only by an entry on its way.
-/

namespace SchuleAlsStaat.Pending

open Calls

/-! ## The list -/

/-- The entries that may still be written. -/
def State.underway (s : State) : List Draft :=
  (s.intents.filter (·.phase.open?)).map IntentCall.entry ++
    s.pending_transactions.filterMap (fun sl => sl.elem.map Elem.entry) ++
      (s.balances.filter (·.sums.live)).map (·.pe.entry) ++
        (s.writes.filter (·.phase.outcome.isNone)).map WriteCall.entry

/-- The entry that an event hands over. -/
def Event.draft : Event → Option Draft
  | .intent _ _ _ entry _ => some entry
  | .spawn entry _ => some entry
  | _ => none

/-- Every entry that may still be written has `P`. -/
structure Underway (P : Draft → Prop) (s : State) : Prop where
  intents : ∀ c ∈ s.intents, c.phase.open? = true → P c.entry
  elems : ∀ i pe, elemAt s.pending_transactions i = some pe → P pe.entry
  balances : ∀ c ∈ s.balances, c.sums.live = true → P c.pe.entry
  writes : ∀ c ∈ s.writes, c.phase.outcome = none → P c.entry

variable {P Q : Draft → Prop} {s s' : State}

theorem underway_iff : Underway P s ↔ ∀ d ∈ s.underway, P d := by
  simp only [State.underway, List.forall_mem_append, List.forall_mem_map, List.mem_filter,
    List.mem_filterMap, Option.map_eq_some_iff, Option.isNone_iff_eq_none]
  constructor
  · rintro ⟨hintents, helems, hbalances, hwrites⟩
    refine ⟨⟨⟨fun c hc => hintents c hc.1 hc.2, ?_⟩, fun c hc => hbalances c hc.1 hc.2⟩,
      fun c hc => hwrites c hc.1 hc.2⟩
    rintro _ ⟨sl, hsl, pe, hpe, rfl⟩
    obtain ⟨i, hi⟩ := List.mem_iff_getElem?.mp hsl
    exact helems i pe (Option.bind_eq_some_iff.mpr ⟨sl, hi, hpe⟩)
  · rintro ⟨⟨⟨hintents, helems⟩, hbalances⟩, hwrites⟩
    refine ⟨fun c hc ho => hintents c ⟨hc, ho⟩, fun i pe hpe => ?_,
      fun c hc ho => hbalances c ⟨hc, ho⟩, fun c hc ho => hwrites c ⟨hc, ho⟩⟩
    obtain ⟨sl, hsl, hpe⟩ := Option.bind_eq_some_iff.mp hpe
    exact helems pe.entry ⟨sl, mem_of_getElem? hsl, pe, hpe, rfl⟩

/-! ## Steps -/

namespace Underway

theorem init (L : Ledger) : Underway P (State.init L) := by
  refine ⟨?_, ?_, ?_, ?_⟩ <;> simp [State.init, elemAt]

theorem intent (h : Underway P s) {e : Draft} (he : P e) (w : WorkerId) (now : Time)
    (sender : ObjectId) (client : Client) : Underway P (s.intent w now sender e client) :=
  { h with intents := forall_mem_concat h.intents fun _ => he }

theorem transaction_write (h : Underway P s) {e : Draft} (he : P e)
    (origin : Option (ℕ × ObjectId)) (client : Client) :
    Underway P (s.transaction_write origin e client) :=
  { h with writes := forall_mem_concat h.writes fun _ => he }

theorem deleteSlot (h : Underway P s) (i : ℕ) : Underway P (s.deleteSlot i) := by
  refine { h with elems := fun j pe he => ?_ }
  rw [State.deleteSlot, elemAt_deleteAt] at he
  split at he
  · cases he
  · exact h.elems j pe he

theorem onWritePermission (h : Underway P s) (i : ℕ) (trid : ObjectId) :
    Underway P (s.onWritePermission i trid) := by
  rw [State.onWritePermission]
  cases he : elemAt s.pending_transactions i with
  | none => exact h
  | some pe =>
      exact { h with balances := forall_mem_concat h.balances fun _ => h.elems i pe he }

theorem onBalance (h : Underway P s) {c : BalanceCall} (hc : P c.pe.entry) (bal : ℚ) :
    Underway P (s.onBalance c bal) := by
  rw [State.onBalance]
  split
  next =>
    have hdel := h.deleteSlot c.slot
    exact ⟨h.intents, hdel.elems, h.balances, h.writes⟩
  next => exact h.transaction_write hc _ _

theorem onWritten (h : Underway P s) (c : WriteCall) : Underway P (s.onWritten c) := by
  rw [State.onWritten]
  split
  next i trid _ =>
    have hdel := h.deleteSlot i
    exact ⟨h.intents, hdel.elems, h.balances, h.writes⟩
  next => exact ⟨h.intents, h.elems, h.balances, h.writes⟩

/-- The sums of a chain change. -/
theorem setSums (h : Underway P s) {n : ℕ} {c : BalanceCall} (hc : s.balances[n]? = some c)
    {sums : Aggregations} (hlive : sums.live = true → c.sums.live = true) :
    Underway P { s with balances := s.balances.set n { c with sums := sums } } :=
  { h with balances := forall_mem_set n h.balances fun hl =>
      h.balances c (mem_of_getElem? hc) (hlive hl) }

/-- A write that is executed is no longer on its way. -/
theorem setWrite (h : Underway P s) (n : ℕ) {c : WriteCall} (hc : c.phase.outcome ≠ none) :
    Underway P { s with writes := s.writes.set n c } :=
  { h with writes := forall_mem_set n h.writes fun hout => absurd hout hc }

/-- A step keeps the entries on their way, but for the one that is handed over. -/
theorem step (h : Underway P s) {e : Event} (he : ∀ d ∈ e.draft, P d)
    (hs : Pending.step s e = some s') : Underway P s' := by
  cases step_cases hs with
  | intent w now sender entry answer => exact h.intent (he entry rfl) w now sender answer
  | spawn entry answer => exact h.transaction_write (he entry rfl) none answer
  | @intentDb n c ok hc hp =>
      have hentry := h.intents c (mem_of_getElem? hc) (by simp [hp])
      exact { h with intents := forall_mem_set n h.intents fun _ => hentry }
  | @queued n c hc hp =>
      have hentry := h.intents c (mem_of_getElem? hc) (by simp [hp])
      refine { h with
        intents := forall_mem_set n h.intents fun _ => hentry
        elems := fun i pe hpe => ?_ }
      rcases elemAt_concat hpe with hpe | rfl
      · exact h.elems i pe hpe
      · exact hentry
  | @intentError n c hc hp =>
      exact { h with intents := forall_mem_set n h.intents fun hop => by cases hop }
  | @permitted n c hc hp =>
      have hset : Underway P
          { s with checks := s.checks.set n { c with phase := .done (some true) } } :=
        ⟨h.intents, h.elems, h.balances, h.writes⟩
      exact hset.onWritePermission c.slot c.trid
  | sumDb ok hc hp => exact h.setSums hc (Aggregations.live_of_live_replied hp)
  | sumError hc hp =>
      have hset := h.setSums hc (Aggregations.live_of_live_done hp)
      exact ⟨h.intents, h.elems, hset.balances, h.writes⟩
  | sumWaits hc hp hb => exact h.setSums hc (Aggregations.live_of_live_done hp)
  | @sumComplete n a c x bal hc hp hb =>
      have hentry := h.balances c (mem_of_getElem? hc) (Aggregations.live_of_complete hp hb)
      exact (h.setSums hc (Aggregations.live_of_live_done hp)).onBalance hentry bal
  | @saved n c b hc hp hb =>
      have hset := h.setWrite n (c := { c with phase := .replied true }) (by simp)
      exact ⟨h.intents, h.elems, h.balances, hset.writes⟩
  | @writeFail n c hc hp => exact h.setWrite n (c := { c with phase := .replied false }) (by simp)
  | @written n c hc hp =>
      exact (h.setWrite n (c := { c with phase := .done true }) (by simp)).onWritten c
  | @writeError n c hc hp =>
      have hset := h.setWrite n (c := { c with phase := .done false }) (by simp)
      exact ⟨h.intents, h.elems, h.balances, hset.writes⟩
  | _ => exact ⟨h.intents, h.elems, h.balances, h.writes⟩

end Underway

theorem mem_underway_step {e : Event} (hs : step s e = some s') {d : Draft}
    (hd : d ∈ s'.underway) : d ∈ s.underway ∨ d ∈ e.draft := by
  have h : Underway (fun d => d ∈ s.underway ∨ d ∈ e.draft) s :=
    underway_iff.mpr fun d hd => .inl hd
  exact underway_iff.mp (h.step (fun d hd => .inr hd) hs) d hd

/-- The ledger grows only by an entry on its way. -/
theorem mem_transactions_step {e : Event} (hs : step s e = some s') {b : Booking}
    (hb : b ∈ s'.transactions) :
    b ∈ s.transactions ∨ ∃ d ∈ s.underway, d.cast = some b := by
  rcases transactions_step hs with h | ⟨n, c, b', rfl, hc, hcast, h⟩ | ⟨n, -, h⟩
  · rw [h] at hb
    exact .inl hb
  · rw [h] at hb
    rcases List.mem_append.mp hb with hb | hb
    · exact .inl hb
    · cases List.mem_singleton.mp hb
      obtain ⟨c', hc', hsent, -⟩ := withSent_eq_some.mp hs
      cases hc.symm.trans hc'
      have h := underway_iff.mpr fun d (hd : d ∈ s.underway) => hd
      exact .inr ⟨c.entry, h.writes c (mem_of_getElem? hc) (by rw [hsent]; rfl), hcast⟩
  · rw [h] at hb
    exact .inl (List.mem_of_mem_eraseIdx hb)

end SchuleAlsStaat.Pending
