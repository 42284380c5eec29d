import SchuleAlsStaat.Pending.Answers

/-!
# Intents of waiting elements

An element of `pending_transactions` can only be granted while its intent is in
the database.  The intent is removed by `writeComplete`, after the element's
request was answered, and by the expiry rule.  A `Journal` keeps the documents
that the rule has removed, so that it can be told apart.
-/

namespace SchuleAlsStaat.Pending

open Calls Runs

/-- A state with the documents that expired so far. -/
structure Journal where
  state : State
  expired : List PendingTransaction

namespace Journal

def init (L : Ledger) : Journal := ⟨.init L, []⟩

/-- The documents that an event lets expire. -/
def expiring (s : State) : Event → List PendingTransaction
  | .expire n => (s.pendingtransactions[n]?).toList
  | _ => []

/-- A step of the system, with the expired documents recorded. -/
def step (j : Journal) (e : Event) : Option Journal :=
  (Pending.step j.state e).map fun s => ⟨s, j.expired ++ expiring j.state e⟩

end Journal

/-- The intent `t` of a client was saved, and its element was queued. -/
def Queued (l : List IntentCall) (t : ObjectId) (client : Client) : Prop :=
  ∃ c, l[t]? = some c ∧ c.phase = .done true ∧ c.answer = client

namespace Queued

variable {l : List IntentCall} {t : ObjectId} {client client' : Client}

theorem unique (h : Queued l t client) (h' : Queued l t client') : client = client' := by
  obtain ⟨c, hc, -, rfl⟩ := h
  obtain ⟨c', hc', -, rfl⟩ := h'
  rw [Option.some.inj (hc.symm.trans hc')]

theorem concat (h : Queued l t client) (c : IntentCall) : Queued (l ++ [c]) t client := by
  obtain ⟨k, hk, hp, ha⟩ := h
  exact ⟨k, Calls.getElem?_append_of_some hk [c], hp, ha⟩

/-- A call whose callback has not run changes its phase. -/
theorem set (h : Queued l t client) {n : ℕ} {c : IntentCall} (hc : l[n]? = some c)
    (hp : c.phase ≠ .done true) (p : Phase Bool) :
    Queued (l.set n { c with phase := p }) t client := by
  obtain ⟨k, hk, hdone, ha⟩ := h
  have hne : n ≠ t := by
    rintro rfl
    cases hc.symm.trans hk
    exact hp hdone
  exact ⟨k, by rw [List.getElem?_set_ne hne, hk], hdone, ha⟩

end Queued

/-- Every element is that of a saved intent, and a saved intent is in the
database unless it has expired or its removal was issued after an answer. -/
structure Kept (j : Journal) : Prop where
  next : j.state.nextId = j.state.intents.length
  ids : ∀ (n : ℕ) (c : IntentCall), j.state.intents[n]? = some c → c.pt._id = n
  saved : ∀ c ∈ j.state.intents, c.phase.outcome = some true →
    c.pt ∈ j.state.pendingtransactions ∨ c.pt ∈ j.expired ∨
      ∃ r ∈ j.state.removes, r.trid = c.pt._id
  checks : ∀ c ∈ j.state.checks, ∃ sl, j.state.pending_transactions[c.slot]? = some sl ∧
    ∀ pe, sl.elem = some pe → pe.trid = c.trid
  elems : ∀ i pe, elemAt j.state.pending_transactions i = some pe →
    Queued j.state.intents pe.trid pe.answer
  balances : ∀ c ∈ j.state.balances, Queued j.state.intents c.trid c.pe.answer
  writes : ∀ c ∈ j.state.writes, ∀ i t, c.origin = some (i, t) →
    Queued j.state.intents t c.answer
  removes : ∀ r ∈ j.state.removes, ∃ client, Queued j.state.intents r.trid client ∧
    ∃ x ∈ j.state.answers, x.client = client

namespace Kept

variable {s : State} {gone : List PendingTransaction}

theorem init (L : Ledger) : Kept (.init L) := by
  constructor <;> simp [Journal.init, State.init, elemAt]

theorem intent (h : Kept ⟨s, gone⟩) (w : WorkerId) (now : Time) (sender : ObjectId)
    (entry : Draft) (answer : Client) : Kept ⟨s.intent w now sender entry answer, gone⟩ where
  next := by
    have hn : s.nextId = s.intents.length := h.next
    simp [State.intent, hn]
  ids n c hc := by
    have hn : s.nextId = s.intents.length := h.next
    rcases Nat.lt_or_ge n s.intents.length with hlt | hge
    · refine h.ids n c ?_
      simpa [State.intent, List.getElem?_append_left hlt] using hc
    · simp only [State.intent, List.getElem?_append_right hge, List.getElem?_singleton] at hc
      split at hc
      next heq =>
        cases hc
        exact hn.trans (le_antisymm hge (Nat.le_of_sub_eq_zero heq))
      next => cases hc
  saved := forall_mem_concat h.saved fun hp => by cases hp
  checks := h.checks
  elems i pe he := (h.elems i pe he).concat _
  balances c hc := (h.balances c hc).concat _
  writes c hc i t ho := (h.writes c hc i t ho).concat _
  removes r hr := by
    obtain ⟨client, hq, x, hx, hcl⟩ := h.removes r hr
    exact ⟨client, hq.concat _, x, hx, hcl⟩

/-- The save of an intent goes on.  If it has succeeded its document is in
`docs`. -/
theorem setIntent (h : Kept ⟨s, gone⟩) {n : ℕ} {c : IntentCall} (hc : s.intents[n]? = some c)
    (hp : c.phase ≠ .done true) {p : Phase Bool} {docs : List PendingTransaction}
    (old : ∀ d ∈ s.pendingtransactions, d ∈ docs)
    (new : p.outcome = some true → c.phase.outcome = some true ∨ c.pt ∈ docs) :
    Kept ⟨{ s with
      intents := s.intents.set n { c with phase := p }
      pendingtransactions := docs }, gone⟩ where
  next := by simpa using h.next
  ids m k hk := by
    by_cases hm : n = m
    · subst hm
      rw [List.getElem?_set_self (List.getElem?_eq_some_iff.mp hc).1] at hk
      cases hk
      exact h.ids n c hc
    · refine h.ids m k ?_
      rwa [List.getElem?_set_ne hm] at hk
  saved := by
    refine forall_mem_set n (fun k hk hout => ?_) fun hout => ?_
    · exact (h.saved k hk hout).imp_left (old _)
    · rcases new hout with hout | hd
      · exact (h.saved c (mem_of_getElem? hc) hout).imp_left (old _)
      · exact .inl hd
  checks := h.checks
  elems i pe he := (h.elems i pe he).set hc hp p
  balances k hk := (h.balances k hk).set hc hp p
  writes k hk i t ho := (h.writes k hk i t ho).set hc hp p
  removes r hr := by
    obtain ⟨client, hq, x, hx, hcl⟩ := h.removes r hr
    exact ⟨client, hq.set hc hp p, x, hx, hcl⟩

/-- The confirmed save of an intent pushes its element. -/
theorem transaction_queue (h : Kept ⟨s, gone⟩) {c : IntentCall}
    (hc : Queued s.intents c.pt._id c.answer) : Kept ⟨s.transaction_queue c, gone⟩ :=
  { h with
    checks := fun k hk => by
      obtain ⟨sl, hsl, htrid⟩ := h.checks k hk
      exact ⟨sl, Calls.getElem?_append_of_some hsl _, htrid⟩
    elems := fun i pe he => by
      rcases elemAt_concat he with he | rfl
      · exact h.elems i pe he
      · exact hc }

theorem send (h : Kept ⟨s, gone⟩) (client : Client) (trid : Option ObjectId) (m : Answer) :
    Kept ⟨s.send client trid m, gone⟩ :=
  { h with
    removes := fun r hr => by
      obtain ⟨client, hq, x, hx, hcl⟩ := h.removes r hr
      exact ⟨client, hq, x, List.mem_append_left _ hx, hcl⟩ }

theorem deleteSlot (h : Kept ⟨s, gone⟩) (i : ℕ) : Kept ⟨s.deleteSlot i, gone⟩ :=
  { h with
    checks := fun k hk => by
      obtain ⟨sl, hsl, htrid⟩ := h.checks k hk
      obtain ⟨sl', hsl', hsub⟩ := getElem?_deleteAt (i := i) hsl
      exact ⟨sl', hsl', fun pe hpe => htrid pe (hsub pe hpe)⟩
    elems := fun k pe he => by
      simp only [State.deleteSlot, elemAt_deleteAt] at he
      split at he
      next => cases he
      next => exact h.elems k pe he }

/-- A removal is issued once an answer was sent. -/
theorem writeComplete (h : Kept ⟨s, gone⟩) {t : ObjectId} {client : Client} {x : Sent}
    (hq : Queued s.intents t client) (hx : x ∈ s.answers) (hcl : x.client = client) :
    Kept ⟨s.writeComplete t, gone⟩ :=
  { h with
    saved := fun c hc hout => (h.saved c hc hout).imp_right (Or.imp_right fun ⟨r, hr, ht⟩ =>
      ⟨r, List.mem_append_left _ hr, ht⟩)
    removes := forall_mem_concat h.removes ⟨client, hq, x, hx, hcl⟩ }

theorem onWritePermission (h : Kept ⟨s, gone⟩) {i : ℕ} {trid : ObjectId}
    (hpe : ∀ pe ∈ elemAt s.pending_transactions i, pe.trid = trid) :
    Kept ⟨s.onWritePermission i trid, gone⟩ := by
  rw [State.onWritePermission]
  cases he : elemAt s.pending_transactions i with
  | none => exact h
  | some pe =>
      have hq : Queued s.intents trid pe.answer := hpe pe he ▸ h.elems i pe he
      exact { h with balances := forall_mem_concat h.balances hq }

theorem transaction_write (h : Kept ⟨s, gone⟩) {origin : Option (ℕ × ObjectId)} (entry : Draft)
    {answer : Client} (ho : ∀ i t, origin = some (i, t) → Queued s.intents t answer) :
    Kept ⟨s.transaction_write origin entry answer, gone⟩ :=
  { h with writes := forall_mem_concat h.writes ho }

theorem onBalance (h : Kept ⟨s, gone⟩) {c : BalanceCall}
    (hc : Queued s.intents c.trid c.pe.answer) (bal : ℚ) : Kept ⟨s.onBalance c bal, gone⟩ := by
  rw [State.onBalance]
  split
  next =>
    refine ((h.send _ _ _).writeComplete hc (x := ⟨c.pe.answer, c.trid, .text "nomoney"⟩) ?_
      rfl).deleteSlot _
    exact List.mem_append_right _ (List.mem_singleton_self _)
  next =>
    refine h.transaction_write _ fun i t ho => ?_
    cases ho
    exact hc

theorem onWritten (h : Kept ⟨s, gone⟩) {c : WriteCall}
    (hc : ∀ i t, c.origin = some (i, t) → Queued s.intents t c.answer) :
    Kept ⟨s.onWritten c, gone⟩ := by
  rcases c.origin_cases with ho | ⟨i, t, ho⟩
  · rw [State.onWritten_none ho]
    exact (h.send _ _ _).send _ _ _
  · rw [State.onWritten_some ho]
    refine ((h.send _ _ _).deleteSlot i).writeComplete (hc i t ho) (x := ⟨c.answer, t, .ok⟩) ?_ rfl
    exact List.mem_append_right _ (List.mem_singleton_self _)

theorem setWrite (h : Kept ⟨s, gone⟩) {n : ℕ} {c : WriteCall} (hc : s.writes[n]? = some c)
    (p : Phase Bool) (L : Ledger) :
    Kept ⟨{ s with writes := s.writes.set n { c with phase := p }, transactions := L }, gone⟩ :=
  { h with writes := forall_mem_set n h.writes (h.writes c (mem_of_getElem? hc)) }

theorem setCheck (h : Kept ⟨s, gone⟩) {n : ℕ} {c : CheckCall} (hc : s.checks[n]? = some c)
    (p : Phase (Option Bool)) :
    Kept ⟨{ s with checks := s.checks.set n { c with phase := p } }, gone⟩ :=
  { h with checks := forall_mem_set n h.checks (h.checks c (mem_of_getElem? hc)) }

theorem setSums (h : Kept ⟨s, gone⟩) {n : ℕ} {c : BalanceCall} (hc : s.balances[n]? = some c)
    (sums : Aggregations) :
    Kept ⟨{ s with balances := s.balances.set n { c with sums := sums } }, gone⟩ :=
  { h with balances := forall_mem_set n h.balances (h.balances c (mem_of_getElem? hc)) }

/-- The database executes a removal. -/
theorem remove (h : Kept ⟨s, gone⟩) {n : ℕ} {c : RemoveCall} (hc : s.removes[n]? = some c)
    (ok : Bool) :
    Kept ⟨{ s with
      removes := s.removes.set n { c with phase := .done ok }
      pendingtransactions := if ok then s.pendingtransactions.filter (·._id ≠ c.trid)
        else s.pendingtransactions }, gone⟩ := by
  have hmem : ∃ r ∈ s.removes.set n { c with phase := .done ok }, r.trid = c.trid :=
    ⟨_, mem_set_self _ hc, rfl⟩
  refine { h with
    saved := fun k hk hout => ?_
    removes := forall_mem_set n h.removes (h.removes c (mem_of_getElem? hc)) }
  rcases h.saved k hk hout with hd | hgone | ⟨r, hr, ht⟩
  · by_cases hid : k.pt._id = c.trid
    · rw [hid]
      exact .inr (.inr hmem)
    · refine .inl ?_
      dsimp only
      split
      next => exact List.mem_filter.mpr ⟨hd, by simpa using hid⟩
      next => exact hd
  · exact .inr (.inl hgone)
  · refine .inr (.inr ?_)
    by_cases hrc : r = c
    · rw [← ht, hrc]
      exact hmem
    · exact ⟨r, mem_set_of_ne _ hc hr hrc, ht⟩

/-- A document expires. -/
theorem expire (h : Kept ⟨s, gone⟩) (n : ℕ) :
    Kept ⟨{ s with pendingtransactions := s.pendingtransactions.eraseIdx n },
      gone ++ (s.pendingtransactions[n]?).toList⟩ := by
  refine { h with saved := fun c hc hout => ?_ }
  rcases h.saved c hc hout with hd | hgone | hr
  · obtain ⟨m, hm⟩ := List.mem_iff_getElem?.mp hd
    by_cases hmn : m = n
    · subst hmn
      refine .inr (.inl (List.mem_append_right _ ?_))
      rw [hm]
      exact List.mem_singleton_self _
    · exact .inl (List.mem_eraseIdx_iff_getElem?.mpr ⟨m, hmn, hm⟩)
  · exact .inr (.inl (List.mem_append_left _ hgone))
  · exact .inr (.inr hr)

/-- Every step keeps the invariant, with what it lets expire recorded. -/
theorem step (h : Kept ⟨s, gone⟩) {e : Event} {s' : State} (hs : Pending.step s e = some s') :
    Kept ⟨s', gone ++ Journal.expiring s e⟩ := by
  have same : ∀ {u : State}, Kept ⟨u, gone⟩ → Kept ⟨u, gone ++ []⟩ := by
    intro u hu
    rw [List.append_nil]
    exact hu
  cases step_cases hs with
  | intent w now sender entry answer => exact same (h.intent w now sender entry answer)
  | spawn entry answer => exact same (h.transaction_write entry fun i t ho => by cases ho)
  | intentDb ok hc hp =>
      refine same (h.setIntent hc (by simp [hp]) (fun d hd => ?_) fun hout => ?_)
      · cases ok
        · exact hd
        · exact List.mem_append_left _ hd
      · cases ok with
        | true => exact .inr (List.mem_append_right _ (List.mem_singleton_self _))
        | false => cases hout
  | @queued n c hc hp =>
      have hset := h.setIntent hc (p := .done true) (by simp [hp]) (fun _ hd => hd)
        fun hout => .inl (by rw [hp]; exact hout)
      refine same (hset.transaction_queue ⟨{ c with phase := .done true }, ?_, rfl, rfl⟩)
      show (s.intents.set n _)[c.pt._id]? = _
      rw [h.ids n c hc, List.getElem?_set_self (List.getElem?_eq_some_iff.mp hc).1]
  | intentError hc hp =>
      have hset := h.setIntent hc (p := .done false) (by simp [hp]) (fun _ hd => hd)
        fun hout => .inl (by rw [hp]; exact hout)
      exact same (hset.send _ _ _)
  | tick w =>
      refine same { h with checks := forall_mem_append h.checks fun c hc => ?_ }
      obtain ⟨-, pe, hpe, htrid, -⟩ := mem_tickChecks hc
      obtain ⟨w', hsl⟩ := elemAt_eq_some.mp hpe
      exact ⟨_, hsl, fun pe' hpe' => by cases hpe'; exact htrid⟩
  | checkDb hc hp hf => exact same (h.setCheck hc _)
  | checkFail hc hp => exact same (h.setCheck hc _)
  | @permitted n c hc hp =>
      refine same ((h.setCheck hc _).onWritePermission fun pe hpe => ?_)
      obtain ⟨sl, hsl, htrid⟩ := h.checks c (mem_of_getElem? hc)
      obtain ⟨w, hw⟩ := elemAt_eq_some.mp hpe
      cases hsl.symm.trans hw
      exact htrid pe rfl
  | refused hc hp => exact same (h.setCheck hc _)
  | checkError hc hp => exact same ((h.setCheck hc _).send _ _ _)
  | sumDb ok hc hp => exact same (h.setSums hc _)
  | sumError hc hp => exact same ((h.setSums hc _).send _ _ _)
  | sumWaits hc hp hb => exact same (h.setSums hc _)
  | @sumComplete n a c x bal hc hp hb =>
      exact same ((h.setSums hc _).onBalance (h.balances c (mem_of_getElem? hc)) bal)
  | saved hc hp hb => exact same (h.setWrite hc _ _)
  | writeFail hc hp => exact same (h.setWrite hc _ s.transactions)
  | @written n c hc hp =>
      have hset := h.setWrite hc (.done true) s.transactions
      exact same (hset.onWritten (h.writes c (mem_of_getElem? hc)))
  | writeError hc hp => exact same ((h.setWrite hc (.done false) s.transactions).send _ _ _)
  | removeDb ok hc hp => exact same (h.remove hc ok)
  | @expire n hn => exact h.expire n
  | delete =>
      exact same ⟨h.next, h.ids, h.saved, h.checks, h.elems, h.balances, h.writes, h.removes⟩

end Kept

/-- In every run, an element that waits in `pending_transactions` and whose
request was not answered has its intent in the database, unless the intent has
expired. -/
theorem orphaned_only_by_expiry {L : Ledger} {j : Journal}
    (run : AnyRun Journal.step (.init L) j) {i : ℕ} {pe : Elem}
    (live : elemAt j.state.pending_transactions i = some pe)
    (unanswered : ∀ x ∈ j.state.answers, x.client ≠ pe.answer) :
    ∃ d, d._id = pe.trid ∧ (d ∈ j.state.pendingtransactions ∨ d ∈ j.expired) := by
  have h : Kept j := run.invariant (Kept.init L) fun k e k' ih _ hs => by
    obtain ⟨s', hstep, rfl⟩ := Option.map_eq_some_iff.mp hs
    exact ih.step hstep
  have hq := h.elems i pe live
  obtain ⟨c, hc, hp, -⟩ := id hq
  have hid := h.ids _ c hc
  rcases h.saved c (mem_of_getElem? hc) (by rw [hp]; rfl) with hd | hgone | ⟨r, hr, ht⟩
  · exact ⟨c.pt, hid, .inl hd⟩
  · exact ⟨c.pt, hid, .inr hgone⟩
  · obtain ⟨client, hq', x, hx, hcl⟩ := h.removes r hr
    rw [ht, hid] at hq'
    exact absurd (hcl.trans (hq'.unique hq)) (unanswered x hx)

section Sample

theorem orphaned_only_by_expiry_queued : ∃ j, AnyRun Journal.step (.init endowment) j ∧
    ∃ pe, elemAt j.state.pending_transactions 0 = some pe ∧
      ∃ d, d._id = pe.trid ∧ (d ∈ j.state.pendingtransactions ∨ d ∈ j.expired) := by
  have hexec : (exec Journal.step (fun _ _ => True) (.init endowment)
      (queueEvents 0 11 10 1 ++ [.tick 0])).map
        (fun j => ((elemAt j.state.pending_transactions 0).isSome, j.state.answers.length)) =
          some (true, 0) := by decide +kernel
  obtain ⟨j, run, h⟩ := exists_run_of_exec _ hexec
  obtain ⟨hsome, hlength⟩ := Prod.mk.inj h
  obtain ⟨pe, hpe⟩ := Option.isSome_iff_exists.mp hsome
  refine ⟨j, run, pe, hpe, orphaned_only_by_expiry run hpe fun x hx => ?_⟩
  rw [List.eq_nil_of_length_eq_zero hlength] at hx
  cases hx

/-- The intent of an element expires while the element waits in the queue of its
worker. -/
theorem waiting_intent_expires : ¬ ∀ (L : Ledger) (s : State), AnyRun step (State.init L) s →
    ∀ i pe, elemAt s.pending_transactions i = some pe →
      (∀ x ∈ s.answers, x.client ≠ pe.answer) → written s.writes pe.trid = 0 →
        ∃ d ∈ s.pendingtransactions, d._id = pe.trid := by
  intro claim
  have hexec : (exec step (fun _ _ => True) (State.init endowment)
      (queueEvents 0 11 10 1 ++ [.tick 0, .expire 0])).map
        (fun s => ((elemAt s.pending_transactions 0).isSome, s.answers.length, s.writes.length,
          s.pendingtransactions)) = some (true, 0, 0, []) := by decide +kernel
  obtain ⟨s, run, h⟩ := exists_run_of_exec _ hexec
  simp only [Prod.mk.injEq] at h
  obtain ⟨hsome, hanswers, hwrites, hdocs⟩ := h
  obtain ⟨pe, hpe⟩ := Option.isSome_iff_exists.mp hsome
  have hwritten : written s.writes pe.trid = 0 := by
    rw [List.eq_nil_of_length_eq_zero hwrites]
    rfl
  obtain ⟨d, hd, -⟩ := claim endowment s run 0 pe hpe
    (fun x hx => by rw [List.eq_nil_of_length_eq_zero hanswers] at hx; cases hx) hwritten
  rw [hdocs] at hd
  cases hd

end Sample

end SchuleAlsStaat.Pending
