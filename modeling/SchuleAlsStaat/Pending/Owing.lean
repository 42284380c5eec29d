import SchuleAlsStaat.Pending.Chains

/-!
# Answers that are owed

A request whose transaction is pending is owed one answer.  Its duty moves from
the save of the intent to the element in the queue, or it rests with the write
of spawned money, and ends with the answer.  `owing` counts the duties of a
request together with the answers it got.

No step raises the count if the chains of an element do not overlap and no
error is answered for an element that stays in the queue (`Confirmed`).
-/

namespace SchuleAlsStaat.Pending

open Calls Runs

/-! ## Counting by request -/

/-- Unconfirmed saves of intents for request `r`. -/
def savingFor (l : List IntentCall) (r : ReqId) : ℕ :=
  l.countP fun c => c.answer.req = r && c.phase.open?

/-- Slots that hold an element for request `r`. -/
def queuedFor (l : List Slot) (r : ReqId) : ℕ :=
  l.countP fun sl => sl.elem.any fun pe => pe.answer.req = r

/-- Unconfirmed writes of spawned money for request `r`. -/
def spawningFor (l : List WriteCall) (r : ReqId) : ℕ :=
  l.countP fun c => (c.origin.isNone && c.answer.req = r) && c.phase.open?

/-- Answers to request `r`. -/
def answeredFor (l : List Sent) (r : ReqId) : ℕ := l.countP fun x => x.client.req = r

/-- The answers to request `r` and the duties to answer it. -/
def owing (s : State) (r : ReqId) : ℕ :=
  savingFor s.intents r + queuedFor s.pending_transactions r + spawningFor s.writes r +
    answeredFor s.answers r

section Counts

variable (r : ReqId)

theorem savingFor_concat (l : List IntentCall) (c : IntentCall) :
    savingFor (l ++ [c]) r = savingFor l r + if c.answer.req = r ∧ c.phase.open? then 1 else 0 := by
  simp [savingFor, List.countP_append, List.countP_singleton]

theorem savingFor_set {l : List IntentCall} {n : ℕ} {c : IntentCall} (h : l[n]? = some c)
    (c' : IntentCall) :
    savingFor (l.set n c') r + (if c.answer.req = r ∧ c.phase.open? then 1 else 0) =
      savingFor l r + if c'.answer.req = r ∧ c'.phase.open? then 1 else 0 := by
  simpa [savingFor] using countP_set (fun c : IntentCall => c.answer.req = r && c.phase.open?) h c'

theorem queuedFor_concat (l : List Slot) (w : WorkerId) (pe : Elem) :
    queuedFor (l ++ [⟨w, some pe⟩]) r = queuedFor l r + if pe.answer.req = r then 1 else 0 := by
  simp [queuedFor, List.countP_append, List.countP_singleton]

theorem queuedFor_deleteAt {l : List Slot} {i : ℕ} {pe : Elem} (h : elemAt l i = some pe) :
    queuedFor (deleteAt l i) r + (if pe.answer.req = r then 1 else 0) = queuedFor l r := by
  obtain ⟨w, hw⟩ := elemAt_eq_some.mp h
  rw [queuedFor, queuedFor, deleteAt, List.modify_eq_set_getElem?, hw]
  have := countP_set (fun sl : Slot => sl.elem.any fun pe => pe.answer.req = r) hw
    ({ worker := w, elem := none } : Slot)
  simpa using this

theorem spawningFor_concat (l : List WriteCall) (c : WriteCall) (h : c.phase = .sent) :
    spawningFor (l ++ [c]) r =
      spawningFor l r + if c.origin = none ∧ c.answer.req = r then 1 else 0 := by
  simp [spawningFor, List.countP_append, List.countP_singleton, h]

theorem spawningFor_set {l : List WriteCall} {n : ℕ} {c : WriteCall} (h : l[n]? = some c)
    (c' : WriteCall) :
    spawningFor (l.set n c') r +
        (if (c.origin = none ∧ c.answer.req = r) ∧ c.phase.open? then 1 else 0) =
      spawningFor l r + if (c'.origin = none ∧ c'.answer.req = r) ∧ c'.phase.open? then 1 else 0 := by
  simpa [spawningFor] using
    countP_set (fun c : WriteCall => (c.origin.isNone && c.answer.req = r) && c.phase.open?) h c'

theorem answeredFor_concat (l : List Sent) (x : Sent) :
    answeredFor (l ++ [x]) r = answeredFor l r + if x.client.req = r then 1 else 0 := by
  simp [answeredFor, List.countP_append, List.countP_singleton]

end Counts

/-! ## The callbacks of the element -/

/-- Every chain of an element answers to the client of the element. -/
structure Duty (s : State) : Prop where
  chains : Chains s
  writes : ∀ c ∈ s.writes, ∀ i t, c.origin = some (i, t) → c.phase.open? = true →
    ∀ pe, elemAt s.pending_transactions i = some pe → pe.answer = c.answer

theorem Duty.init (L : Ledger) : Duty (State.init L) := ⟨.init L, by simp [State.init]⟩

/-- No error is answered for an element that stays in the queue, and spawned
money is not confirmed. -/
def Confirmed (s : State) : Event → Prop
  | .checkReply n => ∀ c ∈ s.checks[n]?, c.phase ≠ .replied none
  | .sumReply n a => ∀ c ∈ s.balances[n]?, c.sums.get a ≠ .replied none
  | .writeReply n => ∀ c ∈ s.writes[n]?, c.phase ≠ .replied c.origin.isNone
  | _ => True

instance (s : State) (e : Event) : Decidable (Confirmed s e) :=
  match e with
  | .checkReply _ => inferInstanceAs (Decidable (∀ _ ∈ _, _))
  | .sumReply .. => inferInstanceAs (Decidable (∀ _ ∈ _, _))
  | .writeReply _ => inferInstanceAs (Decidable (∀ _ ∈ _, _))
  | .intent .. | .spawn .. | .intentDb .. | .intentReply _ | .tick _ | .checkDb .. | .checkFail _
  | .sumDb .. | .writeDb .. | .removeDb .. | .expire _ | .delete _ => isTrue trivial

/-- The duty that an event takes on. -/
def opened (r : ReqId) : Event → ℕ
  | .intent _ _ _ _ answer => if answer.req = r then 1 else 0
  | .spawn _ answer => if answer.req = r then 1 else 0
  | _ => 0

namespace Duty

variable {s s' : State}

/-- The element of a chain that is being written. -/
theorem elem_of_write (h : Duty s) {c : WriteCall} (hc : c ∈ s.writes) {i : ℕ} {t : ObjectId}
    (ho : c.origin = some (i, t)) (hop : c.phase.open? = true) :
    ∃ pe, elemAt s.pending_transactions i = some pe ∧ pe.answer = c.answer := by
  obtain ⟨pe, he, -⟩ := h.chains.writes c hc i t ho hop
  exact ⟨pe, he, h.writes c hc i t ho hop pe he⟩

/-- The chains still answer to the clients of their elements when no element is
replaced. -/
theorem keep (hc : Chains s')
    (hs : ∀ i pe pe', elemAt s.pending_transactions i = some pe →
      elemAt s'.pending_transactions i = some pe' → pe' = pe)
    (hw : ∀ c ∈ s'.writes, ∀ i t, c.origin = some (i, t) → c.phase.open? = true →
      ∃ pe, elemAt s.pending_transactions i = some pe ∧ pe.answer = c.answer) : Duty s' := by
  refine ⟨hc, fun c hmem i t ho hop pe' he' => ?_⟩
  obtain ⟨pe, he, hanswer⟩ := hw c hmem i t ho hop
  rw [hs i pe pe' he he', hanswer]

theorem elemAt_unique {l : List Slot} (i : ℕ) (pe pe' : Elem) (he : elemAt l i = some pe)
    (he' : elemAt l i = some pe') : pe' = pe :=
  Option.some.inj (he'.symm.trans he)

theorem elemAt_deleteAt_unique {l : List Slot} {j : ℕ} (i : ℕ) (pe pe' : Elem)
    (he : elemAt l i = some pe) (he' : elemAt (deleteAt l j) i = some pe') : pe' = pe := by
  rw [elemAt_deleteAt] at he'
  split at he'
  · cases he'
  · exact elemAt_unique i pe pe' he he'

/-- Neither the elements nor the writes change. -/
theorem same (h : Duty s) (hc : Chains s') (hs : s'.pending_transactions = s.pending_transactions)
    (hw : s'.writes = s.writes) : Duty s' := by
  refine keep (s := s) hc (fun i pe pe' he he' => ?_) fun c hmem i t ho hop => ?_
  · rw [hs] at he'
    exact elemAt_unique i pe pe' he he'
  · exact h.elem_of_write (hw ▸ hmem) ho hop

/-- A write that moves to another phase keeps its client. -/
theorem elem_of_setWrite (h : Duty s) {n : ℕ} {c : WriteCall} (hc : s.writes[n]? = some c)
    {p : Phase Bool} (hp : p.open? = true → c.phase.open? = true) :
    ∀ k ∈ s.writes.set n { c with phase := p }, ∀ i t, k.origin = some (i, t) →
      k.phase.open? = true → ∃ pe, elemAt s.pending_transactions i = some pe ∧
        pe.answer = k.answer := by
  intro k hk i t ho hop
  rcases List.mem_or_eq_of_mem_set hk with hmem | rfl
  · exact h.elem_of_write hmem ho hop
  · exact h.elem_of_write (mem_of_getElem? hc) ho (hp hop)

/-- The last sum arrives. -/
theorem sumReply (h : Duty s) {n : ℕ} {c : BalanceCall} (hc : s.balances[n]? = some c)
    {a : Aggregation} {v : Option ℚ} (hr : c.sums.get a = .replied v) {bal : ℚ}
    (hb : (c.sums.set (.done v) a).aggregationComplete = some bal) (hc' : Chains s')
    (hs : s' = State.onBalance { s with
      balances := s.balances.set n { c with sums := c.sums.set (.done v) a } }
      { c with sums := c.sums.set (.done v) a } bal) :
    Duty s' ∧ ∀ r, owing s' r ≤ owing s r := by
  have he : elemAt s.pending_transactions c.slot = some c.pe :=
    (h.chains.balances c (mem_of_getElem? hc)).2 (Aggregations.live_of_complete hr hb)
  rw [State.onBalance] at hs
  split at hs
  next =>
    subst hs
    refine ⟨keep hc' elemAt_deleteAt_unique fun k hk i t ho hop => h.elem_of_write hk ho hop,
      fun r => ?_⟩
    have := queuedFor_deleteAt r he
    simp only [owing, State.deleteSlot, State.writeComplete, State.send, answeredFor_concat]
    omega
  next =>
    subst hs
    refine ⟨keep hc' elemAt_unique fun k hk i t ho hop => ?_, fun r => ?_⟩
    · rcases List.mem_append.mp hk with hk | hk
      · exact h.elem_of_write hk ho hop
      · rw [List.mem_singleton.mp hk] at ho ⊢
        cases ho
        exact ⟨c.pe, he, rfl⟩
    · simp only [owing, State.transaction_write, spawningFor_concat, reduceCtorEq, false_and,
        if_false]
      omega

/-- When a write is answered, no write of spawned money is open in its place. -/
theorem spawningFor_done {n : ℕ} {c : WriteCall} (hc : s.writes[n]? = some c) {ok : Bool}
    (hp : c.phase = .replied ok) (r : ReqId) :
    spawningFor (s.writes.set n { c with phase := .done ok }) r +
      (if c.origin = none ∧ c.answer.req = r then 1 else 0) = spawningFor s.writes r := by
  have := spawningFor_set r hc { c with phase := .done ok }
  simpa [hp] using this

/-- When the save of an intent is answered, it is not open any more. -/
theorem savingFor_done {n : ℕ} {c : IntentCall} (hc : s.intents[n]? = some c) {ok : Bool}
    (hp : c.phase = .replied ok) (r : ReqId) :
    savingFor (s.intents.set n { c with phase := .done ok }) r +
      (if c.answer.req = r then 1 else 0) = savingFor s.intents r := by
  have := savingFor_set r hc { c with phase := .done ok }
  simpa [hp] using this

/-- An element is written and leaves the queue. -/
theorem written (h : Duty s) {n : ℕ} {c : WriteCall} (hc : s.writes[n]? = some c)
    (hp : c.phase = .replied true) {i : ℕ} {t : ObjectId} (ho : c.origin = some (i, t))
    (hc' : Chains (State.onWritten
      { s with writes := s.writes.set n { c with phase := .done true } } c)) :
    Duty (State.onWritten { s with writes := s.writes.set n { c with phase := .done true } } c) ∧
      ∀ r, owing (State.onWritten
        { s with writes := s.writes.set n { c with phase := .done true } } c) r ≤ owing s r := by
  rw [State.onWritten_some ho] at hc' ⊢
  have hw := h.elem_of_setWrite hc (p := .done true) (by simp)
  obtain ⟨pe, he, hanswer⟩ := h.elem_of_write (mem_of_getElem? hc) ho (by simp [hp])
  refine ⟨keep hc' elemAt_deleteAt_unique hw, fun r => ?_⟩
  have h1 := spawningFor_done hc hp r
  have h2 := queuedFor_deleteAt r he
  rw [hanswer] at h2
  simp only [owing, State.deleteSlot, State.writeComplete, State.send, answeredFor_concat]
  omega

/-- The write of spawned money failed and the error is the answer. -/
theorem writeError (h : Duty s) {n : ℕ} {c : WriteCall} (hc : s.writes[n]? = some c)
    (hp : c.phase = .replied false) (ho : c.origin = none) {m : Answer} {trid : Option ObjectId}
    (hc' : Chains (State.send
      { s with writes := s.writes.set n { c with phase := .done false } } c.answer trid m)) :
    Duty (State.send
        { s with writes := s.writes.set n { c with phase := .done false } } c.answer trid m) ∧
      ∀ r, owing (State.send { s with writes := s.writes.set n { c with phase := .done false } }
        c.answer trid m) r ≤ owing s r := by
  refine ⟨keep hc' elemAt_unique (h.elem_of_setWrite hc (by simp)), fun r => ?_⟩
  have h1 := spawningFor_done hc hp r
  have h2 : (if c.origin = none ∧ c.answer.req = r then 1 else 0) =
      if c.answer.req = r then 1 else 0 := by simp [ho]
  simp only [owing, State.send, answeredFor_concat]
  omega

/-- No step raises the number of duties and answers of a request by more than
the duty it takes on. -/
theorem step (h : Duty s) {e : Event} (hno : NoOverlap s e) (hok : Confirmed s e)
    (hs : Pending.step s e = some s') : Duty s' ∧ ∀ r, owing s' r ≤ owing s r + opened r e := by
  have hc' : Chains s' := h.chains.step hno hs
  cases step_cases hs with
  | intent w now sender entry answer =>
      refine ⟨h.same hc' rfl rfl, fun r => ?_⟩
      simp only [owing, State.intent, savingFor_concat, opened, Phase.open?_sent, and_true]
      omega
  | spawn entry answer =>
      refine ⟨keep hc' elemAt_unique fun c hmem i t ho hop => ?_, fun r => ?_⟩
      · rcases List.mem_append.mp hmem with hmem | hmem
        · exact h.elem_of_write hmem ho hop
        · rw [List.mem_singleton.mp hmem] at ho
          cases ho
      · simp only [owing, State.transaction_write, spawningFor_concat, opened, true_and]
        omega
  | @intentDb n c ok hc hp =>
      refine ⟨h.same hc' rfl rfl, fun r => ?_⟩
      have := savingFor_set r hc { c with phase := .replied ok }
      simp only [hp, Phase.open?_sent, Phase.open?_replied] at this
      simp only [owing]
      omega
  | @queued n c hc hp =>
      refine ⟨keep hc' (fun i pe pe' he he' => ?_) fun c hmem i t ho hop =>
        h.elem_of_write hmem ho hop, fun r => ?_⟩
      · exact elemAt_unique i pe pe' (elemAt_append he) he'
      · have := savingFor_done hc hp r
        simp only [owing, State.transaction_queue, queuedFor_concat]
        omega
  | @intentError n c hc hp =>
      refine ⟨h.same hc' rfl rfl, fun r => ?_⟩
      have := savingFor_done hc hp r
      simp only [owing, State.send, answeredFor_concat]
      omega
  | @permitted n c hc hp =>
      have hslots : (State.onWritePermission { s with
          checks := s.checks.set n { c with phase := .done (some true) } } c.slot
            c.trid).pending_transactions = s.pending_transactions ∧
          (State.onWritePermission { s with
          checks := s.checks.set n { c with phase := .done (some true) } } c.slot
            c.trid).writes = s.writes ∧ ∀ r, owing (State.onWritePermission { s with
          checks := s.checks.set n { c with phase := .done (some true) } } c.slot
            c.trid) r = owing s r := by
        rw [State.onWritePermission]
        split <;> exact ⟨rfl, rfl, fun _ => rfl⟩
      exact ⟨h.same hc' hslots.1 hslots.2.1, fun r => (hslots.2.2 r).le⟩
  | checkError hc hp => exact absurd hp (hok _ hc)
  | sumError hc hp => exact absurd hp (hok _ hc)
  | sumComplete hc hp hb => exact h.sumReply hc hp hb hc' rfl
  | @saved n c b hc hp hb =>
      refine ⟨keep hc' elemAt_unique (h.elem_of_setWrite hc (by simp [hp])), fun r => ?_⟩
      have := spawningFor_set r hc { c with phase := .replied true }
      simp only [hp, Phase.open?_sent, Phase.open?_replied] at this
      simp only [owing]
      omega
  | @writeFail n c hc hp =>
      refine ⟨keep hc' elemAt_unique (h.elem_of_setWrite hc (by simp [hp])), fun r => ?_⟩
      have := spawningFor_set r hc { c with phase := .replied false }
      simp only [hp, Phase.open?_sent, Phase.open?_replied] at this
      simp only [owing]
      omega
  | @written n c hc hp =>
      obtain ho | ⟨i, t, ho⟩ := c.origin_cases
      · -- no confirmation of spawned money is allowed
        exact absurd hp (by simpa [ho] using hok c hc)
      · exact h.written hc hp ho hc'
  | @writeError n c hc hp =>
      obtain ho | ⟨i, t, ho⟩ := c.origin_cases
      · exact h.writeError hc hp ho hc'
      · exact absurd hp (by simpa [ho] using hok c hc)
  | _ => exact ⟨h.same hc' rfl rfl, fun r => Nat.le_add_right _ _⟩

end Duty

end SchuleAlsStaat.Pending
