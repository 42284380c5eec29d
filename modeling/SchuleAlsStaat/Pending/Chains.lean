import SchuleAlsStaat.Pending.Model

/-!
# Chains of callbacks

A granted permission starts a *chain* for an element: a `getBalance` call and
then a `write` call.  The element stays in its slot until the chain ends.  A
second permission for the element, from an earlier or a later tick, starts a
second chain if it arrives before that.

`NoOverlap` is the condition that this does not happen.  Under it every element
has at most one chain and its intent is written at most once.  The invariant is
`Chains`, with one lemma for each kind of step and `Chains.step` for all of
them.
-/

namespace SchuleAlsStaat.Pending

open Calls Runs

/-! ## Counting by intent -/

/-- Unconfirmed saves of intent `t`. -/
def saving (l : List IntentCall) (t : ObjectId) : ℕ :=
  l.countP fun c => c.pt._id = t && c.phase.open?

/-- Slots that hold the element of intent `t`. -/
def queued (l : List Slot) (t : ObjectId) : ℕ :=
  l.countP fun sl => sl.elem.any fun pe => pe.trid = t

/-- Chains of intent `t` that wait for the balance. -/
def summing (l : List BalanceCall) (t : ObjectId) : ℕ :=
  l.countP fun c => c.trid = t && c.sums.live

/-- The write belongs to intent `t`. -/
def WriteCall.isFor (c : WriteCall) (t : ObjectId) : Bool := c.origin.any fun o => o.2 = t

theorem WriteCall.isFor_eq_true {c : WriteCall} {t : ObjectId} :
    c.isFor t = true ↔ ∃ i, c.origin = some (i, t) := by
  rw [WriteCall.isFor]
  cases c.origin with
  | none => simp
  | some o => simp [Prod.ext_iff]

theorem WriteCall.origin_cases (c : WriteCall) :
    c.origin = none ∨ ∃ i t, c.origin = some (i, t) := by
  rcases c.origin with _ | ⟨i, t⟩
  · exact .inl rfl
  · exact .inr ⟨i, t, rfl⟩

@[simp] theorem WriteCall.isFor_phase (c : WriteCall) (p : Phase Bool) (t : ObjectId) :
    ({ c with phase := p } : WriteCall).isFor t = c.isFor t := rfl

/-- Chains of intent `t` that wait for the write to be confirmed. -/
def writing (l : List WriteCall) (t : ObjectId) : ℕ :=
  l.countP fun c => c.isFor t && c.phase.open?

/-- Entries written for intent `t`. -/
def written (l : List WriteCall) (t : ObjectId) : ℕ :=
  l.countP fun c => c.isFor t && c.phase.outcome = some true

/-- Entries written for intent `t` whose chain has not ended. -/
def unconfirmed (l : List WriteCall) (t : ObjectId) : ℕ :=
  l.countP fun c => c.isFor t && c.phase = .replied true

theorem unconfirmed_le_written (l : List WriteCall) (t : ObjectId) :
    unconfirmed l t ≤ written l t :=
  List.countP_mono_left fun c _ h => by
    simp only [Bool.and_eq_true, decide_eq_true_eq] at h ⊢
    exact ⟨h.1, by rw [h.2]; rfl⟩

theorem unconfirmed_le_writing (l : List WriteCall) (t : ObjectId) :
    unconfirmed l t ≤ writing l t :=
  List.countP_mono_left fun c _ h => by
    simp only [Bool.and_eq_true, decide_eq_true_eq] at h ⊢
    exact ⟨h.1, by rw [h.2]; rfl⟩

/-- No permission arrives for an element that has a chain. -/
def NoOverlap (s : State) : Event → Prop
  | .checkReply n => ∀ c ∈ s.checks[n]?, c.phase = .replied (some true) →
      ∀ pe ∈ elemAt s.pending_transactions c.slot,
        summing s.balances pe.trid = 0 ∧ writing s.writes pe.trid = 0
  | _ => True

instance (s : State) (e : Event) : Decidable (NoOverlap s e) :=
  match e with
  | .checkReply _ => inferInstanceAs (Decidable (∀ _ ∈ _, _))
  | .intent .. | .spawn .. | .intentDb .. | .intentReply _ | .tick _ | .checkDb .. | .checkFail _
  | .sumDb .. | .sumReply .. | .writeDb .. | .writeReply _ | .removeDb .. | .expire _
  | .delete _ => isTrue trivial

/-! ## Slots -/

section Slots

variable {l l' : List Slot} {i j : ℕ} {pe : Elem}

theorem elemAt_eq_some : elemAt l i = some pe ↔ ∃ w, l[i]? = some ⟨w, some pe⟩ := by
  rw [elemAt]
  rw [Option.bind_eq_some_iff]
  constructor
  · rintro ⟨⟨w, e⟩, hsl, rfl⟩
    exact ⟨w, hsl⟩
  · rintro ⟨w, hsl⟩
    exact ⟨_, hsl, rfl⟩

theorem elemAt_deleteAt : elemAt (deleteAt l i) j = if i = j then none else elemAt l j := by
  rw [elemAt, elemAt, deleteAt]
  by_cases h : i = j
  · subst h
    cases hs : l[i]? <;> simp [hs]
  · simp [h]

theorem elemAt_append (h : elemAt l i = some pe) : elemAt (l ++ l') i = some pe := by
  obtain ⟨w, hw⟩ := elemAt_eq_some.mp h
  exact elemAt_eq_some.mpr ⟨w, Calls.getElem?_append_of_some hw l'⟩

/-- A push adds one element. -/
theorem elemAt_concat {w : WorkerId} {pe' : Elem}
    (h : elemAt (l ++ [⟨w, some pe'⟩]) i = some pe) : elemAt l i = some pe ∨ pe = pe' := by
  obtain ⟨w', h⟩ := elemAt_eq_some.mp h
  rcases List.mem_append.mp (mem_of_getElem? h) with hmem | hmem
  · rw [List.getElem?_append] at h
    split at h
    · exact .inl (elemAt_eq_some.mpr ⟨w', h⟩)
    · have := mem_of_getElem? h
      simp only [List.mem_singleton, Slot.mk.injEq, Option.some.injEq] at this
      exact .inr this.2
  · simp only [List.mem_singleton, Slot.mk.injEq, Option.some.injEq] at hmem
    exact .inr hmem.2

/-- A slot is emptied or stays as it is. -/
theorem getElem?_deleteAt {sl : Slot} (h : l[j]? = some sl) :
    ∃ sl', (deleteAt l i)[j]? = some sl' ∧ ∀ pe, sl'.elem = some pe → sl.elem = some pe := by
  rw [deleteAt]
  rw [List.getElem?_modify, h]
  by_cases hij : i = j
  · exact ⟨{ sl with elem := none }, by simp [hij], by simp⟩
  · exact ⟨sl, by simp [hij], fun _ hpe => hpe⟩

/-- Deleting a slot takes its element out of the queue. -/
theorem queued_deleteAt (h : elemAt l i = some pe) (t : ObjectId) :
    queued (deleteAt l i) t + (if pe.trid = t then 1 else 0) = queued l t := by
  obtain ⟨w, hw⟩ := elemAt_eq_some.mp h
  rw [queued, queued, deleteAt]
  rw [List.modify_eq_set_getElem?, hw]
  have := countP_set (fun sl : Slot => sl.elem.any fun pe => pe.trid = t) hw
    ({ worker := w, elem := none } : Slot)
  simpa using this

/-- An element in a slot is queued. -/
theorem queued_pos (h : elemAt l i = some pe) : 0 < queued l pe.trid := by
  obtain ⟨w, hw⟩ := elemAt_eq_some.mp h
  exact countP_pos_of_getElem? hw (by simp)

/-- The checks of a tick ask for the elements in their slots. -/
theorem mem_tickChecks {w : WorkerId} {c : CheckCall} (h : c ∈ tickChecks l w) :
    c.phase = .sent ∧ ∃ pe, elemAt l c.slot = some pe ∧ pe.trid = c.trid ∧ pe.sender = c.sender ∧
      pe.answer = c.answer := by
  rw [tickChecks] at h
  rw [List.mem_filterMap] at h
  obtain ⟨⟨sl, i⟩, hmem, hsome⟩ := h
  split at hsome
  next =>
    obtain ⟨pe, hpe, rfl⟩ := Option.map_eq_some_iff.mp hsome
    have hi : l[i]? = some sl := List.mk_mem_zipIdx_iff_getElem?.mp hmem
    refine ⟨rfl, pe, ?_, rfl, rfl, rfl⟩
    simpa [elemAt, hi] using hpe
  next => cases hsome

end Slots

/-! ## How the counts move -/

section Counts

variable (t : ObjectId)

theorem saving_concat (l : List IntentCall) (c : IntentCall) :
    saving (l ++ [c]) t = saving l t + if c.pt._id = t ∧ c.phase.open? then 1 else 0 := by
  simp [saving, List.countP_append, List.countP_singleton]

theorem saving_set {l : List IntentCall} {n : ℕ} {c : IntentCall} (h : l[n]? = some c)
    (c' : IntentCall) :
    saving (l.set n c') t + (if c.pt._id = t ∧ c.phase.open? then 1 else 0) =
      saving l t + if c'.pt._id = t ∧ c'.phase.open? then 1 else 0 := by
  simpa [saving] using countP_set (fun c : IntentCall => c.pt._id = t && c.phase.open?) h c'

theorem queued_concat (l : List Slot) (w : WorkerId) (pe : Elem) :
    queued (l ++ [⟨w, some pe⟩]) t = queued l t + if pe.trid = t then 1 else 0 := by
  simp [queued, List.countP_append, List.countP_singleton]

theorem summing_concat (l : List BalanceCall) (c : BalanceCall) :
    summing (l ++ [c]) t = summing l t + if c.trid = t ∧ c.sums.live then 1 else 0 := by
  simp [summing, List.countP_append, List.countP_singleton]

theorem summing_set {l : List BalanceCall} {n : ℕ} {c : BalanceCall} (h : l[n]? = some c)
    (c' : BalanceCall) :
    summing (l.set n c') t + (if c.trid = t ∧ c.sums.live then 1 else 0) =
      summing l t + if c'.trid = t ∧ c'.sums.live then 1 else 0 := by
  simpa [summing] using countP_set (fun c : BalanceCall => c.trid = t && c.sums.live) h c'

theorem writing_concat (l : List WriteCall) (c : WriteCall) :
    writing (l ++ [c]) t = writing l t + if c.isFor t ∧ c.phase.open? then 1 else 0 := by
  simp [writing, List.countP_append, List.countP_singleton]

theorem writing_set {l : List WriteCall} {n : ℕ} {c : WriteCall} (h : l[n]? = some c)
    (c' : WriteCall) :
    writing (l.set n c') t + (if c.isFor t ∧ c.phase.open? then 1 else 0) =
      writing l t + if c'.isFor t ∧ c'.phase.open? then 1 else 0 := by
  simpa [writing] using countP_set (fun c : WriteCall => c.isFor t && c.phase.open?) h c'

theorem written_concat (l : List WriteCall) (c : WriteCall) (h : c.phase = .sent) :
    written (l ++ [c]) t = written l t := by
  simp [written, List.countP_append, h]

theorem written_set {l : List WriteCall} {n : ℕ} {c : WriteCall} (h : l[n]? = some c)
    (c' : WriteCall) :
    written (l.set n c') t + (if c.isFor t ∧ c.phase.outcome = some true then 1 else 0) =
      written l t + if c'.isFor t ∧ c'.phase.outcome = some true then 1 else 0 := by
  simpa [written] using countP_set (fun c : WriteCall => c.isFor t && c.phase.outcome = some true) h c'

theorem unconfirmed_concat (l : List WriteCall) (c : WriteCall) (h : c.phase = .sent) :
    unconfirmed (l ++ [c]) t = unconfirmed l t := by
  simp [unconfirmed, List.countP_append, h]

theorem unconfirmed_set {l : List WriteCall} {n : ℕ} {c : WriteCall} (h : l[n]? = some c)
    (c' : WriteCall) :
    unconfirmed (l.set n c') t + (if c.isFor t ∧ c.phase = .replied true then 1 else 0) =
      unconfirmed l t + if c'.isFor t ∧ c'.phase = .replied true then 1 else 0 := by
  simpa [unconfirmed] using countP_set (fun c : WriteCall => c.isFor t && c.phase = .replied true) h c'

end Counts

/-! ## The invariant -/

/-- Every chain belongs to the element in its slot, an element has at most one
chain, and an intent is written at most once. -/
structure Chains (s : State) : Prop where
  fresh : ∀ t, s.nextId ≤ t → saving s.intents t + queued s.pending_transactions t +
    summing s.balances t + writing s.writes t + written s.writes t = 0
  checks : ∀ c ∈ s.checks, ∃ sl, s.pending_transactions[c.slot]? = some sl ∧
    ∀ pe, sl.elem = some pe → pe.trid = c.trid ∧ pe.sender = c.sender
  balances : ∀ c ∈ s.balances, c.pe.trid = c.trid ∧
    (c.sums.live = true → elemAt s.pending_transactions c.slot = some c.pe)
  writes : ∀ c ∈ s.writes, ∀ i t, c.origin = some (i, t) → c.phase.open? = true →
    ∃ pe, elemAt s.pending_transactions i = some pe ∧ pe.trid = t
  one : ∀ t, summing s.balances t + writing s.writes t ≤ queued s.pending_transactions t
  once : ∀ t, written s.writes t + saving s.intents t + queued s.pending_transactions t ≤
    1 + unconfirmed s.writes t

namespace Chains

variable {s : State}

/-- No intent is written twice. -/
theorem written_le_one (h : Chains s) (t : ObjectId) : written s.writes t ≤ 1 := by
  have h1 := h.one t
  have h2 := h.once t
  have h3 := unconfirmed_le_writing s.writes t
  omega

/-- An element sits in one slot only, and its intent is saved. -/
theorem queued_le_one (h : Chains s) (t : ObjectId) :
    saving s.intents t + queued s.pending_transactions t ≤ 1 := by
  have h1 := h.once t
  have h2 := unconfirmed_le_written s.writes t
  omega

/-- The element of a chain that waits for the balance has nothing written. -/
theorem of_summing (h : Chains s) {t : ObjectId} (ht : 0 < summing s.balances t) :
    summing s.balances t = 1 ∧ writing s.writes t = 0 ∧ written s.writes t = 0 := by
  have h1 := h.one t
  have h2 := h.once t
  have h3 := h.queued_le_one t
  have h4 := unconfirmed_le_writing s.writes t
  omega

theorem init (L : Ledger) : Chains (State.init L) := by
  constructor <;>
    simp [State.init, saving, queued, summing, writing, written, unconfirmed]

/-! ### Saving an intent -/

theorem intent (h : Chains s) (w : WorkerId) (now : Time) (sender : ObjectId) (entry : Draft)
    (answer : Client) : Chains (s.intent w now sender entry answer) := by
  refine ⟨fun t ht => ?_, h.checks, h.balances, h.writes, h.one, fun t => ?_⟩
  · have h1 := h.fresh t (Nat.le_of_succ_le ht)
    have hne : s.nextId ≠ t := Nat.ne_of_lt ht
    simp only [State.intent, saving_concat, hne, false_and, if_false]
    omega
  · have h1 := h.once t
    simp only [State.intent, saving_concat, Phase.open?_sent, and_true]
    split
    next heq =>
      have h2 := h.fresh t heq.le
      omega
    next => omega

theorem intentDb (h : Chains s) {n : ℕ} {c : IntentCall} (hc : s.intents[n]? = some c)
    (hp : c.phase = .sent) (ok : Bool) (docs : List PendingTransaction) :
    Chains { s with
      intents := s.intents.set n { c with phase := .replied ok }
      pendingtransactions := docs } := by
  have same : ∀ t, saving (s.intents.set n { c with phase := .replied ok }) t =
      saving s.intents t := by
    intro t
    have := saving_set t hc { c with phase := .replied ok }
    simpa [hp] using this
  refine ⟨fun t ht => ?_, h.checks, h.balances, h.writes, h.one, fun t => ?_⟩
  · rw [same]
    exact h.fresh t ht
  · rw [same]
    exact h.once t

/-- The save of an intent fails. -/
theorem intentFailed (h : Chains s) {n : ℕ} {c : IntentCall} (hc : s.intents[n]? = some c)
    (answers : List Sent) :
    Chains { s with
      intents := s.intents.set n { c with phase := .done false }
      answers := answers } := by
  have less : ∀ t, saving (s.intents.set n { c with phase := .done false }) t ≤
      saving s.intents t := by
    intro t
    have := saving_set t hc { c with phase := .done false }
    simp only [Phase.open?_done] at this
    simp at this
    omega
  refine ⟨fun t ht => ?_, h.checks, h.balances, h.writes, h.one, fun t => ?_⟩
  · have h1 := h.fresh t ht
    have h2 := less t
    dsimp only
    omega
  · have h1 := h.once t
    have h2 := less t
    dsimp only
    omega

/-- The save of an intent is confirmed and its element is queued. -/
theorem intentSaved (h : Chains s) {n : ℕ} {c : IntentCall} (hc : s.intents[n]? = some c)
    (hp : c.phase = .replied true) :
    Chains (State.transaction_queue { s with
      intents := s.intents.set n { c with phase := .done true } } c) := by
  have less : ∀ t, saving (s.intents.set n { c with phase := .done true }) t +
      (if c.pt._id = t then 1 else 0) = saving s.intents t := by
    intro t
    have := saving_set t hc { c with phase := .done true }
    simpa [hp] using this
  refine ⟨fun t ht => ?_, fun k hk => ?_, fun k hk => ?_, fun k hk i t ho hop => ?_, fun t => ?_,
    fun t => ?_⟩
  · have h1 := h.fresh t ht
    have h2 := less t
    simp only [State.transaction_queue, queued_concat]
    omega
  · obtain ⟨sl, hsl, hel⟩ := h.checks k hk
    exact ⟨sl, Calls.getElem?_append_of_some hsl _, hel⟩
  · exact ⟨(h.balances k hk).1, fun hl => elemAt_append ((h.balances k hk).2 hl)⟩
  · obtain ⟨pe, hpe, htrid⟩ := h.writes k hk i t ho hop
    exact ⟨pe, elemAt_append hpe, htrid⟩
  · have h1 := h.one t
    simp only [State.transaction_queue, queued_concat]
    omega
  · have h1 := h.once t
    have h2 := less t
    simp only [State.transaction_queue, queued_concat]
    omega

/-! ### Asking for permission -/

/-- A check that moves to another phase stays a check of its element. -/
theorem setCheck (h : Chains s) {n : ℕ} {c : CheckCall} (hc : s.checks[n]? = some c)
    (p : Phase (Option Bool)) (answers : List Sent) :
    Chains { s with
      checks := s.checks.set n { c with phase := p }
      answers := answers } :=
  ⟨h.fresh, forall_mem_set n h.checks (h.checks c (mem_of_getElem? hc)), h.balances, h.writes,
    h.one, h.once⟩

theorem tick (h : Chains s) (w : WorkerId) :
    Chains { s with checks := s.checks ++ tickChecks s.pending_transactions w } := by
  refine ⟨h.fresh, forall_mem_append h.checks fun c hc => ?_, h.balances, h.writes, h.one, h.once⟩
  obtain ⟨-, pe, hpe, htrid, hsender, -⟩ := mem_tickChecks hc
  obtain ⟨w', hsl⟩ := elemAt_eq_some.mp hpe
  refine ⟨_, hsl, fun pe' hpe' => ?_⟩
  cases hpe'
  exact ⟨htrid, hsender⟩

/-- A permission starts the chain of an element that has none. -/
theorem onWritePermission (h : Chains s) {i : ℕ} {trid : ObjectId}
    (hpe : ∀ pe ∈ elemAt s.pending_transactions i,
      pe.trid = trid ∧ summing s.balances pe.trid = 0 ∧ writing s.writes pe.trid = 0) :
    Chains (s.onWritePermission i trid) := by
  rw [State.onWritePermission]
  cases he : elemAt s.pending_transactions i with
  | none => exact h
  | some pe =>
      obtain ⟨rfl, hsum, hwri⟩ := hpe pe he
      have hpos := queued_pos he
      refine ⟨fun t ht => ?_, h.checks, forall_mem_concat h.balances ⟨rfl, fun _ => he⟩, h.writes,
        fun t => ?_, h.once⟩
      · have h1 := h.fresh t ht
        have hne : pe.trid ≠ t := by
          rintro rfl
          omega
        simp only [summing_concat, hne, false_and, if_false]
        omega
      · have h1 := h.one t
        simp only [summing_concat, Aggregations.live_start, and_true]
        split
        next heq =>
          subst heq
          omega
        next => exact h1

/-! ### Summing the balance -/

/-- The sums of a chain change and the chain does not come back to life. -/
theorem setSums (h : Chains s) {n : ℕ} {c : BalanceCall} (hc : s.balances[n]? = some c)
    {sums : Aggregations} (live : sums.live = true → c.sums.live = true) (answers : List Sent) :
    Chains { s with
      balances := s.balances.set n { c with sums := sums }
      answers := answers } := by
  have less : ∀ t, summing (s.balances.set n { c with sums := sums }) t ≤ summing s.balances t := by
    intro t
    have h1 := summing_set t hc { c with sums := sums }
    have h2 : (if c.trid = t ∧ sums.live = true then 1 else 0) ≤
        if c.trid = t ∧ c.sums.live = true then 1 else 0 := by
      split
      next hl => rw [if_pos ⟨hl.1, live hl.2⟩]
      next => exact Nat.zero_le _
    dsimp only at h1
    omega
  refine ⟨fun t ht => ?_, h.checks, forall_mem_set n h.balances ?_, h.writes, fun t => ?_, h.once⟩
  · have h1 := h.fresh t ht
    have h2 := less t
    dsimp only
    omega
  · obtain ⟨htrid, hel⟩ := h.balances c (mem_of_getElem? hc)
    exact ⟨htrid, fun hl => hel (live hl)⟩
  · have h1 := h.one t
    have h2 := less t
    dsimp only
    omega

/-- A write starts for an element without a chain, or for no element. -/
theorem transaction_write (h : Chains s) {origin : Option (ℕ × ObjectId)} (entry : Draft)
    (answer : Client)
    (ho : ∀ i t, origin = some (i, t) →
      (∃ pe, elemAt s.pending_transactions i = some pe ∧ pe.trid = t) ∧
        summing s.balances t + writing s.writes t = 0) :
    Chains (s.transaction_write origin entry answer) := by
  refine ⟨fun t ht => ?_, h.checks, h.balances,
    forall_mem_concat h.writes fun i t heq _ => (ho i t heq).1, fun t => ?_, fun t => ?_⟩
  · have h1 := h.fresh t ht
    have hne : ¬ WriteCall.isFor ⟨origin, entry, answer, .sent⟩ t = true := by
      intro hfor
      obtain ⟨i, heq⟩ := WriteCall.isFor_eq_true.mp hfor
      obtain ⟨⟨pe, hpe, htrid⟩, -⟩ := ho i t heq
      have hpos := queued_pos hpe
      rw [htrid] at hpos
      omega
    simp only [State.transaction_write, writing_concat, written_concat, hne,
      Bool.false_eq_true, false_and, if_false]
    omega
  · have h1 := h.one t
    simp only [State.transaction_write, writing_concat, Phase.open?_sent, and_true]
    split
    next hfor =>
      obtain ⟨i, heq⟩ := WriteCall.isFor_eq_true.mp hfor
      obtain ⟨⟨pe, hpe, htrid⟩, hz⟩ := ho i t heq
      have hpos := queued_pos hpe
      rw [htrid] at hpos
      omega
    next => exact h1
  · simp only [State.transaction_write, written_concat, unconfirmed_concat]
    exact h.once t

/-- An element leaves its slot as its chain ends.  The writes are now `ws`, and
none of them belongs to a chain of the element. -/
theorem finish (h : Chains s) {i : ℕ} {pe : Elem} {ws : List WriteCall}
    (he : elemAt s.pending_transactions i = some pe)
    (mem : ∀ c ∈ ws, c.phase.open? = true → c ∈ s.writes)
    (less : ∀ t, writing ws t ≤ writing s.writes t)
    (less' : ∀ t, written ws t ≤ written s.writes t)
    (free : summing s.balances pe.trid = 0 ∧ writing ws pe.trid = 0)
    (once : ∀ t, written ws t + saving s.intents t + queued s.pending_transactions t ≤
      1 + unconfirmed ws t + if pe.trid = t then 1 else 0)
    (answers : List Sent) (removes : List RemoveCall) :
    Chains { s with
      pending_transactions := deleteAt s.pending_transactions i
      writes := ws
      answers := answers
      removes := removes } := by
  have gone := queued_deleteAt he
  -- a chain whose slot is emptied would be a chain of `pe`
  have other : ∀ j pe', elemAt s.pending_transactions j = some pe' → pe'.trid ≠ pe.trid →
      elemAt (deleteAt s.pending_transactions i) j = some pe' := by
    intro j pe' hj ne
    rw [elemAt_deleteAt, if_neg, hj]
    rintro rfl
    exact ne (congrArg Elem.trid (Option.some.inj (hj.symm.trans he)))
  refine ⟨fun t ht => ?_, fun k hk => ?_, fun k hk => ?_, fun k hk j t ho hop => ?_, fun t => ?_,
    fun t => ?_⟩
  · have h1 := h.fresh t ht
    have h2 := gone t
    have h3 := less t
    have h4 := less' t
    dsimp only
    omega
  · obtain ⟨sl, hsl, hel⟩ := h.checks k hk
    obtain ⟨sl', hsl', hel'⟩ := getElem?_deleteAt (i := i) hsl
    exact ⟨sl', hsl', fun pe' hpe' => hel pe' (hel' pe' hpe')⟩
  · obtain ⟨htrid, hel⟩ := h.balances k hk
    refine ⟨htrid, fun hl => other k.slot k.pe (hel hl) fun eq => ?_⟩
    have : 0 < summing s.balances pe.trid :=
      List.countP_pos_iff.mpr ⟨k, hk, by simp [← htrid, eq, hl]⟩
    omega
  · obtain ⟨pe', hpe', htrid⟩ := h.writes k (mem k hk hop) j t ho hop
    refine ⟨pe', other j pe' hpe' fun eq => ?_, htrid⟩
    have : 0 < writing ws pe.trid :=
      List.countP_pos_iff.mpr ⟨k, hk, by simp [WriteCall.isFor, ho, ← htrid, eq, hop]⟩
    omega
  · have h1 := h.one t
    have h2 := gone t
    have h3 := less t
    dsimp only
    split at h2
    next heq =>
      subst heq
      omega
    next => omega
  · have h1 := once t
    have h2 := gone t
    dsimp only
    omega

/-- The callback on the balance ends the chain or goes on to the write. -/
theorem onBalance (h : Chains s) {c : BalanceCall} (htrid : c.pe.trid = c.trid)
    (he : elemAt s.pending_transactions c.slot = some c.pe)
    (free : summing s.balances c.trid + writing s.writes c.trid = 0) (bal : ℚ) :
    Chains (s.onBalance c bal) := by
  rw [State.onBalance]
  split
  · refine h.finish he (fun _ hk _ => hk) (fun _ => le_rfl) (fun _ => le_rfl) ?_ (fun t => ?_) _ _
    · rw [htrid]
      omega
    · have := h.once t
      omega
  · refine h.transaction_write _ _ fun i t heq => ?_
    cases heq
    exact ⟨⟨c.pe, he, htrid⟩, free⟩

/-! ### Writing the entry -/

theorem writeDb (h : Chains s) {n : ℕ} {c : WriteCall} (hc : s.writes[n]? = some c)
    (hp : c.phase = .sent) (ok : Bool) (L : Ledger) :
    Chains { s with
      writes := s.writes.set n { c with phase := .replied ok }
      transactions := L } := by
  have writing : ∀ t, writing (s.writes.set n { c with phase := .replied ok }) t =
      writing s.writes t := by
    intro t
    have := writing_set t hc { c with phase := .replied ok }
    simpa [hp] using this
  have written : ∀ t, written (s.writes.set n { c with phase := .replied ok }) t =
      written s.writes t + if c.isFor t ∧ ok = true then 1 else 0 := by
    intro t
    have := written_set t hc { c with phase := .replied ok }
    simpa [hp] using this
  have unconfirmed : ∀ t, unconfirmed (s.writes.set n { c with phase := .replied ok }) t =
      unconfirmed s.writes t + if c.isFor t ∧ ok = true then 1 else 0 := by
    intro t
    have := unconfirmed_set t hc { c with phase := .replied ok }
    simpa [hp] using this
  refine ⟨fun t ht => ?_, h.checks, h.balances,
    forall_mem_set n h.writes fun i t ho _ => h.writes c (mem_of_getElem? hc) i t ho (by simp [hp]),
    fun t => ?_, fun t => ?_⟩
  · have h1 := h.fresh t ht
    have hne : ¬ (c.isFor t = true ∧ ok = true) := by
      rintro ⟨hfor, -⟩
      have : 0 < Pending.writing s.writes t := countP_pos_of_getElem? hc (by simp [hfor, hp])
      omega
    simp only [writing, written, if_neg hne]
    omega
  · simp only [writing]
    exact h.one t
  · have h1 := h.once t
    simp only [written, unconfirmed]
    omega

/-- The write of an entry failed and its chain ends with the element in its
slot. -/
theorem writeFailed (h : Chains s) {n : ℕ} {c : WriteCall} (hc : s.writes[n]? = some c)
    (hp : c.phase = .replied false) (answers : List Sent) :
    Chains { s with
      writes := s.writes.set n { c with phase := .done false }
      answers := answers } := by
  have writing : ∀ t, writing (s.writes.set n { c with phase := .done false }) t ≤
      writing s.writes t := by
    intro t
    have := writing_set t hc { c with phase := .done false }
    simp [hp] at this
    omega
  have written : ∀ t, written (s.writes.set n { c with phase := .done false }) t =
      written s.writes t := by
    intro t
    have := written_set t hc { c with phase := .done false }
    simpa [hp] using this
  have unconfirmed : ∀ t, unconfirmed (s.writes.set n { c with phase := .done false }) t =
      unconfirmed s.writes t := by
    intro t
    have := unconfirmed_set t hc { c with phase := .done false }
    simpa [hp] using this
  refine ⟨fun t ht => ?_, h.checks, h.balances, forall_mem_set n h.writes fun _ _ _ hop => ?_,
    fun t => ?_, fun t => ?_⟩
  · have h1 := h.fresh t ht
    have h2 := writing t
    simp only [written]
    omega
  · cases hop
  · have h1 := h.one t
    have h2 := writing t
    dsimp only
    omega
  · simp only [written, unconfirmed]
    exact h.once t

/-- The write of an entry is confirmed. -/
theorem onWritten (h : Chains s) {n : ℕ} {c : WriteCall} (hc : s.writes[n]? = some c)
    (hp : c.phase = .replied true) :
    Chains (State.onWritten { s with writes := s.writes.set n { c with phase := .done true } } c) := by
  have writing : ∀ t, writing (s.writes.set n { c with phase := .done true }) t +
      (if c.isFor t = true then 1 else 0) = writing s.writes t := by
    intro t
    have := writing_set t hc { c with phase := .done true }
    simpa [hp] using this
  have written : ∀ t, written (s.writes.set n { c with phase := .done true }) t =
      written s.writes t := by
    intro t
    have := written_set t hc { c with phase := .done true }
    simpa [hp] using this
  have unconfirmed : ∀ t, unconfirmed (s.writes.set n { c with phase := .done true }) t +
      (if c.isFor t = true then 1 else 0) = unconfirmed s.writes t := by
    intro t
    have := unconfirmed_set t hc { c with phase := .done true }
    simpa [hp] using this
  obtain ho | ⟨i, t, ho⟩ := c.origin_cases
  · have hfor : ∀ t, c.isFor t = false := by simp [WriteCall.isFor, ho]
    simp only [hfor, Bool.false_eq_true, if_false, add_zero] at writing unconfirmed
    rw [State.onWritten_none ho]
    refine ⟨fun t ht => ?_, h.checks, h.balances, forall_mem_set n h.writes fun _ _ _ hop => ?_,
      fun t => ?_, fun t => ?_⟩
    · simp only [State.send, writing, written]
      exact h.fresh t ht
    · cases hop
    · simp only [State.send, writing]
      exact h.one t
    · simp only [State.send, written, unconfirmed]
      exact h.once t
  · have hfor : ∀ t', c.isFor t' = decide (t = t') := by simp [WriteCall.isFor, ho]
    obtain ⟨pe, he, rfl⟩ := h.writes c (mem_of_getElem? hc) i t ho (by simp [hp])
    simp only [hfor, decide_eq_true_eq] at writing unconfirmed
    rw [State.onWritten_some ho]
    refine h.finish he (fun k hk hop => ?_) (fun t' => ?_) (fun t' => (written t').le) ⟨?_, ?_⟩
      (fun t' => ?_) _ _
    · rcases List.mem_or_eq_of_mem_set hk with hk | rfl
      · exact hk
      · cases hop
    · have := writing t'
      omega
    · have h1 := h.one pe.trid
      have h2 := h.queued_le_one pe.trid
      have h3 := writing pe.trid
      rw [if_pos rfl] at h3
      omega
    · have h1 := h.one pe.trid
      have h2 := h.queued_le_one pe.trid
      have h3 := writing pe.trid
      rw [if_pos rfl] at h3
      omega
    · have h1 := h.once t'
      have h2 := unconfirmed t'
      rw [written]
      omega

/-! ### Every step -/

theorem sumReply (h : Chains s) {n : ℕ} {c : BalanceCall} (hc : s.balances[n]? = some c)
    {a : Aggregation} {r : Option ℚ} (hr : c.sums.get a = .replied r) {bal : ℚ}
    (hb : (c.sums.set (.done r) a).aggregationComplete = some bal) :
    Chains (State.onBalance { s with
      balances := s.balances.set n { c with sums := c.sums.set (.done r) a } }
      { c with sums := c.sums.set (.done r) a } bal) := by
  have hlive := Aggregations.live_of_complete hr hb
  have hdead : (c.sums.set (.done r) a).live = false := by simp [Aggregations.live, hb]
  obtain ⟨htrid, hel⟩ := h.balances c (mem_of_getElem? hc)
  have hpos : 0 < summing s.balances c.trid := countP_pos_of_getElem? hc (by simp [hlive])
  obtain ⟨h1, h2, -⟩ := h.of_summing hpos
  have h3 := summing_set c.trid hc { c with sums := c.sums.set (.done r) a }
  simp only [hlive, hdead, and_true, if_true, Bool.false_eq_true, and_false, if_false] at h3
  refine (h.setSums hc (fun hl => ?_) s.answers).onBalance htrid (hel hlive) ?_ bal
  · rw [hdead] at hl
    cases hl
  · dsimp only
    omega

/-- Every step without an overlap keeps the chains apart. -/
theorem step (h : Chains s) {e : Event} (hok : NoOverlap s e) {s' : State}
    (hs : Pending.step s e = some s') : Chains s' := by
  cases step_cases hs with
  | intent w now sender entry answer => exact h.intent w now sender entry answer
  | spawn entry answer => exact h.transaction_write entry answer fun _ _ heq => by cases heq
  | intentDb ok hc hp => exact h.intentDb hc hp ok _
  | queued hc hp => exact h.intentSaved hc hp
  | intentError hc hp => exact h.intentFailed hc _
  | tick w => exact h.tick w
  | checkDb hc hp hf => exact h.setCheck hc _ s.answers
  | checkFail hc hp => exact h.setCheck hc _ s.answers
  | @permitted n c hc hp =>
      refine (h.setCheck hc _ s.answers).onWritePermission fun pe hpe => ⟨?_, hok c hc hp pe hpe⟩
      obtain ⟨sl, hsl, hel⟩ := h.checks c (mem_of_getElem? hc)
      obtain ⟨w, hw⟩ := elemAt_eq_some.mp hpe
      exact (hel pe (by rw [Option.some.inj (hsl.symm.trans hw)])).1
  | refused hc hp => exact h.setCheck hc _ s.answers
  | checkError hc hp => exact h.setCheck hc _ _
  | sumDb ok hc hp => exact h.setSums hc (Aggregations.live_of_live_replied hp) s.answers
  | sumError hc hp => exact h.setSums hc (Aggregations.live_of_live_done hp) _
  | sumWaits hc hp hb => exact h.setSums hc (Aggregations.live_of_live_done hp) s.answers
  | sumComplete hc hp hb => exact h.sumReply hc hp hb
  | saved hc hp hb => exact h.writeDb hc hp true _
  | writeFail hc hp => exact h.writeDb hc hp false s.transactions
  | written hc hp => exact h.onWritten hc hp
  | writeError hc hp => exact h.writeFailed hc hp _
  | removeDb | expire | delete => exact ⟨h.fresh, h.checks, h.balances, h.writes, h.one, h.once⟩

theorem of_run {L : Ledger} (r : Run Pending.step NoOverlap (State.init L) s) : Chains s :=
  r.invariant (Chains.init L) fun _ _ _ h hok hs => h.step hok hs

end Chains

/-! ## At most one entry for each intent -/

/-- When no permission arrives for an element that has a chain, an intent is
written at most once. -/
theorem written_at_most_once {L : Ledger} {s : State}
    (r : Run step NoOverlap (State.init L) s) (t : ObjectId) : written s.writes t ≤ 1 :=
  (Chains.of_run r).written_le_one t

/-- The database executes every call without an error. -/
def NoError (_ : State) : Event → Prop
  | .intentDb _ ok => ok = true
  | .checkFail _ => False
  | .sumDb _ _ ok => ok = true
  | .writeDb _ ok => ok = true
  | .removeDb _ ok => ok = true
  | _ => True

instance (s : State) (e : Event) : Decidable (NoError s e) :=
  match e with
  | .intentDb .. | .sumDb .. | .writeDb .. | .removeDb .. => inferInstanceAs (Decidable (_ = _))
  | .checkFail _ => isFalse False.elim
  | .intent .. | .spawn .. | .intentReply _ | .tick _ | .checkDb .. | .checkReply _ | .sumReply ..
  | .writeReply _ | .expire _ | .delete _ => isTrue trivial

section Sample

/-- The profile of a citizen. -/
def citizen (id : ObjectId) : Profile where
  reference := some id
  special_name := none
  firstname := some "Karl"
  lastname := some "Marx"
  country := some "de"
  type := some "citizen"
  qrid := .str (toString id)

/-- The profile of the magic account, which references no account. -/
def magicAccount : Profile where
  reference := none
  special_name := none
  firstname := none
  lastname := none
  country := none
  type := none
  qrid := .str "Zentralbank"

/-- A ledger in which account `1` has twenty. -/
def endowment : Ledger := [{
  sender := magicAccount
  recipient := citizen 1
  tax_recipient := 0
  time := 0
  amount_sent := 20
  amount_received := 20
  amount_tax := 0
  percent_tax := 0
  comment := none }]

/-- Account `1` sends `sent` to account `2` at ten percent tax. -/
def payment (sent received tax : ℚ) : Draft where
  sender := citizen 1
  recipient := citizen 2
  tax_recipient := 0
  time := 0
  amount_sent := .fin sent
  amount_received := .fin received
  amount_tax := .fin tax
  percent_tax := .fin 10
  comment := some none

/-- The three aggregations of a `getBalance` call and their callbacks. -/
def sumEvents (n : ℕ) : List Event :=
  [.sumDb n .income true, .sumDb n .payments true, .sumDb n .taxincome true,
    .sumReply n .income, .sumReply n .payments, .sumReply n .taxincome]

/-- A payment of account `1` is saved as an intent and queued. -/
def queueEvents (n : ℕ) (sent received tax : ℚ) : List Event :=
  [.intent 0 n 1 (payment sent received tax) ⟨n, some 1⟩, .intentDb n true, .intentReply n]

/-- Account `1` has two intents, and two ticks ask for the first one of them. -/
def twoIntents : List Event :=
  queueEvents 0 11 10 1 ++ queueEvents 1 11 10 1 ++ [.tick 0, .tick 0, .checkDb 0 (some 0),
    .checkDb 1 (some 0), .checkDb 2 (some 0), .checkReply 0, .checkReply 1]

/-- The first one is written before the second permission for it arrives, and for the second one
there is no money left. -/
def twoPayments : List Event :=
  twoIntents ++ sumEvents 0 ++ [.writeDb 0 true, .writeReply 0, .checkReply 2, .removeDb 0 true,
    .checkDb 3 (some 0), .checkReply 3] ++ sumEvents 1

theorem written_at_most_once_twoPayments :
    ∃ s, Run step NoOverlap (State.init endowment) s ∧ written s.writes 0 = 1 ∧
      ∀ t, written s.writes t ≤ 1 := by
  obtain ⟨s, r, h⟩ : ∃ s, Run step NoOverlap (State.init endowment) s ∧
      written s.writes 0 = 1 :=
    exists_run_of_exec twoPayments (by decide +kernel)
  exact ⟨s, r, h, written_at_most_once r⟩

/-- Two ticks ask for the same element before the first permission arrives. -/
def twoTicks : List Event :=
  queueEvents 0 11 10 1 ++ [.tick 0, .tick 0, .checkDb 0 (some 0), .checkDb 1 (some 0),
    .checkReply 0, .checkReply 1] ++ sumEvents 0 ++ sumEvents 1 ++
    [.writeDb 0 true, .writeDb 1 true]

/-- The element is written by both ticks, without an error of the database. -/
theorem two_ticks_write_twice :
    ¬ ∀ (L : Ledger) (s : State), Run step NoError (State.init L) s →
      ∀ t, written s.writes t ≤ 1 := by
  intro claim
  obtain ⟨s, r, h⟩ : ∃ s, Run step NoError (State.init endowment) s ∧
      written s.writes 0 = 2 :=
    exists_run_of_exec twoTicks (by decide +kernel)
  have := claim endowment s r 0
  omega

end Sample

end SchuleAlsStaat.Pending
