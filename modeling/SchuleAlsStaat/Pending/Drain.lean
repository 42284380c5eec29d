import Mathlib.Data.Finset.Dedup
import Mathlib.Data.Finset.Max
import SchuleAlsStaat.Lib.Draining
import SchuleAlsStaat.Pending.Permission
import SchuleAlsStaat.Pending.Places
import SchuleAlsStaat.Pending.Underway

/-!
# The queue drains

An element of `pending_transactions` waits until its intent is the earliest one
of its sender.  What it waits for is on its way: the intent before it is being
saved, has an element of its own, or is being removed.  So as long as no intent
expires, no removal fails and every entry can be cast, the workers can work off
everything they were handed, and every request of a saved intent is answered
with `"ok"` or `"nomoney"`.
-/

namespace SchuleAlsStaat.Pending

open Calls Runs

variable {s s' : State} {gone : List PendingTransaction}

/-! ## What a visible intent waits for -/

/-- The document goes away without an expiry: it is being saved, its element is
queued, or it is being removed. -/
def Due (l : List IntentCall) (slots : List Slot) (removes : List RemoveCall)
    (d : PendingTransaction) : Prop :=
  ∃ c, l[d._id]? = some c ∧ c.pt = d ∧ (c.phase = .replied true ∨ c.phase = .done true ∧
    ((∃ i pe, elemAt slots i = some pe ∧ pe.trid = d._id) ∨
      ∃ r ∈ removes, r.trid = d._id ∧ r.phase = .sent))

/-- Every document is due. -/
def AllDue (s : State) : Prop :=
  ∀ d ∈ s.pendingtransactions, Due s.intents s.pending_transactions s.removes d

/-- Every entry can be cast, no intent expires and no removal fails. -/
def Lasting (_ : State) : Event → Prop
  | .intent _ _ _ entry _ => entry.cast.isSome = true
  | .spawn entry _ => entry.cast.isSome = true
  | .removeDb _ ok => ok = true
  | .expire _ => False
  | _ => True

instance (s : State) (e : Event) : Decidable (Lasting s e) :=
  match e with
  | .intent .. | .spawn .. | .removeDb .. => inferInstanceAs (Decidable (_ = _))
  | .expire _ => isFalse False.elim
  | .intentDb .. | .intentReply _ | .tick _ | .checkDb .. | .checkFail _ | .checkReply _ | .sumDb ..
  | .sumReply .. | .writeDb .. | .writeReply _ | .delete _ => isTrue trivial

namespace AllDue

theorem init (L : Ledger) : AllDue (State.init L) := by
  simp [AllDue, State.init]

/-- The save of another intent goes on. -/
theorem setIntent (h : AllDue s) {n : ℕ} {c : IntentCall} (hc : s.intents[n]? = some c)
    (hp : c.phase ≠ .done true) (hr : c.phase ≠ .replied true) (p : Phase Bool) :
    ∀ d ∈ s.pendingtransactions, Due (s.intents.set n { c with phase := p })
      s.pending_transactions s.removes d := by
  intro d hd
  obtain ⟨k, hk, hpt, hdue⟩ := h d hd
  have hne : n ≠ d._id := by
    rintro rfl
    cases hc.symm.trans hk
    rcases hdue with hdue | ⟨hdue, -⟩
    · exact hr hdue
    · exact hp hdue
  exact ⟨k, by rw [List.getElem?_set_ne hne, hk], hpt, hdue⟩

/-- The confirmed save of an intent pushes its element. -/
theorem queued (h : AllDue s) {n : ℕ} {c : IntentCall} (hc : s.intents[n]? = some c)
    (hid : c.pt._id = n) :
    AllDue (({ s with intents := s.intents.set n { c with phase := .done true } } :
      State).transaction_queue c) := by
  intro d hd
  obtain ⟨k, hk, hpt, hdue⟩ := h d hd
  by_cases hn : n = d._id
  · rw [← hn, hc] at hk
    cases hk
    refine ⟨{ c with phase := .done true }, ?_, hpt,
      .inr ⟨rfl, .inl ⟨_, _, elemAt_length, hid.trans hn⟩⟩⟩
    rw [← hn]
    exact List.getElem?_set_self (List.getElem?_eq_some_iff.mp hc).1
  · refine ⟨k, ?_, hpt, hdue.imp_right fun hdone => hdone.imp_right (Or.imp_left ?_)⟩
    · show (s.intents.set n _)[_]? = _
      rw [List.getElem?_set_ne hn, hk]
    · rintro ⟨i, pe, hpe, ht⟩
      exact ⟨i, pe, elemAt_append hpe, ht⟩

/-- Slot `i` is emptied and the intent of its element is removed. -/
theorem finish (h : AllDue s) {i : ℕ} {t : ObjectId}
    (hat : PushedTo s.intents s.pending_transactions i t) :
    AllDue ((s.deleteSlot i).writeComplete t) := by
  intro d hd
  obtain ⟨c, hc, hpt, hdue⟩ := h d hd
  refine ⟨c, hc, hpt, hdue.imp_right fun hdone => hdone.imp_right ?_⟩
  rintro (⟨j, pe, hpe, ht⟩ | ⟨r, hr, ht⟩)
  · by_cases hij : i = j
    · refine .inr ⟨⟨t, .sent⟩, ?_, ((hat.iff j pe hpe).mp hij.symm).symm.trans ht, rfl⟩
      exact List.mem_append_right _ (List.mem_singleton_self _)
    · refine .inl ⟨j, pe, ?_, ht⟩
      show elemAt (deleteAt _ _) _ = _
      rw [elemAt_deleteAt, if_neg hij, hpe]
  · exact .inr ⟨r, List.mem_append_left _ hr, ht⟩

theorem onBalance (h : AllDue s) {c : BalanceCall}
    (hat : PushedTo s.intents s.pending_transactions c.slot c.trid) (bal : ℚ) :
    AllDue (s.onBalance c bal) := by
  rw [State.onBalance]
  split
  next => exact h.finish hat
  next => exact h

theorem onWritten (h : AllDue s) {c : WriteCall} (hat : ∀ i t, c.origin = some (i, t) →
    PushedTo s.intents s.pending_transactions i t) : AllDue (s.onWritten c) := by
  rcases c.origin_cases with ho | ⟨i, t, ho⟩
  · rw [State.onWritten_none ho]
    exact h
  · rw [State.onWritten_some ho]
    exact h.finish (hat i t ho)

/-- The database executes a removal. -/
theorem remove (h : AllDue s) {n : ℕ} {c : RemoveCall} (hc : s.removes[n]? = some c) :
    AllDue { s with
      removes := s.removes.set n { c with phase := .done true }
      pendingtransactions := s.pendingtransactions.filter (·._id ≠ c.trid) } := by
  intro d hd
  obtain ⟨hd, hne⟩ := List.mem_filter.mp hd
  obtain ⟨k, hk, hpt, hdue⟩ := h d hd
  refine ⟨k, hk, hpt, hdue.imp_right fun hdone => hdone.imp_right (Or.imp_right ?_)⟩
  rintro ⟨r, hr, ht, hsent⟩
  refine ⟨r, mem_set_of_ne _ hc hr ?_, ht, hsent⟩
  rintro rfl
  simp [ht] at hne

/-- Every lasting step keeps the documents due. -/
theorem step (h : AllDue s) (hk : Kept ⟨s, gone⟩) (hp : Placed s) {e : Event}
    (hok : Lasting s e) (hs : Pending.step s e = some s') : AllDue s' := by
  cases step_cases hs with
  | intent w now sender entry answer =>
      intro d hd
      obtain ⟨c, hc, hpt, hdue⟩ := h d hd
      exact ⟨c, getElem?_append_of_some hc _, hpt, hdue⟩
  | @intentDb n c ok hc hphase =>
      have hdue := h.setIntent hc (by simp [hphase]) (by simp [hphase]) (.replied ok)
      cases ok with
      | false => exact hdue
      | true =>
          refine forall_mem_concat hdue ⟨{ c with phase := .replied true }, ?_, rfl, .inl rfl⟩
          rw [hk.ids n c hc, List.getElem?_set_self (List.getElem?_eq_some_iff.mp hc).1]
  | @queued n c hc hphase => exact h.queued hc (hk.ids n c hc)
  | intentError hc hphase => exact h.setIntent hc (by simp [hphase]) (by simp [hphase]) (.done false)
  | permitted hc hphase =>
      rw [State.onWritePermission]
      split <;> exact h
  | @sumComplete n a c x bal hc hphase hb =>
      have hset : AllDue { s with
          balances := s.balances.set n { c with sums := c.sums.set (.done (some x)) a } } := h
      exact hset.onBalance (hp.balances c (mem_of_getElem? hc)) bal
  | @written n c hc hphase =>
      have hset : AllDue { s with writes := s.writes.set n { c with phase := .done true } } := h
      exact hset.onWritten (hp.writes c (mem_of_getElem? hc))
  | removeDb ok hc hphase =>
      cases ok with
      | true => exact h.remove hc
      | false => cases hok
  | expire hn => exact hok.elim
  | _ => exact h

end AllDue

/-! ## What requests are told -/

/-- The request of an intent got its last answer. -/
def Settled (answers : List Sent) (c : IntentCall) : Prop :=
  (c.phase = .done true ∧ ∃ x ∈ answers, x.client = c.answer ∧ x.trid = some c.pt._id ∧
    (x.answer = .ok ∨ x.answer = .text "nomoney")) ∨
  (c.phase = .done false ∧ ∃ x ∈ answers, x.client = c.answer ∧ x.answer = .dbError "trdb.intent")

/-- An intent is being saved, or its request got its last answer, or its element
waits. -/
def Told (s : State) : Prop :=
  ∀ c ∈ s.intents, c.phase.open? = true ∨ Settled s.answers c ∨
    ∃ i pe, elemAt s.pending_transactions i = some pe ∧ pe.trid = c.pt._id

theorem Settled.mono {answers answers' : List Sent} {c : IntentCall} (h : Settled answers c)
    (ha : ∀ x ∈ answers, x ∈ answers') : Settled answers' c := by
  rcases h with ⟨hp, x, hx, hlast⟩ | ⟨hp, x, hx, hlast⟩
  · exact .inl ⟨hp, x, ha x hx, hlast⟩
  · exact .inr ⟨hp, x, ha x hx, hlast⟩

namespace Told

theorem init (L : Ledger) : Told (State.init L) := by
  simp [Told, State.init]

/-- Answers and elements are added and no intent changes. -/
theorem mono (h : Told s) (hi : s'.intents = s.intents) (ha : ∀ x ∈ s.answers, x ∈ s'.answers)
    (he : ∀ i pe, elemAt s.pending_transactions i = some pe →
      elemAt s'.pending_transactions i = some pe) : Told s' := by
  intro c hc
  rw [hi] at hc
  rcases h c hc with hopen | hset | ⟨i, pe, hpe, ht⟩
  · exact .inl hopen
  · exact .inr (.inl (hset.mono ha))
  · exact .inr (.inr ⟨i, pe, he i pe hpe, ht⟩)

/-- Nothing of this changes. -/
theorem same (h : Told s) (hi : s'.intents = s.intents) (ha : s'.answers = s.answers)
    (he : s'.pending_transactions = s.pending_transactions) : Told s' :=
  h.mono hi (fun _ hx => ha ▸ hx) fun _ _ hpe => he ▸ hpe

theorem send (h : Told s) (client : Client) (trid : Option ObjectId) (m : Answer) :
    Told (s.send client trid m) :=
  h.mono rfl (fun _ hx => List.mem_append_left _ hx) fun _ _ hpe => hpe

/-- The save of an intent goes on. -/
theorem setIntent (h : Told s) {n : ℕ} {c : IntentCall} {p : Phase Bool} {slots : List Slot}
    {answers : List Sent} {docs : List PendingTransaction}
    (ha : ∀ x ∈ s.answers, x ∈ answers)
    (he : ∀ i pe, elemAt s.pending_transactions i = some pe → elemAt slots i = some pe)
    (new : p.open? = true ∨ Settled answers { c with phase := p } ∨
      ∃ i pe, elemAt slots i = some pe ∧ pe.trid = c.pt._id) :
    Told { s with
      intents := s.intents.set n { c with phase := p }
      pendingtransactions := docs
      pending_transactions := slots
      answers := answers } := by
  have hold : Told { s with pending_transactions := slots, answers := answers } := h.mono rfl ha he
  exact forall_mem_set n hold new

/-- The element in slot `i` is answered and goes. -/
theorem finish (h : Told s)
    (ids : ∀ (n : ℕ) (c : IntentCall), s.intents[n]? = some c → c.pt._id = n) {i : ℕ} {t : ObjectId}
    {client : Client} {m : Answer} (hat : PushedTo s.intents s.pending_transactions i t)
    (hq : Queued s.intents t client) (hm : m = .ok ∨ m = .text "nomoney") :
    Told (((s.send client t m).deleteSlot i).writeComplete t) := by
  have hx : (⟨client, t, m⟩ : Sent) ∈ s.answers ++ [⟨client, t, m⟩] :=
    List.mem_append_right _ (List.mem_singleton_self _)
  intro c hc
  rcases h c hc with hopen | hset | ⟨j, pe, hpe, ht⟩
  · exact .inl hopen
  · exact .inr (.inl (hset.mono fun _ => List.mem_append_left _))
  · by_cases hij : i = j
    · -- the element of this intent is the one that is answered
      obtain ⟨n, hn⟩ := List.mem_iff_getElem?.mp hc
      obtain ⟨c', hc', hdone, hclient⟩ := hq
      have hid : t = c.pt._id := ((hat.iff j pe hpe).mp hij.symm).symm.trans ht
      rw [hid, ids n c hn] at hc'
      cases hn.symm.trans hc'
      exact .inr (.inl (.inl ⟨hdone, _, hx, hclient.symm, hid ▸ rfl, hm⟩))
    · refine .inr (.inr ⟨j, pe, ?_, ht⟩)
      show elemAt (deleteAt _ _) _ = _
      rw [elemAt_deleteAt, if_neg hij]
      exact hpe

theorem onWritePermission (h : Told s) (i : ℕ) (t : ObjectId) : Told (s.onWritePermission i t) := by
  rw [State.onWritePermission]
  split <;> exact h

theorem onBalance (h : Told s)
    (ids : ∀ (n : ℕ) (c : IntentCall), s.intents[n]? = some c → c.pt._id = n) {c : BalanceCall}
    (hat : PushedTo s.intents s.pending_transactions c.slot c.trid)
    (hq : Queued s.intents c.trid c.pe.answer) (bal : ℚ) : Told (s.onBalance c bal) := by
  rw [State.onBalance]
  split
  next => exact h.finish ids hat hq (.inr rfl)
  next => exact h

theorem onWritten (h : Told s)
    (ids : ∀ (n : ℕ) (c : IntentCall), s.intents[n]? = some c → c.pt._id = n) {c : WriteCall}
    (hat : ∀ i t, c.origin = some (i, t) → PushedTo s.intents s.pending_transactions i t)
    (hq : ∀ i t, c.origin = some (i, t) → Queued s.intents t c.answer) : Told (s.onWritten c) := by
  rcases c.origin_cases with ho | ⟨i, t, ho⟩
  · rw [State.onWritten_none ho]
    exact (h.send _ _ _).send _ _ _
  · rw [State.onWritten_some ho]
    exact h.finish ids (hat i t ho) (hq i t ho) (.inl rfl)

/-- Every step keeps what is told. -/
theorem step (h : Told s) (hk : Kept ⟨s, gone⟩) (hp : Placed s) {e : Event}
    (hs : Pending.step s e = some s') : Told s' := by
  cases step_cases hs with
  | intent w now sender entry answer => exact forall_mem_concat h (.inl rfl)
  | intentDb ok hc hphase =>
      exact h.setIntent (fun _ hx => hx) (fun _ _ hpe => hpe) (.inl rfl)
  | @queued n c hc hphase =>
      refine h.setIntent (fun _ hx => hx) (fun _ _ hpe => elemAt_append hpe) (.inr (.inr ?_))
      exact ⟨_, _, elemAt_length, rfl⟩
  | intentError hc hphase =>
      refine h.setIntent (fun _ hx => List.mem_append_left _ hx) (fun _ _ hpe => hpe)
        (.inr (.inl (.inr ⟨rfl, _, List.mem_append_right _ (List.mem_singleton_self _), rfl, rfl⟩)))
  | @permitted n c hc hphase =>
      have hset : Told { s with checks := s.checks.set n { c with phase := .done (some true) } } := h
      exact hset.onWritePermission c.slot c.trid
  | @sumComplete n a c x bal hc hphase hb =>
      have hmem := mem_of_getElem? hc
      have hset : Told { s with
          balances := s.balances.set n { c with sums := c.sums.set (.done (some x)) a } } := h
      exact hset.onBalance hk.ids (hp.balances c hmem) (hk.balances c hmem) bal
  | @written n c hc hphase =>
      have hmem := mem_of_getElem? hc
      have hset : Told { s with writes := s.writes.set n { c with phase := .done true } } := h
      exact hset.onWritten hk.ids (hp.writes c hmem) (hk.writes c hmem)
  | checkError | sumError | writeError =>
      exact h.mono rfl (fun _ hx => List.mem_append_left _ hx) fun _ _ hpe => hpe
  | _ => exact h.same rfl rfl rfl

end Told

/-! ## What is left to do -/

/-- The steps the aggregations of a `getBalance` have before them. -/
def sumsLeft (sums : Aggregations) : ℕ :=
  sums.income.left + sums.payments.left + sums.taxincome.left

theorem sumsLeft_set (sums : Aggregations) (p : Phase (Option ℚ)) (a : Aggregation) :
    sumsLeft (sums.set p a) + (sums.get a).left = sumsLeft sums + p.left := by
  cases a <;> simp only [sumsLeft, Aggregations.set, Aggregations.get] <;> omega

/-- The steps that are left for what is under way.  A step weighs more than all
that it can start. -/
def State.left (s : State) : ℕ :=
  (s.intents.map fun c => c.phase.left).sum + (s.checks.map fun c => 43 * c.phase.left).sum +
    (s.balances.map fun c => 7 * sumsLeft c.sums).sum +
      (s.writes.map fun c => 3 * c.phase.left).sum + s.removes.countP fun c => c.phase = .sent

/-- The elements that are queued or about to be. -/
def State.items (s : State) : ℕ :=
  s.pending_transactions.countP (fun sl => sl.elem.isSome) +
    s.intents.countP fun c => c.phase.open?

/-- What goes on without an error and without a new request or tick. -/
def Prompt (_ : State) : Event → Prop
  | .intentDb _ ok => ok = true
  | .sumDb _ _ ok => ok = true
  | .writeDb _ ok => ok = true
  | .removeDb _ ok => ok = true
  | .intentReply _ | .checkDb .. | .checkReply _ | .sumReply .. | .writeReply _ => True
  | .tick _ | .intent .. | .spawn .. | .checkFail _ | .expire _ | .delete _ => False

/-- The workers tick and go on with what they have, and no database call fails. -/
def Healthy (s : State) (e : Event) : Prop := Prompt s e ∨ ∃ w, e = .tick w

theorem Healthy.lasting {e : Event} (h : Healthy s e) : Lasting s e := by
  rcases h with h | ⟨w, rfl⟩
  · cases e <;> first | exact h | exact trivial | exact h.elim
  · trivial

theorem isSome_deleteAt_le (l : List Slot) (i : ℕ) :
    (deleteAt l i).countP (fun sl => sl.elem.isSome) ≤ l.countP fun sl => sl.elem.isSome := by
  rw [deleteAt, List.modify_eq_set_getElem?]
  cases hsl : l[i]? with
  | none => exact le_refl _
  | some sl =>
      have := countP_set (fun sl : Slot => sl.elem.isSome) hsl { sl with elem := none }
      simp only [Option.isSome_none] at this ⊢
      exact Nat.le_of_add_right_le (by simpa using this.le)

/-- Emptying a slot leaves one element less. -/
theorem isSome_deleteAt {l : List Slot} {i : ℕ} {pe : Elem} (h : elemAt l i = some pe) :
    (deleteAt l i).countP (fun sl => sl.elem.isSome) + 1 = l.countP fun sl => sl.elem.isSome := by
  obtain ⟨w, hw⟩ := elemAt_eq_some.mp h
  rw [deleteAt, List.modify_eq_set_getElem?, hw]
  simpa using countP_set (fun sl : Slot => sl.elem.isSome) hw { worker := w, elem := none }

theorem left_onWritePermission_le (i : ℕ) (t : ObjectId) :
    (s.onWritePermission i t).left ≤ s.left + 42 := by
  rw [State.onWritePermission]
  split
  next => omega
  next =>
    simp only [State.left, List.map_append, List.sum_append, List.map_cons, List.map_nil,
      List.sum_cons, List.sum_nil, sumsLeft, Aggregations.start, Phase.left_sent]
    omega

theorem left_send (client : Client) (trid : Option ObjectId) (m : Answer) :
    (s.send client trid m).left = s.left := rfl

theorem left_transaction_queue (c : IntentCall) : (s.transaction_queue c).left = s.left := rfl

theorem left_writeComplete (t : ObjectId) : (s.writeComplete t).left = s.left + 1 := by
  simp only [State.left, State.writeComplete, List.countP_append, List.countP_singleton,
    decide_true, if_true, Nat.add_assoc]

theorem left_onBalance_le (c : BalanceCall) (bal : ℚ) : (s.onBalance c bal).left ≤ s.left + 6 := by
  rw [State.onBalance]
  split
  next =>
    show ((s.send c.pe.answer c.trid (.text "nomoney")).writeComplete c.trid).left ≤ _
    rw [left_writeComplete]
    exact Nat.add_le_add_left (by decide) s.left
  next =>
    simp only [State.left, State.transaction_write, List.map_append, List.sum_append, List.map_cons,
      List.map_nil, List.sum_cons, List.sum_nil, Phase.left_sent]
    omega

theorem left_onWritten_le (c : WriteCall) : (s.onWritten c).left ≤ s.left + 2 := by
  rw [State.onWritten]
  split
  next =>
    rw [left_writeComplete]
    exact Nat.add_le_add_left (by decide) s.left
  next => exact Nat.le_add_right s.left 2

section SetLeft

variable {n : ℕ} {p : Phase Bool}

theorem left_setIntent {c : IntentCall} (hc : s.intents[n]? = some c) (hp : p.left < c.phase.left)
    (docs : List PendingTransaction) :
    ({ s with
      intents := s.intents.set n { c with phase := p }
      pendingtransactions := docs } : State).left < s.left := by
  have := sum_map_set (fun c : IntentCall => c.phase.left) hc { c with phase := p }
  dsimp only [State.left] at this ⊢
  omega

theorem left_setCheck {c : CheckCall} {p : Phase (Option Bool)} (hc : s.checks[n]? = some c)
    (hp : p.left < c.phase.left) :
    ({ s with checks := s.checks.set n { c with phase := p } } : State).left + 42 < s.left := by
  have := sum_map_set (fun c : CheckCall => 43 * c.phase.left) hc { c with phase := p }
  dsimp only [State.left] at this ⊢
  omega

theorem left_setSums {c : BalanceCall} {p : Phase (Option ℚ)} {a : Aggregation}
    (hc : s.balances[n]? = some c) (hp : p.left < (c.sums.get a).left) :
    ({ s with balances := s.balances.set n { c with sums := c.sums.set p a } } : State).left + 6 <
      s.left := by
  have hset := sumsLeft_set c.sums p a
  have := sum_map_set (fun c : BalanceCall => 7 * sumsLeft c.sums) hc
    { c with sums := c.sums.set p a }
  dsimp only [State.left] at this ⊢
  omega

theorem left_setWrite {c : WriteCall} (hc : s.writes[n]? = some c) (hp : p.left < c.phase.left)
    (L : Ledger) :
    ({ s with writes := s.writes.set n { c with phase := p }, transactions := L } : State).left + 2 <
      s.left := by
  have := sum_map_set (fun c : WriteCall => 3 * c.phase.left) hc { c with phase := p }
  dsimp only [State.left] at this ⊢
  omega

theorem left_setRemove {c : RemoveCall} (hc : s.removes[n]? = some c) (hp : c.phase = .sent)
    (ok : Bool) (docs : List PendingTransaction) :
    ({ s with
      removes := s.removes.set n { c with phase := .done ok }
      pendingtransactions := docs } : State).left < s.left := by
  have := countP_set (fun c : RemoveCall => c.phase = .sent) hc { c with phase := .done ok }
  rw [if_pos (by simpa using hp), if_neg (by simp)] at this
  dsimp only [State.left] at this ⊢
  omega

end SetLeft

/-- What goes on gets done: every prompt step leaves less to do. -/
theorem left_lt_of_step {e : Event} (hok : Prompt s e) (hs : step s e = some s') :
    s'.left < s.left := by
  cases step_cases hs with
  | intent | spawn | tick | checkFail | expire | delete => exact hok.elim
  | intentDb ok hc hp => exact left_setIntent hc (by simp [hp]) _
  | queued hc hp =>
      rw [left_transaction_queue]
      exact left_setIntent hc (by simp [hp]) s.pendingtransactions
  | intentError hc hp =>
      rw [left_send]
      exact left_setIntent hc (by simp [hp]) s.pendingtransactions
  | checkDb hc hp hf => exact Nat.lt_of_add_right_lt (left_setCheck hc (by simp [hp]))
  | permitted hc hp =>
      exact (left_onWritePermission_le _ _).trans_lt (left_setCheck hc (by simp [hp]))
  | refused hc hp => exact Nat.lt_of_add_right_lt (left_setCheck hc (by simp [hp]))
  | checkError hc hp =>
      rw [left_send]
      exact Nat.lt_of_add_right_lt (left_setCheck hc (by simp [hp]))
  | sumDb ok hc hp => exact Nat.lt_of_add_right_lt (left_setSums hc (by simp [hp]))
  | sumError hc hp =>
      rw [left_send]
      exact Nat.lt_of_add_right_lt (left_setSums hc (by simp [hp]))
  | sumWaits hc hp hb => exact Nat.lt_of_add_right_lt (left_setSums hc (by simp [hp]))
  | sumComplete hc hp hb =>
      exact (left_onBalance_le _ _).trans_lt (left_setSums hc (by simp [hp]))
  | saved hc hp hb => exact Nat.lt_of_add_right_lt (left_setWrite hc (by simp [hp]) _)
  | writeFail hc hp => cases hok
  | written hc hp =>
      exact (left_onWritten_le _).trans_lt (left_setWrite hc (by simp [hp]) s.transactions)
  | writeError hc hp =>
      rw [left_send]
      exact Nat.lt_of_add_right_lt (left_setWrite hc (by simp [hp]) s.transactions)
  | removeDb ok hc hp => exact left_setRemove hc hp ok _

theorem items_onBalance_le (c : BalanceCall) (bal : ℚ) : (s.onBalance c bal).items ≤ s.items := by
  rw [State.onBalance]
  split
  next => exact Nat.add_le_add_right (isSome_deleteAt_le _ _) _
  next => exact le_refl _

theorem items_onWritten_le (c : WriteCall) : (s.onWritten c).items ≤ s.items := by
  rw [State.onWritten]
  split
  next => exact Nat.add_le_add_right (isSome_deleteAt_le _ _) _
  next => exact le_refl _

/-- Nothing but a new request adds an item. -/
theorem items_le_of_step {e : Event} (hok : Healthy s e) (hs : step s e = some s') :
    s'.items ≤ s.items := by
  cases step_cases hs with
  | intent => rcases hok with hok | ⟨w, hw⟩ <;> trivial
  | @intentDb n c ok hc hp =>
      refine Nat.add_le_add_left (le_of_eq (countP_set_eq hc ?_)) _
      simp [hp]
  | @queued n c hc hp =>
      have := countP_set (fun c : IntentCall => c.phase.open?) hc { c with phase := .done true }
      rw [if_pos (by simp [hp]), if_neg (by simp)] at this
      simp only [State.items, State.transaction_queue, List.countP_append, List.countP_singleton,
        Option.isSome_some, if_true]
      omega
  | @intentError n c hc hp =>
      have := countP_set (fun c : IntentCall => c.phase.open?) hc { c with phase := .done false }
      rw [if_pos (by simp [hp]), if_neg (by simp)] at this
      simp only [State.items, State.send]
      omega
  | permitted hc hp =>
      rw [State.onWritePermission]
      split <;> exact le_refl _
  | sumComplete => exact items_onBalance_le _ _
  | written => exact items_onWritten_le _
  | _ => exact le_refl _

/-- `find` has a document to return, or there is none. -/
theorem exists_findFirst (docs : List PendingTransaction) (sender : ObjectId) :
    findFirst docs sender none = some none ∨
      ∃ k d, findFirst docs sender (some k) = some (some d) := by
  by_cases hno : ∀ d ∈ docs, d.sender ≠ sender
  · exact .inl (if_pos hno)
  · push Not at hno
    obtain ⟨d, hd, hsender⟩ := hno
    have hne : (docs.filter (·.sender = sender)).toFinset.Nonempty :=
      ⟨d, by simpa using ⟨hd, hsender⟩⟩
    obtain ⟨first, hfirst, hmin⟩ := Finset.exists_min_image _ PendingTransaction.time hne
    simp only [List.mem_toFinset, List.mem_filter, decide_eq_true_eq] at hfirst hmin
    obtain ⟨k, hk⟩ := List.mem_iff_getElem?.mp hfirst.1
    refine .inr ⟨k, first, ?_⟩
    rw [findFirst, hk]
    exact if_pos ⟨hfirst.1, hfirst.2, fun d' hd' hs' => hmin d' ⟨hd', hs'⟩⟩

theorem exists_of_sum_ne_zero {α : Type} {f : α → ℕ} {l : List α} (h : (l.map f).sum ≠ 0) :
    ∃ (n : ℕ) (a : α), l[n]? = some a ∧ f a ≠ 0 := by
  by_contra hno
  push Not at hno
  refine h (List.sum_eq_zero fun x hx => ?_)
  obtain ⟨a, ha, rfl⟩ := List.mem_map.mp hx
  obtain ⟨n, hn⟩ := List.mem_iff_getElem?.mp ha
  exact hno n a hn

/-- While something is under way, some step goes on with it. -/
theorem exists_prompt (hcast : Underway (fun d => d.cast.isSome = true) s) (h : s.left ≠ 0) :
    ∃ e s', Prompt s e ∧ step s e = some s' := by
  have hsome : (∃ (n : ℕ) (c : IntentCall), s.intents[n]? = some c ∧ c.phase.left ≠ 0) ∨
      (∃ (n : ℕ) (c : CheckCall), s.checks[n]? = some c ∧ 43 * c.phase.left ≠ 0) ∨
      (∃ (n : ℕ) (c : BalanceCall), s.balances[n]? = some c ∧ 7 * sumsLeft c.sums ≠ 0) ∨
      (∃ (n : ℕ) (c : WriteCall), s.writes[n]? = some c ∧ 3 * c.phase.left ≠ 0) ∨
      ∃ (n : ℕ) (c : RemoveCall), s.removes[n]? = some c ∧ c.phase = .sent := by
    simp only [State.left, ne_eq, Nat.add_eq_zero_iff, not_and_or] at h
    rcases h with (((h | h) | h) | h) | h
    · exact .inl (exists_of_sum_ne_zero h)
    · exact .inr (.inl (exists_of_sum_ne_zero h))
    · exact .inr (.inr (.inl (exists_of_sum_ne_zero h)))
    · exact .inr (.inr (.inr (.inl (exists_of_sum_ne_zero h))))
    · obtain ⟨c, hc, hp⟩ := List.countP_pos_iff.mp (Nat.pos_of_ne_zero h)
      obtain ⟨n, hn⟩ := List.mem_iff_getElem?.mp hc
      exact .inr (.inr (.inr (.inr ⟨n, c, hn, of_decide_eq_true hp⟩)))
  rcases hsome with ⟨n, c, hc, hl⟩ | ⟨n, c, hc, hl⟩ | ⟨n, c, hc, hl⟩ | ⟨n, c, hc, hl⟩ |
    ⟨n, c, hc, hl⟩
  · cases hp : c.phase with
    | sent => exact ⟨.intentDb n true, _, rfl, withSent_eq_some.mpr ⟨c, hc, hp, rfl⟩⟩
    | replied ok => exact ⟨.intentReply n, _, trivial, withReply_eq_some.mpr ⟨c, ok, hc, hp, rfl⟩⟩
    | done ok => simp [hp] at hl
  · cases hp : c.phase with
    | sent =>
        rcases exists_findFirst s.pendingtransactions c.sender with hf | ⟨k, d, hf⟩
        · exact ⟨.checkDb n none, _, trivial, withSent_eq_some.mpr
            ⟨c, hc, hp, Option.map_eq_some_iff.mpr ⟨none, hf, rfl⟩⟩⟩
        · exact ⟨.checkDb n (some k), _, trivial, withSent_eq_some.mpr
            ⟨c, hc, hp, Option.map_eq_some_iff.mpr ⟨some d, hf, rfl⟩⟩⟩
    | replied r => exact ⟨.checkReply n, _, trivial, withReply_eq_some.mpr ⟨c, r, hc, hp, rfl⟩⟩
    | done r => simp [hp] at hl
  · obtain ⟨a, ha⟩ : ∃ a, (c.sums.get a).left ≠ 0 := by
      by_contra hno
      push Not at hno
      refine hl ?_
      rw [sumsLeft, show c.sums.income.left = 0 from hno .income,
        show c.sums.payments.left = 0 from hno .payments,
        show c.sums.taxincome.left = 0 from hno .taxincome]
    cases hp : c.sums.get a with
    | sent => exact ⟨.sumDb n a true, _, rfl, withSent_eq_some.mpr ⟨c, hc, hp, rfl⟩⟩
    | replied r => exact ⟨.sumReply n a, _, trivial, withReply_eq_some.mpr ⟨c, r, hc, hp, rfl⟩⟩
    | done r => simp [hp] at ha
  · cases hp : c.phase with
    | sent =>
        have hb := hcast.writes c (mem_of_getElem? hc) (by rw [hp]; rfl)
        obtain ⟨b, hb⟩ := Option.isSome_iff_exists.mp hb
        exact ⟨.writeDb n true, _, rfl, withSent_eq_some.mpr
          ⟨c, hc, hp, Option.map_eq_some_iff.mpr ⟨b, hb, rfl⟩⟩⟩
    | replied ok => exact ⟨.writeReply n, _, trivial, withReply_eq_some.mpr ⟨c, ok, hc, hp, rfl⟩⟩
    | done ok => simp [hp] at hl
  · exact ⟨.removeDb n true, _, rfl, withSent_eq_some.mpr ⟨c, hc, hl, rfl⟩⟩

/-! ## Rounds -/

/-- What holds in every run whose steps last. -/
structure Lively (s : State) : Prop where
  kept : Kept ⟨s, []⟩
  placed : Placed s
  due : AllDue s
  told : Told s
  castable : Underway (fun d => d.cast.isSome = true) s

namespace Lively

theorem init (L : Ledger) : Lively (State.init L) := ⟨.init L, .init L, .init L, .init L, .init L⟩

theorem step (h : Lively s) {e : Event} (hok : Lasting s e) (hs : Pending.step s e = some s') :
    Lively s' := by
  have hnone : Journal.expiring s e = [] := by
    cases e <;> first | rfl | exact hok.elim
  refine ⟨?_, h.placed.step h.kept hs, h.due.step h.kept h.placed hok hs,
    h.told.step h.kept h.placed hs, h.castable.step (fun d hd => ?_) hs⟩
  · have hkept := h.kept.step hs
    rwa [hnone] at hkept
  · cases e <;> cases hd <;> exact hok

theorem run (h : Lively s) (r : Run Pending.step Lasting s s') : Lively s' :=
  r.invariant h fun _ _ _ ih hok hs => ih.step hok hs

/-- The document of a waiting element is visible. -/
theorem visible (h : Lively s) {i : ℕ} {pe : Elem}
    (hpe : elemAt s.pending_transactions i = some pe) :
    ∃ d ∈ s.pendingtransactions, d._id = pe.trid ∧ d.sender = pe.sender := by
  obtain ⟨hat, c, hc, hsender⟩ := h.placed.elems i pe hpe
  obtain ⟨_, c', hc', hdone, -⟩ := hat.saved
  cases hc.symm.trans hc'
  have hid := h.kept.ids _ c hc
  rcases h.kept.saved c (mem_of_getElem? hc) (by rw [hdone]; rfl) with hd | hgone | ⟨r, hr, ht⟩
  · exact ⟨c.pt, hd, hid, hsender⟩
  · cases hgone
  · exact absurd (hid.symm.trans ht.symm) (h.placed.removes r hr i pe hpe)

end Lively

section Sums

variable {n i : ℕ} {t : ObjectId} {pe : Elem}

/-- The state in which the aggregations of the `n`-th `getBalance` are `sums`. -/
def State.summed (s : State) (n i : ℕ) (t : ObjectId) (pe : Elem) (sums : Aggregations) : State :=
  { s with balances := s.balances.set n ⟨i, t, pe, sums⟩ }

theorem getElem?_summed (hn : n < s.balances.length) (sums : Aggregations) :
    (s.summed n i t pe sums).balances[n]? = some ⟨i, t, pe, sums⟩ :=
  List.getElem?_set_self hn

theorem step_sumDb (hn : n < s.balances.length) {sums : Aggregations} {a : Aggregation}
    (h : sums.get a = .sent) :
    step (s.summed n i t pe sums) (.sumDb n a true) =
      some (s.summed n i t pe (sums.set (.replied (some (a.run s.transactions pe.sender))) a)) := by
  refine withSent_eq_some.mpr ⟨_, getElem?_summed hn sums, h, ?_⟩
  simp only [State.summed, List.set_set, if_true]

theorem step_sumReply (hn : n < s.balances.length) {sums : Aggregations} {a : Aggregation} {x : ℚ}
    (h : sums.get a = .replied (some x)) :
    step (s.summed n i t pe sums) (.sumReply n a) =
      some (match (sums.set (.done (some x)) a).aggregationComplete with
        | none => s.summed n i t pe (sums.set (.done (some x)) a)
        | some bal => (s.summed n i t pe (sums.set (.done (some x)) a)).onBalance
            ⟨i, t, pe, sums.set (.done (some x)) a⟩ bal) := by
  refine withReply_eq_some.mpr ⟨_, _, getElem?_summed hn sums, h, ?_⟩
  simp only [State.summed, List.set_set]
  split <;> simp_all

/-- The six steps of a `getBalance` that does not fail. -/
theorem run_sums (hc : s.balances[n]? = some ⟨i, t, pe, .start⟩) :
    ∃ sums bal, Run step Prompt s ((s.summed n i t pe sums).onBalance ⟨i, t, pe, sums⟩ bal) := by
  have hn : n < s.balances.length := (List.getElem?_eq_some_iff.mp hc).1
  have hstart : s.summed n i t pe .start = s := by
    rw [State.summed, ← (List.getElem?_eq_some_iff.mp hc).2, List.set_getElem_self]
  let u := fun a b c : Phase (Option ℚ) => s.summed n i t pe ⟨a, b, c⟩
  let x := Aggregation.run s.transactions pe.sender .income
  let y := Aggregation.run s.transactions pe.sender .payments
  let z := Aggregation.run s.transactions pe.sender .taxincome
  have h1 : step s (.sumDb n .income true) = some (u (.replied (some x)) .sent .sent) := by
    conv => lhs; rw [← hstart]
    exact step_sumDb hn rfl
  have h2 : step (u (.replied (some x)) .sent .sent) (.sumDb n .payments true) =
      some (u (.replied (some x)) (.replied (some y)) .sent) := step_sumDb hn rfl
  have h3 : step (u (.replied (some x)) (.replied (some y)) .sent) (.sumDb n .taxincome true) =
      some (u (.replied (some x)) (.replied (some y)) (.replied (some z))) := step_sumDb hn rfl
  have h4 : step (u (.replied (some x)) (.replied (some y)) (.replied (some z)))
      (.sumReply n .income) = some (u (.done (some x)) (.replied (some y)) (.replied (some z))) :=
    step_sumReply hn rfl
  have h5 : step (u (.done (some x)) (.replied (some y)) (.replied (some z)))
      (.sumReply n .payments) = some (u (.done (some x)) (.done (some y)) (.replied (some z))) :=
    step_sumReply hn rfl
  have h6 : step (u (.done (some x)) (.done (some y)) (.replied (some z)))
      (.sumReply n .taxincome) = some ((u (.done (some x)) (.done (some y)) (.done (some z))).onBalance
        ⟨i, t, pe, ⟨.done (some x), .done (some y), .done (some z)⟩⟩ (x + z - y)) :=
    step_sumReply hn rfl
  exact ⟨_, _, (((((Run.refl.tail (by exact rfl) h1).tail (by exact rfl) h2).tail (by exact rfl)
    h3).tail (by exact trivial) h4).tail (by exact trivial) h5).tail (by exact trivial) h6⟩

end Sums

/-- A write that does not fail empties the slot of its element. -/
theorem run_write {i : ℕ} {t : ObjectId} {entry : Draft} {answer : Client}
    (hcast : entry.cast.isSome = true) :
    ∃ s', Run step Prompt (s.transaction_write (some (i, t)) entry answer) s' ∧
      s'.pending_transactions = deleteAt s.pending_transactions i ∧ s'.intents = s.intents := by
  obtain ⟨b, hb⟩ := Option.isSome_iff_exists.mp hcast
  have hwrite : (s.writes ++ [⟨some (i, t), entry, answer, .sent⟩])[s.writes.length]? =
      some ⟨some (i, t), entry, answer, .sent⟩ := by simp
  have h1 : step (s.transaction_write (some (i, t)) entry answer) (.writeDb s.writes.length true) =
      some _ := withSent_eq_some.mpr ⟨_, hwrite, rfl, Option.map_eq_some_iff.mpr ⟨b, hb, rfl⟩⟩
  have hset := List.getElem?_set_self (a := (⟨some (i, t), entry, answer, .replied true⟩ : WriteCall))
    (List.getElem?_eq_some_iff.mp hwrite).1
  exact ⟨_, (Run.refl.tail (by exact rfl) h1).tail (e := .writeReply s.writes.length) trivial
    (withReply_eq_some.mpr ⟨_, true, hset, rfl, rfl⟩), rfl, rfl⟩

/-- A granted element leaves its slot. -/
theorem run_granted {i : ℕ} {pe : Elem} (hpe : elemAt s.pending_transactions i = some pe)
    (hcast : pe.entry.cast.isSome = true) :
    ∃ s', Run step Prompt (s.onWritePermission i pe.trid) s' ∧
      s'.pending_transactions = deleteAt s.pending_transactions i ∧ s'.intents = s.intents := by
  rw [State.onWritePermission, hpe]
  have hstart : (s.balances ++ [⟨i, pe.trid, pe, .start⟩])[s.balances.length]? =
      some ⟨i, pe.trid, pe, .start⟩ := by simp
  obtain ⟨sums, bal, run⟩ := run_sums (s := { s with
    balances := s.balances ++ [⟨i, pe.trid, pe, .start⟩] }) hstart
  rw [State.onBalance] at run
  split at run
  next => exact ⟨_, run, rfl, rfl⟩
  next =>
    obtain ⟨s', run', hslots, hintents⟩ := run_write (s := State.summed _ _ _ _ _ _) hcast
    exact ⟨s', run.trans run', hslots, hintents⟩

/-- A tick asks for every element of the worker. -/
theorem mem_tickChecks_of_elem {l : List Slot} {i : ℕ} {w : WorkerId} {pe : Elem}
    (h : l[i]? = some ⟨w, some pe⟩) :
    (⟨i, pe.trid, pe.sender, pe.answer, .sent⟩ : CheckCall) ∈ tickChecks l w := by
  rw [tickChecks, List.mem_filterMap]
  exact ⟨(⟨w, some pe⟩, i), List.mk_mem_zipIdx_iff_getElem?.mpr h, if_pos rfl⟩

/-- A worker ticks and the element in slot `i` is granted. -/
theorem run_round {i k : ℕ} {pe : Elem} {d : PendingTransaction}
    (hpe : elemAt s.pending_transactions i = some pe) (hcast : pe.entry.cast.isSome = true)
    (hfirst : findFirst s.pendingtransactions pe.sender (some k) = some (some d))
    (hid : d._id = pe.trid) :
    ∃ s', Run step Healthy s s' ∧ s'.pending_transactions = deleteAt s.pending_transactions i ∧
      s'.intents = s.intents := by
  obtain ⟨w, hw⟩ := elemAt_eq_some.mp hpe
  obtain ⟨n, hn⟩ := List.mem_iff_getElem?.mp
    (List.mem_append_right s.checks (mem_tickChecks_of_elem hw))
  let ticked : State := { s with checks := s.checks ++ tickChecks s.pending_transactions w }
  let asked : State := { ticked with
    checks := ticked.checks.set n ⟨i, pe.trid, pe.sender, pe.answer, .replied (some true)⟩ }
  let told : State := { asked with
    checks := asked.checks.set n ⟨i, pe.trid, pe.sender, pe.answer, .done (some true)⟩ }
  have htick : step s (.tick w) = some ticked := rfl
  have hdb : step ticked (.checkDb n (some k)) = some asked := by
    refine withSent_eq_some.mpr ⟨_, hn, rfl, Option.map_eq_some_iff.mpr ⟨some d, hfirst, ?_⟩⟩
    simp [asked, hid]
  have hreply : step asked (.checkReply n) = some (told.onWritePermission i pe.trid) :=
    withReply_eq_some.mpr ⟨⟨i, pe.trid, pe.sender, pe.answer, .replied (some true)⟩, some true,
      List.getElem?_set_self (List.getElem?_eq_some_iff.mp hn).1, rfl, rfl⟩
  obtain ⟨s', run, hslots, hintents⟩ := run_granted (s := told) hpe hcast
  have granted : Run step Prompt ticked s' :=
    ((Run.refl.tail (by exact trivial) hdb).tail (by exact trivial) hreply).trans run
  exact ⟨s', (Run.refl.tail (.inr ⟨w, rfl⟩) htick).trans (granted.mono fun _ _ => .inl), hslots,
    hintents⟩

/-- What it means that nothing is left to do. -/
theorem left_eq_zero (h : s.left = 0) :
    (∀ c ∈ s.intents, c.phase.open? = false) ∧ (∀ c ∈ s.checks, c.phase.open? = false) ∧
      (∀ c ∈ s.balances, ∀ a, (c.sums.get a).open? = false) ∧
      (∀ c ∈ s.writes, c.phase.open? = false) ∧ ∀ c ∈ s.removes, c.phase ≠ .sent := by
  simp only [State.left, Nat.add_eq_zero_iff, List.sum_eq_zero_iff, List.forall_mem_map,
    List.countP_eq_zero, decide_eq_true_eq, Nat.mul_eq_zero, OfNat.ofNat_ne_zero, false_or,
    Phase.left_eq_zero, sumsLeft] at h
  obtain ⟨⟨⟨⟨hintents, hchecks⟩, hbalances⟩, hwrites⟩, hremoves⟩ := h
  refine ⟨hintents, hchecks, fun c hc a => ?_, hwrites, hremoves⟩
  cases a with
  | income => exact (hbalances c hc).1.1
  | payments => exact (hbalances c hc).1.2
  | taxincome => exact (hbalances c hc).2

/-- When nothing is under way, one more round empties a slot. -/
theorem Lively.settle (h : Lively s) (hz : s.left = 0) (hi : s.items ≠ 0) :
    ∃ s', Run Pending.step Healthy s s' ∧ Lively s' ∧ s'.items < s.items := by
  obtain ⟨hintents, -, -, -, hremoves⟩ := left_eq_zero hz
  have hclosed : s.intents.countP (fun c => c.phase.open?) = 0 :=
    List.countP_eq_zero.mpr fun c hc => by simp [hintents c hc]
  obtain ⟨sl, hsl, hsome⟩ : ∃ sl ∈ s.pending_transactions, sl.elem.isSome = true := by
    refine List.countP_pos_iff.mp (Nat.pos_of_ne_zero fun hno => hi ?_)
    rw [State.items, hclosed, hno]
  obtain ⟨pe₀, hpe₀⟩ := Option.isSome_iff_exists.mp hsome
  obtain ⟨i₀, hi₀⟩ := List.mem_iff_getElem?.mp hsl
  obtain ⟨d₀, hd₀, -, hsender₀⟩ := h.visible (Option.bind_eq_some_iff.mpr ⟨sl, hi₀, hpe₀⟩)
  -- the earliest document of this sender has an element, because nothing else is under way
  obtain ⟨k, d, hfirst⟩ : ∃ k d,
      findFirst s.pendingtransactions pe₀.sender (some k) = some (some d) := by
    refine (exists_findFirst s.pendingtransactions pe₀.sender).resolve_left fun hno => ?_
    simp only [findFirst] at hno
    split at hno
    next hall => exact hall d₀ hd₀ hsender₀
    next => cases hno
  have hd := (findFirst_eq_some hfirst).1
  obtain ⟨c, hc, hpt, hdue⟩ := h.due d hd.1
  obtain ⟨i, pe, hpe, hid⟩ : ∃ i pe, elemAt s.pending_transactions i = some pe ∧
      pe.trid = d._id := by
    rcases hdue with hsaving | ⟨-, hwaits | ⟨r, hr, -, hsent⟩⟩
    · have := hintents c (mem_of_getElem? hc)
      rw [hsaving] at this
      cases this
    · exact hwaits
    · exact absurd hsent (hremoves r hr)
  obtain ⟨-, c', hc', hsender⟩ := h.placed.elems i pe hpe
  rw [hid] at hc'
  cases hc.symm.trans hc'
  rw [hpt] at hsender
  rw [← hd.2.1, hsender] at hfirst
  obtain ⟨s', run, hslots, hintents'⟩ :=
    run_round hpe (h.castable.elems i pe hpe) hfirst hid.symm
  refine ⟨s', run, h.run (run.mono fun _ _ => Healthy.lasting), ?_⟩
  have := isSome_deleteAt hpe
  rw [State.items, State.items, hslots, hintents']
  omega

/-! ## The queue drains -/

/-- Nothing is queued, saved, removed or under way. -/
structure Idle (s : State) : Prop where
  intents : ∀ c ∈ s.intents, c.phase.open? = false
  checks : ∀ c ∈ s.checks, c.phase.open? = false
  balances : ∀ c ∈ s.balances, ∀ a, (c.sums.get a).open? = false
  writes : ∀ c ∈ s.writes, c.phase.open? = false
  removes : ∀ c ∈ s.removes, c.phase ≠ .sent
  slots : ∀ i, elemAt s.pending_transactions i = none
  docs : s.pendingtransactions = []

theorem Lively.idle (h : Lively s) (hz : s.left = 0) (hi : s.items = 0) : Idle s := by
  obtain ⟨hintents, hchecks, hbalances, hwrites, hremoves⟩ := left_eq_zero hz
  have hslots : ∀ i, elemAt s.pending_transactions i = none := by
    intro i
    by_contra hsome
    obtain ⟨pe, hpe⟩ := Option.ne_none_iff_exists'.mp hsome
    have := isSome_deleteAt hpe
    rw [State.items] at hi
    omega
  refine ⟨hintents, hchecks, hbalances, hwrites, hremoves, hslots, ?_⟩
  refine List.eq_nil_iff_forall_not_mem.mpr fun d hd => ?_
  obtain ⟨c, hc, -, hsaving | ⟨-, ⟨i, pe, hpe, -⟩ | ⟨r, hr, -, hsent⟩⟩⟩ := h.due d hd
  · have := hintents c (mem_of_getElem? hc)
    rw [hsaving] at this
    cases this
  · rw [hslots i] at hpe
    cases hpe
  · exact hremoves r hr hsent

/-- From every state of a run in which every entry can be cast, no intent expires
and no removal fails, the workers can go on to a state in which nothing is left,
and there every request that saved an intent has got its last answer. -/
theorem queue_drains {L : Ledger} (run : Run step Lasting (State.init L) s) :
    ∃ s', Run step Healthy s s' ∧ Idle s' ∧ ∀ c ∈ s'.intents, Settled s'.answers c := by
  have next : ∀ s, Lively s → s.left ≠ 0 → ∃ e t, Healthy s e ∧ step s e = some t ∧ Lively t ∧
      t.left < s.left ∧ t.items ≤ s.items := by
    intro s h hl
    obtain ⟨e, t, hok, hs⟩ := exists_prompt h.castable hl
    have healthy : Healthy s e := .inl hok
    exact ⟨e, t, healthy, hs, h.step healthy.lasting hs, left_lt_of_step hok hs,
      items_le_of_step healthy hs⟩
  obtain ⟨s', go, h, hz, hi⟩ := Run.drain next (fun s h => h.settle) ((Lively.init L).run run)
  have idle := h.idle hz hi
  refine ⟨s', go, idle, fun c hc => ?_⟩
  rcases h.told c hc with hopen | hset | ⟨i, pe, hpe, -⟩
  · rw [idle.intents c hc] at hopen
    cases hopen
  · exact hset
  · rw [idle.slots i] at hpe
    cases hpe

section Sample

theorem queue_drains_two : ∃ s, Run step Lasting (State.init endowment) s ∧
    s.pendingtransactions.length = 2 ∧
      ∃ s', Run step Healthy s s' ∧ Idle s' ∧ ∀ c ∈ s'.intents, Settled s'.answers c := by
  obtain ⟨s, run, h⟩ : ∃ s, Run step Lasting (State.init endowment) s ∧
      s.pendingtransactions.length = 2 :=
    exists_run_of_exec (queueEvents 0 11 10 1 ++ queueEvents 1 11 10 1) (by decide +kernel)
  exact ⟨s, run, h, queue_drains run⟩

end Sample

end SchuleAlsStaat.Pending
