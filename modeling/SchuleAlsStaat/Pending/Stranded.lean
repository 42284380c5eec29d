import SchuleAlsStaat.Pending.Permission
import SchuleAlsStaat.Pending.Places

/-!
# Stranded elements

The database removes an intent that is older than `pending_timeout`, also when
its element still waits.  From then on `find` never returns the intent, so
`checkWritePermission` refuses the element at every tick and nothing ever deletes
it from `pending_transactions`.
-/

namespace SchuleAlsStaat.Pending

open Calls Runs

variable {s s' : State} {gone : List PendingTransaction} {i : ℕ} {pe : Elem}

/-- The element in slot `i` waits, its intent is not in the database, and nothing
that could serve it is under way. -/
structure Stranded (s : State) (i : ℕ) (pe : Elem) : Prop where
  waits : elemAt s.pending_transactions i = some pe
  gone : ∀ d ∈ s.pendingtransactions, d._id ≠ pe.trid
  checks : ∀ c ∈ s.checks, c.trid = pe.trid → c.phase ≠ .replied (some true)
  balances : ∀ c ∈ s.balances, c.trid = pe.trid → c.sums.live = false
  writes : ∀ c ∈ s.writes, c.isFor pe.trid = true → c.phase.outcome = some false

namespace Stranded

/-- The slot of another intent is emptied. -/
theorem deleteSlot (h : Stranded s i pe) {j : ℕ} {t : ObjectId}
    (hat : PushedTo s.intents s.pending_transactions j t) (ne : t ≠ pe.trid) :
    Stranded (s.deleteSlot j) i pe := by
  refine ⟨?_, h.gone, h.checks, h.balances, h.writes⟩
  have hij : j ≠ i := fun hij => ne ((hat.iff i pe h.waits).mp hij.symm).symm
  rw [State.deleteSlot, elemAt_deleteAt, if_neg hij]
  exact h.waits

theorem onWritePermission (h : Stranded s i pe) (j : ℕ) {t : ObjectId} (ne : t ≠ pe.trid) :
    Stranded (s.onWritePermission j t) i pe := by
  rw [State.onWritePermission]
  split
  next => exact h
  next => exact { h with balances := forall_mem_concat h.balances fun ht => absurd ht ne }

theorem onBalance (h : Stranded s i pe) {c : BalanceCall}
    (hat : PushedTo s.intents s.pending_transactions c.slot c.trid) (ne : c.trid ≠ pe.trid)
    (bal : ℚ) : Stranded (s.onBalance c bal) i pe := by
  rw [State.onBalance]
  split
  next =>
    have hdel := h.deleteSlot hat ne
    exact ⟨hdel.waits, h.gone, h.checks, h.balances, h.writes⟩
  next =>
    refine { h with writes := forall_mem_concat h.writes fun hfor => ?_ }
    obtain ⟨j, ho⟩ := WriteCall.isFor_eq_true.mp hfor
    exact absurd (Prod.mk.inj (Option.some.inj ho)).2 ne

theorem onWritten (h : Stranded s i pe) {c : WriteCall}
    (hat : ∀ j t, c.origin = some (j, t) → PushedTo s.intents s.pending_transactions j t)
    (ne : c.isFor pe.trid = false) : Stranded (s.onWritten c) i pe := by
  rcases c.origin_cases with ho | ⟨j, t, ho⟩
  · rw [State.onWritten_none ho]
    exact ⟨h.waits, h.gone, h.checks, h.balances, h.writes⟩
  · rw [State.onWritten_some ho]
    have hne : t ≠ pe.trid := by
      rintro rfl
      rw [WriteCall.isFor_eq_true.mpr ⟨j, ho⟩] at ne
      cases ne
    have hdel := h.deleteSlot (hat j t ho) hne
    exact ⟨hdel.waits, h.gone, h.checks, h.balances, h.writes⟩

theorem setCheck (h : Stranded s i pe) {c : CheckCall} {p : Phase (Option Bool)} (n : ℕ)
    (hp : c.trid = pe.trid → p ≠ .replied (some true)) :
    Stranded { s with checks := s.checks.set n { c with phase := p } } i pe :=
  { h with checks := forall_mem_set n h.checks hp }

/-- The sums of a chain change, and no chain comes to life. -/
theorem setSums (h : Stranded s i pe) {n : ℕ} {c : BalanceCall} (hc : s.balances[n]? = some c)
    {sums : Aggregations} (hlive : sums.live = true → c.sums.live = true) :
    Stranded { s with balances := s.balances.set n { c with sums := sums } } i pe := by
  refine { h with balances := forall_mem_set n h.balances fun ht => ?_ }
  have hdead := h.balances c (mem_of_getElem? hc) ht
  exact Bool.eq_false_iff.mpr fun hl => by simp [hlive hl] at hdead

/-- A write of another intent goes on, or one that failed is told. -/
theorem setWrite (h : Stranded s i pe) {n : ℕ} {c : WriteCall} (hc : s.writes[n]? = some c)
    {p : Phase Bool} (L : Ledger) (hp : c.phase.outcome = some false → p.outcome = some false) :
    Stranded { s with writes := s.writes.set n { c with phase := p }, transactions := L } i pe :=
  { h with
    writes := forall_mem_set n h.writes fun hfor => hp (h.writes c (mem_of_getElem? hc) hfor) }

/-- A write that has not failed is that of another intent. -/
theorem isFor_eq_false (h : Stranded s i pe) {n : ℕ} {c : WriteCall}
    (hc : s.writes[n]? = some c) (hp : c.phase.outcome ≠ some false) :
    c.isFor pe.trid = false :=
  Bool.eq_false_iff.mpr fun hfor => hp (h.writes c (mem_of_getElem? hc) hfor)

/-- A chain that passes the balance on is that of another intent. -/
theorem trid_ne (h : Stranded s i pe) {n : ℕ} {c : BalanceCall} (hc : s.balances[n]? = some c)
    (hlive : c.sums.live = true) : c.trid ≠ pe.trid := by
  intro ht
  rw [h.balances c (mem_of_getElem? hc) ht] at hlive
  cases hlive

/-- No step helps a stranded element. -/
theorem step (h : Stranded s i pe) (hk : Kept ⟨s, gone⟩) (hp : Placed s) {e : Event}
    (hs : Pending.step s e = some s') : Stranded s' i pe := by
  cases step_cases hs with
  | spawn entry answer =>
      exact { h with writes := forall_mem_concat h.writes fun hfor => by cases hfor }
  | @intentDb n c ok hc hphase =>
      refine { h with gone := ?_ }
      cases ok with
      | false => exact h.gone
      | true =>
          refine forall_mem_concat h.gone fun hid => ?_
          rw [hk.ids n c hc] at hid
          exact (hp.elems i pe h.waits).1.ne_of_open hc (by simp [hphase]) hid
  | queued hc hphase => exact { h with waits := elemAt_append h.waits }
  | tick w =>
      refine { h with checks := forall_mem_append h.checks fun c hc _ => ?_ }
      rw [(mem_tickChecks hc).1]
      simp
  | @checkDb n first c pt hc hphase hf =>
      refine h.setCheck n fun ht => ?_
      cases pt with
      | none => simp
      | some d =>
          have hd := (findFirst_eq_some hf).1.1
          have hne : d._id ≠ c.trid := ht ▸ h.gone d hd
          simp [hne]
  | checkFail hc hphase => exact h.setCheck _ fun _ => by simp
  | @permitted n c hc hphase =>
      have hne : c.trid ≠ pe.trid := fun ht => h.checks c (mem_of_getElem? hc) ht hphase
      exact (h.setCheck n fun _ => by simp).onWritePermission c.slot hne
  | refused hc hphase => exact h.setCheck _ fun _ => by simp
  | @checkError n c hc hphase =>
      have hset := h.setCheck (c := c) (p := .done none) n fun _ => by simp
      exact ⟨hset.waits, hset.gone, hset.checks, hset.balances, hset.writes⟩
  | sumDb ok hc hphase => exact h.setSums hc (Aggregations.live_of_live_replied hphase)
  | sumError hc hphase =>
      have hset := h.setSums hc (Aggregations.live_of_live_done hphase)
      exact ⟨hset.waits, hset.gone, hset.checks, hset.balances, hset.writes⟩
  | sumWaits hc hphase hb => exact h.setSums hc (Aggregations.live_of_live_done hphase)
  | sumComplete hc hphase hb =>
      have hset := h.setSums hc (Aggregations.live_of_live_done hphase)
      exact hset.onBalance (hp.balances _ (mem_of_getElem? hc))
        (h.trid_ne hc (Aggregations.live_of_complete hphase hb)) _
  | saved hc hphase hb => exact h.setWrite hc _ (by simp [hphase])
  | writeFail hc hphase => exact h.setWrite hc s.transactions (by simp)
  | @written n c hc hphase =>
      have hset := h.setWrite hc (p := .done true) s.transactions (by simp [hphase])
      exact hset.onWritten (hp.writes c (mem_of_getElem? hc))
        (h.isFor_eq_false hc (by simp [hphase]))
  | writeError hc hphase =>
      have hset := h.setWrite hc (p := .done false) s.transactions (by simp)
      exact ⟨hset.waits, hset.gone, hset.checks, hset.balances, hset.writes⟩
  | removeDb ok hc hphase =>
      refine { h with gone := fun d hd => h.gone d ?_ }
      split at hd
      next => exact List.mem_of_mem_filter hd
      next => exact hd
  | expire hn => exact { h with gone := fun d hd => h.gone d (List.mem_of_mem_eraseIdx hd) }
  | _ => exact ⟨h.waits, h.gone, h.checks, h.balances, h.writes⟩

/-- What a stranded element is told is an error. -/
theorem sends (h : Stranded s i pe) {e : Event} {x : Sent} (hx : Sends s e x)
    (ht : x.trid = some pe.trid) : ∃ component, x.answer = .dbError component := by
  cases hx with
  | intentFailed => exact ⟨_, rfl⟩
  | checkFailed => exact ⟨_, rfl⟩
  | sumFailed => exact ⟨_, rfl⟩
  | writeFailed => exact ⟨_, rfl⟩
  | @nomoney n a c r bal hc hphase hb hlt =>
      exact absurd (Option.some.inj ht) (h.trid_ne hc (Aggregations.live_of_complete hphase hb))
  | @written n c hc hphase =>
      obtain ⟨⟨j, t⟩, ho, rfl⟩ := Option.map_eq_some_iff.mp ht
      have := h.isFor_eq_false hc (by simp [hphase])
      rw [WriteCall.isFor_eq_true.mpr ⟨j, ho⟩] at this
      cases this

end Stranded

/-- In every run, an element whose intent is not in the database any more and for
which nothing is under way waits for ever.  No worker, no tick and no answer of the
database changes that, and its request is told nothing but errors. -/
theorem stranded_for_ever {L : Ledger} (run : AnyRun step (State.init L) s)
    (h : Stranded s i pe) (rest : AnyRun step s s') :
    Stranded s' i pe ∧ ∀ x ∈ s'.answers, x.trid = some pe.trid →
      x ∈ s.answers ∨ ∃ component, x.answer = .dbError component := by
  have start : (∃ gone, Kept ⟨s, gone⟩) ∧ Placed s := by
    refine run.invariant (I := fun u => (∃ gone, Kept ⟨u, gone⟩) ∧ Placed u)
      ⟨⟨[], .init L⟩, .init L⟩ ?_
    rintro t e u ⟨⟨gone, hk⟩, hp⟩ - hs
    exact ⟨⟨_, hk.step hs⟩, hp.step hk hs⟩
  have all := rest.invariant (I := fun u => ((∃ gone, Kept ⟨u, gone⟩) ∧ Placed u) ∧
    Stranded u i pe ∧ ∀ x ∈ u.answers, x.trid = some pe.trid →
      x ∈ s.answers ∨ ∃ component, x.answer = .dbError component)
    ⟨start, h, fun x hx _ => .inl hx⟩ ?_
  · exact all.2
  · rintro t e u ⟨⟨⟨_, hk⟩, hp⟩, hst, hans⟩ - hs
    refine ⟨⟨⟨_, hk.step hs⟩, hp.step hk hs⟩, hst.step hk hp hs, fun x hx ht => ?_⟩
    rcases (mem_answers_of_step hs x).2 hx with hx | hx
    · exact hans x hx ht
    · exact .inr (hst.sends hx ht)

section Sample

/-- The intent of a queued payment expires before the first tick, which asks for it in vain. -/
def expiredIntent : List Event := queueEvents 0 11 10 1 ++ [.expire 0]

theorem stranded_for_ever_expired : ∃ s s', ∃ pe, AnyRun step (State.init endowment) s ∧
    AnyRun step s s' ∧ s'.checks.length = 1 ∧ Stranded s' 0 pe ∧
      ∀ x ∈ s'.answers, x.trid = some pe.trid →
        x ∈ s.answers ∨ ∃ component, x.answer = .dbError component := by
  have hexec : ((exec step (fun _ _ => True) (State.init endowment) expiredIntent).bind fun s =>
      (exec step (fun _ _ => True) s [.tick 0, .checkDb 0 none, .checkReply 0]).map fun s' =>
        ((elemAt s.pending_transactions 0).isSome, s.pendingtransactions.length, s.checks.length,
          s.balances.length, s.writes.length, s'.checks.length)) = some (true, 0, 0, 0, 0, 1) := by
    decide +kernel
  obtain ⟨s, hs, h⟩ := Option.bind_eq_some_iff.mp hexec
  obtain ⟨s', hs', h⟩ := Option.map_eq_some_iff.mp h
  simp only [Prod.mk.injEq, List.length_eq_zero_iff] at h
  obtain ⟨hsome, hdocs, hchecks, hbalances, hwrites, hasked⟩ := h
  obtain ⟨pe, hpe⟩ := Option.isSome_iff_exists.mp hsome
  have stranded : Stranded s 0 pe := by
    refine ⟨hpe, ?_, ?_, ?_, ?_⟩ <;> simp [hdocs, hchecks, hbalances, hwrites]
  obtain ⟨still, errors⟩ := stranded_for_ever (exec_run hs) stranded (exec_run hs')
  exact ⟨s, s', pe, exec_run hs, exec_run hs', hasked, still, errors⟩

end Sample

end SchuleAlsStaat.Pending
