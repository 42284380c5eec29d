import SchuleAlsStaat.Pending.Orphans
import SchuleAlsStaat.Pending.Owing

/-!
# Answers as receipts

What a request hands over is an intent or a write of spawned money.  A request that
hands over one thing at most has one entry at most, and its answer tells whether the
entry was written: `Receipts.booked_eq`.
-/

namespace SchuleAlsStaat.Pending

open Calls Runs

variable {s s' : State} {e : Event} {r : ReqId}

/-! ## What a request hands over -/

/-- The intents of request `r`. -/
def intentsFor (l : List IntentCall) (r : ReqId) : ℕ := l.countP fun c => c.answer.req = r

/-- The writes of spawned money for request `r`. -/
def spawnedFor (l : List WriteCall) (r : ReqId) : ℕ :=
  l.countP fun c => c.origin.isNone && c.answer.req = r

/-- What request `r` has handed over. -/
def handed (s : State) (r : ReqId) : ℕ := intentsFor s.intents r + spawnedFor s.writes r

/-- The entries that were written for request `r`. -/
def booked (s : State) (r : ReqId) : ℕ :=
  s.writes.countP fun c => c.answer.req = r && c.phase.outcome = some true

/-- Only a request hands something over. -/
theorem handed_step (hs : step s e = some s') (r : ReqId) :
    handed s' r = handed s r + opened r e := by
  have setIntent : ∀ {n : ℕ} {c : IntentCall} (p : Phase Bool), s.intents[n]? = some c →
      intentsFor (s.intents.set n { c with phase := p }) r + spawnedFor s.writes r =
        handed s r := fun p hc => congrArg (· + _) (countP_set_eq hc rfl)
  have setWrite : ∀ {n : ℕ} {c : WriteCall} (p : Phase Bool), s.writes[n]? = some c →
      intentsFor s.intents r + spawnedFor (s.writes.set n { c with phase := p }) r =
        handed s r := fun p hc => congrArg (intentsFor s.intents r + ·) (countP_set_eq hc rfl)
  cases step_cases hs with
  | intent w now sender entry answer =>
      simp only [handed, State.intent, intentsFor, opened, List.countP_append,
        List.countP_singleton, decide_eq_true_eq]
      omega
  | spawn entry answer =>
      simp only [handed, State.transaction_write, spawnedFor, opened, List.countP_append,
        List.countP_singleton, Option.isNone_none, Bool.true_and, decide_eq_true_eq]
      omega
  | intentDb ok hc hp => exact setIntent _ hc
  | queued hc hp => exact setIntent _ hc
  | intentError hc hp => exact setIntent _ hc
  | permitted =>
      rw [State.onWritePermission]
      split <;> rfl
  | sumComplete =>
      rw [State.onBalance]
      split
      · rfl
      · simp [handed, State.transaction_write, spawnedFor, opened]
  | saved hc hp hb => exact setWrite _ hc
  | writeFail hc hp => exact setWrite _ hc
  | @written n c hc hp =>
      rcases c.origin_cases with ho | ⟨i, t, ho⟩
      · rw [State.onWritten_none ho]
        exact setWrite _ hc
      · rw [State.onWritten_some ho]
        exact setWrite _ hc
  | writeError hc hp => exact setWrite _ hc
  | _ => rfl

/-! ## Calls that are done -/

/-- The call of an intent that is done stays as it is. -/
theorem mem_intents_of_done (hs : step s e = some s') {c : IntentCall} {ok : Bool}
    (hc : c ∈ s.intents) (hp : c.phase = .done ok) : c ∈ s'.intents := by
  have set : ∀ {n : ℕ} {k k' : IntentCall}, s.intents[n]? = some k → (∀ ok, k.phase ≠ .done ok) →
      c ∈ s.intents.set n k' := fun hk hk' =>
    mem_set_of_ne _ hk hc (by rintro rfl; exact hk' ok hp)
  cases step_cases hs with
  | intent => exact List.mem_append_left _ hc
  | intentDb ok hk hk' => exact set hk (by simp [hk'])
  | queued hk hk' => exact set hk (by simp [hk'])
  | intentError hk hk' => exact set hk (by simp [hk'])
  | permitted =>
      rw [State.onWritePermission]
      split <;> exact hc
  | sumComplete =>
      rw [State.onBalance]
      split <;> exact hc
  | @written n k hk hk' =>
      rw [State.onWritten]
      split <;> exact hc
  | _ => exact hc

/-- The call of a write that is done stays as it is. -/
theorem mem_writes_of_done (hs : step s e = some s') {c : WriteCall} {ok : Bool}
    (hc : c ∈ s.writes) (hp : c.phase = .done ok) : c ∈ s'.writes := by
  have set : ∀ {n : ℕ} {k k' : WriteCall}, s.writes[n]? = some k → (∀ ok, k.phase ≠ .done ok) →
      c ∈ s.writes.set n k' := fun hk hk' =>
    mem_set_of_ne _ hk hc (by rintro rfl; exact hk' ok hp)
  cases step_cases hs with
  | spawn => exact List.mem_append_left _ hc
  | permitted =>
      rw [State.onWritePermission]
      split <;> exact hc
  | sumComplete =>
      rw [State.onBalance]
      split
      · exact hc
      · exact List.mem_append_left _ hc
  | saved hk hk' => exact set hk (by simp [hk'])
  | writeFail hk hk' => exact set hk (by simp [hk'])
  | @written n k hk hk' =>
      rw [State.onWritten]
      split <;> exact set hk (by simp [hk'])
  | writeError hk hk' => exact set hk (by simp [hk'])
  | _ => exact hc

/-- A queued intent stays queued. -/
theorem Queued.step {gone gone' : List PendingTransaction} (h : Kept ⟨s, gone⟩)
    (h' : Kept ⟨s', gone'⟩) (hs : Pending.step s e = some s') {t : ObjectId} {client : Client}
    (hq : Queued s.intents t client) : Queued s'.intents t client := by
  obtain ⟨c, hc, hp, ha⟩ := hq
  have hid : c.pt._id = t := h.ids t c hc
  obtain ⟨n, hn⟩ := List.mem_iff_getElem?.mp (mem_intents_of_done hs (mem_of_getElem? hc) hp)
  have hid' : c.pt._id = n := h'.ids n c hn
  exact ⟨c, by rw [← hid, hid', hn], hp, ha⟩

/-- A check is one that was issued before, or that of an element. -/
theorem mem_checks_of_step (hs : step s e = some s') {c : CheckCall} (hc : c ∈ s'.checks) :
    (∃ k ∈ s.checks, k.trid = c.trid ∧ k.answer = c.answer) ∨
      ∃ i pe, elemAt s.pending_transactions i = some pe ∧ pe.trid = c.trid ∧
        pe.answer = c.answer := by
  have set : ∀ {n : ℕ} {k : CheckCall} {p : Phase (Option Bool)}, s.checks[n]? = some k →
      c ∈ s.checks.set n { k with phase := p } →
        ∃ k ∈ s.checks, k.trid = c.trid ∧ k.answer = c.answer := fun hk hmem => by
    rcases List.mem_or_eq_of_mem_set hmem with hmem | rfl
    · exact ⟨c, hmem, rfl, rfl⟩
    · exact ⟨_, mem_of_getElem? hk, rfl, rfl⟩
  cases step_cases hs with
  | tick w =>
      rcases List.mem_append.mp hc with hc | hc
      · exact .inl ⟨c, hc, rfl, rfl⟩
      · obtain ⟨-, pe, hpe, htrid, -, hanswer⟩ := mem_tickChecks hc
        exact .inr ⟨c.slot, pe, hpe, htrid, hanswer⟩
  | checkDb hk hp hf => exact .inl (set hk hc)
  | checkFail hk hp => exact .inl (set hk hc)
  | permitted hk hp =>
      refine .inl (set hk (p := .done (some true)) ?_)
      rw [State.onWritePermission] at hc
      split at hc <;> exact hc
  | refused hk hp => exact .inl (set hk hc)
  | checkError hk hp => exact .inl (set hk hc)
  | sumComplete =>
      refine .inl ⟨c, ?_, rfl, rfl⟩
      rw [State.onBalance] at hc
      split at hc <;> exact hc
  | written =>
      refine .inl ⟨c, ?_, rfl, rfl⟩
      rw [State.onWritten] at hc
      split at hc <;> exact hc
  | _ => exact .inl ⟨c, hc, rfl, rfl⟩

/-! ## What an answer refers to -/

/-- The call that an answer is the end of. -/
inductive Refers (s : State) (x : Sent) : Prop where
  /-- The intent could not be saved. -/
  | unsaved (c : IntentCall) : c ∈ s.intents → c.phase = .done false → c.answer = x.client →
      x.trid = none → x.answer.isText "ok" = false → Refers s x
  | queued (t : ObjectId) : x.trid = some t → Queued s.intents t x.client → Refers s x
  | spawned (c : WriteCall) (ok : Bool) : c ∈ s.writes → c.origin = none → c.phase = .done ok →
      c.answer = x.client → x.trid = none → x.answer.isText "ok" = ok → Refers s x

namespace Refers

variable {x : Sent}

theorem step {gone gone' : List PendingTransaction} (k : Kept ⟨s, gone⟩) (k' : Kept ⟨s', gone'⟩)
    (hs : Pending.step s e = some s') (h : Refers s x) : Refers s' x := by
  cases h with
  | unsaved c hc hp ha ht hm => exact .unsaved c (mem_intents_of_done hs hc hp) hp ha ht hm
  | queued t ht hq => exact .queued t ht (hq.step k k' hs)
  | spawned c ok hc ho hp ha ht hm =>
      exact .spawned c ok (mem_writes_of_done hs hc hp) ho hp ha ht hm

/-- The answer to a write refers to it. -/
theorem write {n : ℕ} {c : WriteCall} (hc : s.writes[n]? = some c) (ok : Bool) {m : Answer}
    (hq : ∀ i t, c.origin = some (i, t) → Queued s'.intents t c.answer)
    (hw : s'.writes = s.writes.set n { c with phase := .done ok }) (hm : m.isText "ok" = ok) :
    Refers s' ⟨c.answer, c.origin.map Prod.snd, m⟩ := by
  rcases c.origin_cases with ho | ⟨i, t, ho⟩
  · have hmem : ({ c with phase := .done ok } : WriteCall) ∈ s'.writes :=
      hw ▸ mem_set_self _ hc
    exact .spawned _ ok hmem ho rfl rfl (by rw [ho]; rfl) hm
  · exact .queued t (by rw [ho]; rfl) (hq i t ho)

end Refers

/-- Every answer is a message, refers to a call and tells what became of it. -/
structure Receipts (s : State) : Prop where
  answered : Answered s
  kept : ∃ gone, Kept ⟨s, gone⟩
  checks : ∀ c ∈ s.checks, Queued s.intents c.trid c.answer
  refers : ∀ x ∈ s.answers, Refers s x
  messages : ∀ x ∈ s.answers, x.answer.isMessage = true

namespace Receipts

theorem init (L : Ledger) : Receipts (State.init L) where
  answered := .init L
  kept := ⟨[], .init L⟩
  checks := by simp [State.init]
  refers := by simp [State.init]
  messages := by simp [State.init]

/-- What a step answers refers to the call that the step ends. -/
theorem sends (h : Receipts s) {gone' : List PendingTransaction} (k' : Kept ⟨s', gone'⟩)
    (hs : Pending.step s e = some s') {x : Sent} (hx : Sends s e x) : Refers s' x := by
  obtain ⟨gone, k⟩ := h.kept
  cases hx with
  | @intentFailed n c hc hp =>
      cases step_cases hs with
      | queued hk hk' =>
          cases hc.symm.trans hk
          cases hp.symm.trans hk'
      | intentError hk hk' =>
          cases hc.symm.trans hk
          have hmem : ({ c with phase := .done false } : IntentCall) ∈
              s.intents.set n { c with phase := .done false } := mem_set_self _ hc
          exact .unsaved _ hmem rfl rfl rfl rfl
  | @checkFailed n c hc hp =>
      exact .queued c.trid rfl ((h.checks c (mem_of_getElem? hc)).step k k' hs)
  | @sumFailed n a c hc hp =>
      exact .queued c.trid rfl ((k.balances c (mem_of_getElem? hc)).step k k' hs)
  | @nomoney n a c r bal hc hr hb hlt =>
      exact .queued c.trid rfl ((k.balances c (mem_of_getElem? hc)).step k k' hs)
  | @written n c hc hp =>
      refine Refers.write hc true
        (fun i t ho => (k.writes c (mem_of_getElem? hc) i t ho).step k k' hs) ?_ rfl
      cases step_cases hs with
      | written hk hk' =>
          cases hc.symm.trans hk
          rw [State.onWritten]
          split <;> rfl
      | writeError hk hk' =>
          cases hc.symm.trans hk
          cases hp.symm.trans hk'
  | @writeFailed n c hc hp =>
      refine Refers.write hc false
        (fun i t ho => (k.writes c (mem_of_getElem? hc) i t ho).step k k' hs) ?_ rfl
      cases step_cases hs with
      | written hk hk' =>
          cases hc.symm.trans hk
          cases hp.symm.trans hk'
      | writeError hk hk' =>
          cases hc.symm.trans hk
          rfl

theorem step (h : Receipts s) (hok : Orderly s e) (hs : Pending.step s e = some s') :
    Receipts s' := by
  obtain ⟨gone, k⟩ := h.kept
  have k' := k.step hs
  refine ⟨h.answered.step hok.1 hok.2 hs, ⟨_, k'⟩, fun c hc => ?_, fun x hx => ?_,
    fun x hx => ?_⟩
  · rcases mem_checks_of_step hs hc with ⟨d, hd, ht, ha⟩ | ⟨i, pe, hpe, ht, ha⟩
    · rw [← ht, ← ha]
      exact (h.checks d hd).step k k' hs
    · rw [← ht, ← ha]
      exact (k.elems i pe hpe).step k k' hs
  · rcases (mem_answers_of_step hs x).2 hx with hx | hx
    · exact (h.refers x hx).step k k' hs
    · exact h.sends k' hs hx
  · rcases (mem_answers_of_step hs x).2 hx with hx | hx
    · exact h.messages x hx
    · cases hx <;> rfl

theorem of_run {L : Ledger} (run : Run Pending.step Orderly (State.init L) s) : Receipts s :=
  run.invariant (.init L) fun _ _ _ h hok hs => h.step hok hs

/-- An intent of the request is the only call of the request. -/
theorem intent_unique (hone : handed s r ≤ 1) {c c' : IntentCall} (hc : c ∈ s.intents)
    (hr : c.answer.req = r) (hc' : c' ∈ s.intents) (hr' : c'.answer.req = r) : c = c' :=
  eq_of_countP_le_one (p := fun c : IntentCall => c.answer.req = r)
    ((Nat.le_add_right _ _).trans hone) hc hc' (by simpa using hr) (by simpa using hr')

theorem not_spawned (hone : handed s r ≤ 1) {c : IntentCall} (hc : c ∈ s.intents)
    (hr : c.answer.req = r) {k : WriteCall} (hk : k ∈ s.writes) (hr' : k.answer.req = r) :
    k.origin ≠ none := by
  intro ho
  have h1 : 0 < intentsFor s.intents r := List.countP_pos_iff.mpr ⟨c, hc, by simpa using hr⟩
  have h2 : 0 < spawnedFor s.writes r := List.countP_pos_iff.mpr ⟨k, hk, by simp [ho, hr']⟩
  rw [handed] at hone
  omega

/-- The entries of a request with a queued intent are those of the intent. -/
theorem booked_eq_written {gone : List PendingTransaction} (k : Kept ⟨s, gone⟩)
    (hone : handed s r ≤ 1) {t : ObjectId} {client : Client} (hq : Queued s.intents t client)
    (hr : client.req = r) : booked s r = written s.writes t := by
  obtain ⟨c, hc, hp, rfl⟩ := id hq
  have hmem := mem_of_getElem? hc
  have same : ∀ w ∈ s.writes, (decide (w.answer.req = r) = true ↔ w.isFor t = true) := by
    intro w hw
    rw [decide_eq_true_eq, WriteCall.isFor_eq_true]
    constructor
    · intro hreq
      rcases w.origin_cases with ho | ⟨i, t', ho⟩
      · exact absurd ho (not_spawned hone hmem hr hw hreq)
      · obtain ⟨c', hc', -, ha⟩ := k.writes w hw i t' ho
        have heq := intent_unique hone (mem_of_getElem? hc') (by rw [ha, hreq]) hmem hr
        have ht : t' = t := (k.ids t' c' hc').symm.trans (by rw [heq]; exact k.ids t c hc)
        exact ⟨i, ht ▸ ho⟩
    · rintro ⟨i, ho⟩
      rw [(k.writes w hw i t ho).unique hq, hr]
  refine List.countP_congr fun w hw => ?_
  simp only [Bool.and_eq_true, same w hw]

/-- If all writes of a request are of spawned money, then there is at most one. -/
theorem booked_le_of_spawned (hone : handed s r ≤ 1)
    (hall : ∀ w ∈ s.writes, w.answer.req = r → w.origin = none) : booked s r ≤ 1 := by
  refine le_trans (List.countP_mono_left (q := fun c => c.origin.isNone && c.answer.req = r)
    fun w hw hp => ?_) ((Nat.le_add_left _ _).trans hone)
  simp only [Bool.and_eq_true, decide_eq_true_eq] at hp
  simp [hall w hw hp.1, hp.1]

/-- A write of spawned money is the only write of its request. -/
theorem spawned_unique {gone : List PendingTransaction} (k : Kept ⟨s, gone⟩)
    (hone : handed s r ≤ 1) {c c' : WriteCall} (hc : c ∈ s.writes) (ho : c.origin = none)
    (hr : c.answer.req = r) (hc' : c' ∈ s.writes) (hr' : c'.answer.req = r) : c = c' := by
  have ho' : c'.origin = none := by
    rcases c'.origin_cases with ho' | ⟨i, t, ho'⟩
    · exact ho'
    · obtain ⟨d, hd, -, ha⟩ := k.writes c' hc' i t ho'
      exact absurd ho (not_spawned hone (mem_of_getElem? hd) (by rw [ha, hr']) hc hr)
  exact eq_of_countP_le_one (p := fun c : WriteCall => c.origin.isNone && c.answer.req = r)
    ((Nat.le_add_left _ _).trans hone) hc hc' (by simp [ho, hr]) (by simp [ho', hr'])

/-- At most one entry is written for a request that hands over one thing. -/
theorem booked_le_one (h : Receipts s) (hone : handed s r ≤ 1) : booked s r ≤ 1 := by
  by_cases hall : ∀ w ∈ s.writes, w.answer.req = r → w.origin = none
  · exact booked_le_of_spawned hone hall
  · push Not at hall
    obtain ⟨w, hw, hr, ho⟩ := hall
    obtain ⟨gone, k⟩ := h.kept
    rcases w.origin_cases with ho' | ⟨i, t, ho'⟩
    · exact absurd ho' ho
    · rw [booked_eq_written k hone (k.writes w hw i t ho') hr]
      exact h.answered.chains.written_le_one t

/-- Nothing is written for a request that hands nothing over. -/
theorem booked_eq_zero (h : Receipts s) (hzero : handed s r = 0) : booked s r = 0 := by
  obtain ⟨gone, k⟩ := h.kept
  rw [booked, List.countP_eq_zero]
  intro w hw hpw
  simp only [Bool.and_eq_true, decide_eq_true_eq] at hpw
  rw [handed] at hzero
  rcases w.origin_cases with ho | ⟨i, t, ho⟩
  · have : 0 < spawnedFor s.writes r := List.countP_pos_iff.mpr ⟨w, hw, by simp [ho, hpw.1]⟩
    omega
  · obtain ⟨c, hc, -, ha⟩ := k.writes w hw i t ho
    have : 0 < intentsFor s.intents r :=
      List.countP_pos_iff.mpr ⟨c, mem_of_getElem? hc, by simp [ha, hpw.1]⟩
    omega

/-- An answer tells whether the entry of its request was written. -/
theorem booked_eq (h : Receipts s) {x : Sent} (hx : x ∈ s.answers)
    (hone : handed s x.client.req ≤ 1) :
    booked s x.client.req = if x.answer.isText "ok" then 1 else 0 := by
  obtain ⟨gone, k⟩ := h.kept
  cases h.refers x hx with
  | unsaved c hc hp ha ht hm =>
      have hr : c.answer.req = x.client.req := by rw [ha]
      rw [hm, booked, if_neg Bool.false_ne_true, List.countP_eq_zero]
      intro w hw hpw
      simp only [Bool.and_eq_true, decide_eq_true_eq] at hpw
      rcases w.origin_cases with ho | ⟨i, t, ho⟩
      · exact not_spawned hone hc hr hw hpw.1 ho
      · obtain ⟨c', hc', hp', ha'⟩ := k.writes w hw i t ho
        have heq := intent_unique hone (mem_of_getElem? hc') (by rw [ha', hpw.1]) hc hr
        rw [heq, hp] at hp'
        cases hp'
  | queued t ht hq =>
      rw [booked_eq_written k hone hq rfl]
      have hag := h.answered.agrees hx ht
      rw [Agrees] at hag
      split at hag
      next hok =>
        rw [if_pos hok]
        exact le_antisymm (h.answered.chains.written_le_one t) hag
      next hok => rw [if_neg hok, hag.1]
  | spawned c ok hc ho hp ha ht hm =>
      have hr : c.answer.req = x.client.req := by rw [ha]
      have hle : booked s x.client.req ≤ 1 := h.booked_le_one hone
      rw [hm]
      cases ok with
      | true =>
          have hpos : 0 < booked s x.client.req :=
            List.countP_pos_iff.mpr ⟨c, hc, by simp [hr, hp]⟩
          exact le_antisymm hle hpos
      | false =>
          rw [booked, if_neg Bool.false_ne_true, List.countP_eq_zero]
          intro w hw hpw
          simp only [Bool.and_eq_true, decide_eq_true_eq] at hpw
          rw [← spawned_unique k hone hc ho hr hw hpw.1, hp] at hpw
          cases hpw.2

end Receipts

end SchuleAlsStaat.Pending
