import SchuleAlsStaat.Pending.Chains

/-!
# Answers and effects

The client of a queued transaction is answered "ok" when its entry was written
and "nomoney" when it is refused.  A refused element leaves its slot and its
intent is removed, so nothing can be written for it any more.

The error exits of `checkWritePermission`, `getBalance` and `write` answer as
well, but they leave the element in its slot.  `ErrorAfterRefusal` excludes
them, and `NoOverlap` excludes that one chain answers after another.
-/

namespace SchuleAlsStaat.Pending

open Calls Runs
open Js (Number)

/-! ## What a step answers -/

/-- The answers that an event sends. -/
inductive Sends (s : State) : Event → Sent → Prop where
  | intentFailed {n : ℕ} {c : IntentCall} : s.intents[n]? = some c → c.phase = .replied false →
      Sends s (.intentReply n) ⟨c.answer, none, .dbError "trdb.intent"⟩
  | checkFailed {n : ℕ} {c : CheckCall} : s.checks[n]? = some c → c.phase = .replied none →
      Sends s (.checkReply n) ⟨c.answer, c.trid, .dbError "trdb.checkWritePermission"⟩
  | sumFailed {n : ℕ} {a : Aggregation} {c : BalanceCall} : s.balances[n]? = some c →
      c.sums.get a = .replied none →
      Sends s (.sumReply n a) ⟨c.pe.answer, c.trid, .dbError a.component⟩
  | nomoney {n : ℕ} {a : Aggregation} {c : BalanceCall} {r : Option ℚ} {bal : ℚ} :
      s.balances[n]? = some c → c.sums.get a = .replied r →
      (c.sums.set (.done r) a).aggregationComplete = some bal →
      (.fin bal - c.pe.entry.amount_sent : Number).lt (.fin 0) = true →
      Sends s (.sumReply n a) ⟨c.pe.answer, c.trid, .text "nomoney"⟩
  | written {n : ℕ} {c : WriteCall} : s.writes[n]? = some c → c.phase = .replied true →
      Sends s (.writeReply n) ⟨c.answer, c.origin.map Prod.snd, .ok⟩
  | writeFailed {n : ℕ} {c : WriteCall} : s.writes[n]? = some c → c.phase = .replied false →
      Sends s (.writeReply n) ⟨c.answer, c.origin.map Prod.snd, .dbError "trdb.write"⟩

variable {s s' : State} {e : Event} {t : ObjectId}

/-- A step sends the answers `Sends` names and keeps the others. -/
theorem mem_answers_of_step (hs : step s e = some s') (x : Sent) :
    (x ∈ s.answers → x ∈ s'.answers) ∧ (x ∈ s'.answers → x ∈ s.answers ∨ Sends s e x) := by
  -- appending one answer that `Sends` names
  have add : ∀ {y : Sent}, Sends s e y → s'.answers = s.answers ++ [y] →
      (x ∈ s.answers → x ∈ s'.answers) ∧ (x ∈ s'.answers → x ∈ s.answers ∨ Sends s e x) := by
    intro y hy heq
    rw [heq, List.mem_append, List.mem_singleton]
    exact ⟨.inl, Or.imp_right fun hxy => hxy ▸ hy⟩
  have same : s'.answers = s.answers →
      (x ∈ s.answers → x ∈ s'.answers) ∧ (x ∈ s'.answers → x ∈ s.answers ∨ Sends s e x) := by
    intro heq
    rw [heq]
    exact ⟨id, .inl⟩
  cases step_cases hs with
  | intentError hc hp => exact add (.intentFailed hc hp) rfl
  | permitted =>
      refine same ?_
      rw [State.onWritePermission]
      split <;> rfl
  | checkError hc hp => exact add (.checkFailed hc hp) rfl
  | sumError hc hp => exact add (.sumFailed hc hp) rfl
  | @sumComplete n a c y bal hc hp hb =>
      by_cases hlt : (.fin bal - c.pe.entry.amount_sent : Number).lt (.fin 0) = true
      · refine add (.nomoney hc hp hb hlt) ?_
        rw [State.onBalance, if_pos hlt]
        rfl
      · refine same ?_
        rw [State.onBalance, if_neg hlt]
        rfl
  | @written n c hc hp =>
      have sends : Sends s (.writeReply n) ⟨c.answer, c.origin.map Prod.snd, .ok⟩ :=
        .written hc hp
      obtain ho | ⟨i, t, ho⟩ := c.origin_cases
      · rw [ho] at sends
        rw [State.onWritten_none ho]
        -- spawned money is answered twice
        simp only [State.send, List.mem_append, List.mem_singleton]
        exact ⟨fun hx => .inl (.inl hx), Or.rec (Or.imp_right fun hxy => hxy ▸ sends)
          fun hxy => .inr (hxy ▸ sends)⟩
      · rw [ho] at sends
        rw [State.onWritten_some ho]
        simp only [State.send, State.deleteSlot, State.writeComplete, List.mem_append,
          List.mem_singleton]
        exact ⟨.inl, Or.imp_right fun hxy => hxy ▸ sends⟩
  | writeError hc hp => exact add (.writeFailed hc hp) rfl
  | _ => exact same rfl

/-! ## What a step keeps -/

/-- What every step does to the intents: none is queued anew once it left the
queue, nothing is written for one that is not queued, and a removal stays
issued. -/
structure Frame (s s' : State) : Prop where
  next : s.nextId ≤ s'.nextId
  waiting : ∀ t, t < s.nextId →
    saving s'.intents t + queued s'.pending_transactions t ≤
      saving s.intents t + queued s.pending_transactions t
  written_le : ∀ t, written s.writes t ≤ written s'.writes t
  written_eq : ∀ t, queued s.pending_transactions t = 0 → written s'.writes t = written s.writes t
  removes : ∀ r ∈ s.removes, ∃ r' ∈ s'.removes, r'.trid = r.trid

namespace Frame

/-- A step that leaves the intents, the queue and the writes alone. -/
theorem of_eq (hn : s'.nextId = s.nextId) (hi : ∀ t, saving s'.intents t ≤ saving s.intents t)
    (hq : ∀ t, queued s'.pending_transactions t ≤ queued s.pending_transactions t)
    (hw : ∀ t, written s'.writes t = written s.writes t)
    (hr : ∀ r ∈ s.removes, r ∈ s'.removes) : Frame s s' where
  next := hn.ge
  waiting t _ := Nat.add_le_add (hi t) (hq t)
  written_le t := (hw t).ge
  written_eq t _ := hw t
  removes r hr' := ⟨r, hr r hr', rfl⟩

theorem queued_deleteAt_le (l : List Slot) (i : ℕ) (t : ObjectId) :
    queued (deleteAt l i) t ≤ queued l t := by
  cases he : elemAt l i with
  | some pe =>
      have := queued_deleteAt he t
      omega
  | none =>
      have same : deleteAt l i = l := by
        rw [deleteAt, List.modify_eq_set_getElem?]
        rw [elemAt] at he
        cases hl : l[i]? with
        | none => rfl
        | some sl =>
            obtain ⟨w, e⟩ := sl
            have : e = none := by simpa [hl] using he
            subst this
            obtain ⟨hlt, heq⟩ := List.getElem?_eq_some_iff.mp hl
            change l.set i ⟨w, none⟩ = l
            rw [← heq, List.set_getElem_self]
      rw [same]

theorem intent (w : WorkerId) (now : Time) (sender : ObjectId) (entry : Draft)
    (answer : Client) : Frame s (s.intent w now sender entry answer) where
  next := Nat.le_succ _
  waiting t ht := by
    simp [State.intent, saving_concat, Nat.ne_of_gt ht]
  written_le _ := le_rfl
  written_eq _ _ := rfl
  removes r hr := ⟨r, hr, rfl⟩

/-- A reply to `save` takes an intent to the queue at most. -/
theorem setIntent {n : ℕ} {c : IntentCall} (hc : s.intents[n]? = some c) {p : Phase Bool}
    (hp : c.phase.open? = true) : ∀ t, saving (s.intents.set n { c with phase := p }) t +
      (if c.pt._id = t then 1 else 0) =
        saving s.intents t + if c.pt._id = t ∧ p.open? = true then 1 else 0 := by
  intro t
  have := saving_set t hc { c with phase := p }
  simpa [hp] using this

theorem setWrite {n : ℕ} {c : WriteCall} (hc : s.writes[n]? = some c) {p : Phase Bool}
    (hp : p.outcome = c.phase.outcome) :
    ∀ t, written (s.writes.set n { c with phase := p }) t = written s.writes t := by
  intro t
  have := written_set t hc { c with phase := p }
  simp only [WriteCall.isFor_phase, hp] at this
  omega

/-- Every step keeps the frame. -/
theorem step (h : Chains s) (hs : Pending.step s e = some s') : Frame s s' := by
  cases step_cases hs with
  | intent w now sender entry answer => exact intent w now sender entry answer
  | spawn entry answer =>
      exact of_eq rfl (fun _ => le_rfl) (fun _ => le_rfl) (fun t => written_concat t _ _ rfl)
        fun _ => id
  | intentDb ok hc hp =>
      refine of_eq rfl (fun t => ?_) (fun _ => le_rfl) (fun _ => rfl) fun _ => id
      have := setIntent hc (p := .replied ok) (by simp [hp]) t
      simp only [Phase.open?_replied, and_true] at this
      dsimp only
      omega
  | queued hc hp =>
      refine ⟨le_rfl, fun t _ => ?_, fun _ => le_rfl, fun _ _ => rfl, fun r hr => ⟨r, hr, rfl⟩⟩
      have := setIntent hc (p := .done true) (by simp [hp]) t
      simp only [Phase.open?_done, Bool.false_eq_true, and_false, if_false] at this
      simp only [State.transaction_queue, queued_concat]
      omega
  | intentError hc hp =>
      refine of_eq rfl (fun t => ?_) (fun _ => le_rfl) (fun _ => rfl) fun _ => id
      have := setIntent hc (p := .done false) (by simp [hp]) t
      simp only [Phase.open?_done, Bool.false_eq_true, and_false, if_false] at this
      simp only [State.send]
      omega
  | permitted =>
      rw [State.onWritePermission]
      split <;> exact of_eq rfl (fun _ => le_rfl) (fun _ => le_rfl) (fun _ => rfl) fun _ => id
  | sumComplete =>
      rw [State.onBalance]
      split
      next =>
        exact of_eq rfl (fun _ => le_rfl) (queued_deleteAt_le _ _) (fun _ => rfl)
          fun _ => List.mem_append_left _
      next =>
        exact of_eq rfl (fun _ => le_rfl) (fun _ => le_rfl) (fun t => written_concat t _ _ rfl)
          fun _ => id
  | @saved n c b hc hp hb =>
      have more : ∀ t, written (s.writes.set n { c with phase := .replied true }) t =
          written s.writes t + if c.isFor t then 1 else 0 := by
        intro t
        have := written_set t hc { c with phase := .replied true }
        simpa [hp] using this
      refine ⟨le_rfl, fun _ _ => le_rfl, fun t => ?_, fun t hq => ?_, fun r hr => ⟨r, hr, rfl⟩⟩
      · simp only [more]
        exact Nat.le_add_right ..
      · -- the write is part of a chain of a queued element
        have hone := h.one t
        have hfor : ¬ c.isFor t = true := by
          intro hfor
          have : 0 < writing s.writes t := countP_pos_of_getElem? hc (by simp [hfor, hp])
          omega
        simp only [more, if_neg hfor, add_zero]
  | @writeFail n c hc hp =>
      refine of_eq rfl (fun _ => le_rfl) (fun _ => le_rfl) (fun t => ?_) fun _ => id
      have := written_set t hc { c with phase := .replied false }
      simpa [hp] using this
  | @written n c hc hp =>
      have same := setWrite hc (p := .done true) (by simp [hp])
      obtain ho | ⟨i, t, ho⟩ := c.origin_cases
      · rw [State.onWritten_none ho]
        exact of_eq rfl (fun _ => le_rfl) (fun _ => le_rfl) same fun _ => id
      · rw [State.onWritten_some ho]
        exact of_eq rfl (fun _ => le_rfl) (queued_deleteAt_le _ _) same
          fun _ => List.mem_append_left _
  | writeError hc hp =>
      have same := setWrite hc (p := .done false) (by simp [hp])
      exact of_eq rfl (fun _ => le_rfl) (fun _ => le_rfl) same fun _ => id
  | @removeDb n c ok hc hp =>
      refine ⟨le_rfl, fun _ _ => le_rfl, fun _ => le_rfl, fun _ _ => rfl, fun r hr => ?_⟩
      by_cases hrc : r = c
      · exact ⟨_, mem_set_self { c with phase := .done ok } hc, by rw [hrc]⟩
      · exact ⟨r, mem_set_of_ne _ hc hr hrc, rfl⟩
  | _ => exact of_eq rfl (fun _ => le_rfl) (fun _ => le_rfl) (fun _ => rfl) fun _ => id

end Frame

/-! ## Refused intents -/

/-- The client was told that the sender has no money. -/
def Refused (s : State) (t : ObjectId) : Prop :=
  ∃ x ∈ s.answers, x.trid = some t ∧ x.answer.isText "nomoney" = true

instance (s : State) (t : ObjectId) : Decidable (Refused s t) := by
  unfold Refused
  infer_instance

/-- An error of the calls made for an element is answered only when the element
was refused before. -/
def ErrorAfterRefusal (s : State) : Event → Prop
  | .checkReply n => ∀ c ∈ s.checks[n]?, c.phase = .replied none → Refused s c.trid
  | .sumReply n a => ∀ c ∈ s.balances[n]?, c.sums.get a = .replied none → Refused s c.trid
  | .writeReply n => ∀ c ∈ s.writes[n]?, c.phase = .replied false →
      ∀ o ∈ c.origin, Refused s o.2
  | _ => True

instance (s : State) (e : Event) : Decidable (ErrorAfterRefusal s e) :=
  match e with
  | .checkReply _ => inferInstanceAs (Decidable (∀ _ ∈ _, _))
  | .sumReply .. => inferInstanceAs (Decidable (∀ _ ∈ _, _))
  | .writeReply _ => inferInstanceAs (Decidable (∀ _ ∈ _, _))
  | .intent .. | .spawn .. | .intentDb .. | .intentReply _ | .tick _ | .checkDb .. | .checkFail _
  | .sumDb .. | .writeDb .. | .removeDb .. | .expire _ | .delete _ => isTrue trivial

/-- What an answer to intent `t` says: "ok" that its entry was written, and
every other answer that nothing was written, that the element left the queue
and that the removal of the intent was issued. -/
def Agrees (s : State) (t : ObjectId) (m : Answer) : Prop :=
  if m.isText "ok" = true then 0 < written s.writes t
  else written s.writes t = 0 ∧ queued s.pending_transactions t = 0 ∧ ∃ r ∈ s.removes, r.trid = t

/-- "ok" is sent for written entries, and everything else to refused clients,
whose element and intent are gone. -/
structure Answered (s : State) : Prop where
  chains : Chains s
  ok : ∀ x ∈ s.answers, x.answer.isText "ok" = true → ∀ t, x.trid = some t → 0 < written s.writes t
  refused : ∀ x ∈ s.answers, x.answer.isText "ok" = false → ∀ t, x.trid = some t → Refused s t
  gone : ∀ t, Refused s t → t < s.nextId ∧
    saving s.intents t + queued s.pending_transactions t = 0 ∧ written s.writes t = 0 ∧
    ∃ r ∈ s.removes, r.trid = t

namespace Answered

theorem init (L : Ledger) : Answered (State.init L) := by
  refine ⟨Chains.init L, ?_, ?_, ?_⟩ <;> simp [State.init, Refused]

/-- A refused intent stays gone. -/
theorem gone_of_frame (h : Answered s) (f : Frame s s') (ht : Refused s t) : t < s'.nextId ∧
    saving s'.intents t + queued s'.pending_transactions t = 0 ∧ written s'.writes t = 0 ∧
    ∃ r ∈ s'.removes, r.trid = t := by
  obtain ⟨hlt, hzero, hwr, r, hr, rfl⟩ := h.gone t ht
  have hwait := f.waiting r.trid hlt
  obtain ⟨r', hr', htrid⟩ := f.removes r hr
  refine ⟨lt_of_lt_of_le hlt f.next, by omega, ?_, r', hr', htrid⟩
  rw [f.written_eq r.trid (by omega), hwr]

/-- The step that refuses an intent makes it go. -/
theorem gone_of_nomoney (h : Answered s) {n : ℕ} {a : Aggregation} {c : BalanceCall}
    {r : Option ℚ} {bal : ℚ} (hc : s.balances[n]? = some c) (hr : c.sums.get a = .replied r)
    (hb : (c.sums.set (.done r) a).aggregationComplete = some bal)
    (hlt : (.fin bal - c.pe.entry.amount_sent : Number).lt (.fin 0) = true)
    (hs : step s (.sumReply n a) = some s') : c.trid < s'.nextId ∧
    saving s'.intents c.trid + queued s'.pending_transactions c.trid = 0 ∧
    written s'.writes c.trid = 0 ∧ ∃ r ∈ s'.removes, r.trid = c.trid := by
  have hlive := Aggregations.live_of_complete hr hb
  obtain ⟨htrid, hel⟩ := h.chains.balances c (mem_of_getElem? hc)
  obtain ⟨-, hwri, hwr⟩ := h.chains.of_summing (t := c.trid)
    (countP_pos_of_getElem? hc (by simp [hlive]))
  -- the branch of the step that refuses
  have heq : s' = State.onBalance { s with
      balances := s.balances.set n { c with sums := c.sums.set (.done r) a } }
      { c with sums := c.sums.set (.done r) a } bal := by
    cases step_cases hs with
    | sumError hc' hr' =>
        cases hc.symm.trans hc'
        cases hr.symm.trans hr'
        have hsound := Aggregations.sound_of_aggregationComplete hb
        rw [Aggregations.sound_done hr] at hsound
        cases a <;> simp only [Aggregations.get] at hr <;> simp [Aggregations.sound, hr] at hsound
    | sumWaits hc' hr' hb' =>
        cases hc.symm.trans hc'
        cases hr.symm.trans hr'
        cases hb.symm.trans hb'
    | sumComplete hc' hr' hb' =>
        cases hc.symm.trans hc'
        cases hr.symm.trans hr'
        cases hb.symm.trans hb'
        rfl
  rw [State.onBalance, if_pos hlt] at heq
  subst heq
  have hone := h.chains.queued_le_one c.trid
  have hgone := queued_deleteAt (hel hlive) c.trid
  rw [if_pos htrid] at hgone
  refine ⟨?_, ?_, hwr, ⟨c.trid, .sent⟩, List.mem_append_right _ (List.mem_singleton_self _), rfl⟩
  · by_contra hge
    have := h.chains.fresh c.trid (Nat.le_of_not_lt hge)
    omega
  · simp only [State.deleteSlot, State.writeComplete, State.send]
    omega

theorem step (h : Answered s) (hno : NoOverlap s e) (herr : ErrorAfterRefusal s e)
    (hs : Pending.step s e = some s') : Answered s' := by
  have f : Frame s s' := .step h.chains hs
  have still : ∀ t, Refused s t → Refused s' t := fun t ⟨x, hx, ht, hm⟩ =>
    ⟨x, (mem_answers_of_step hs x).1 hx, ht, hm⟩
  refine ⟨h.chains.step hno hs, fun x hx hok t ht => ?_, fun x hx hok t ht => ?_, fun t ht => ?_⟩
  · rcases (mem_answers_of_step hs x).2 hx with hx | hx
    · exact lt_of_lt_of_le (h.ok x hx hok t ht) (f.written_le t)
    · cases hx with
      | @written n c hc hp =>
          refine lt_of_lt_of_le (countP_pos_of_getElem? hc ?_) (f.written_le t)
          obtain ⟨⟨i, t'⟩, ho, rfl⟩ := Option.map_eq_some_iff.mp ht
          simp [WriteCall.isFor, ho, hp]
      | _ => simp [Answer.isText] at hok
  · rcases (mem_answers_of_step hs x).2 hx with hx' | hx'
    · exact still t (h.refused x hx' hok t ht)
    · cases hx' with
      | intentFailed => cases ht
      | checkFailed hc hp =>
          cases ht
          exact still _ (herr _ hc hp)
      | sumFailed hc hp =>
          cases ht
          exact still _ (herr _ hc hp)
      | nomoney => exact ⟨_, hx, ht, by simp [Answer.isText]⟩
      | written => simp [Answer.isText, Answer.ok] at hok
      | writeFailed hc hp =>
          obtain ⟨o, ho, rfl⟩ := Option.map_eq_some_iff.mp ht
          exact still _ (herr _ hc hp o ho)
  · by_cases old : Refused s t
    · exact h.gone_of_frame f old
    · obtain ⟨x, hx, hxt, hm⟩ := ht
      rcases (mem_answers_of_step hs x).2 hx with hx | hx
      · exact absurd ⟨x, hx, hxt, hm⟩ old
      · cases hx with
        | nomoney hc hr hb hlt =>
            cases hxt
            exact h.gone_of_nomoney hc hr hb hlt hs
        | _ => simp [Answer.isText, Answer.ok] at hm

/-- The answers of such a state agree with it. -/
theorem agrees (h : Answered s) {x : Sent} (hx : x ∈ s.answers) (ht : x.trid = some t) :
    Agrees s t x.answer := by
  rw [Agrees]
  split
  next hok => exact h.ok x hx hok t ht
  next hok =>
    obtain ⟨-, hzero, hwr, hrem⟩ := h.gone t (h.refused x hx (by simpa using hok) t ht)
    exact ⟨hwr, by omega, hrem⟩

end Answered

/-- Answers are not taken back. -/
theorem mem_answers_of_run {ok : State → Event → Prop} (r : Run Pending.step ok s s') {x : Sent}
    (hx : x ∈ s.answers) : x ∈ s'.answers :=
  r.invariant hx fun _ _ _ hx _ hs => (mem_answers_of_step hs x).1 hx

/-! ## The answers agree with the effects -/

/-- The condition of this module on a step. -/
def Orderly (s : State) (e : Event) : Prop := NoOverlap s e ∧ ErrorAfterRefusal s e

instance (s : State) (e : Event) : Decidable (Orderly s e) := by
  unfold Orderly
  infer_instance

/-- In an orderly run an answer agrees with the state it is sent in and with
every later one. -/
theorem answers_agree {L : Ledger} {s s' : State} (r : Run Pending.step Orderly (State.init L) s)
    (r' : Run Pending.step Orderly s s') {x : Sent} (hx : x ∈ s.answers) {t : ObjectId}
    (ht : x.trid = some t) : Agrees s t x.answer ∧ Agrees s' t x.answer := by
  have inv : ∀ {u}, Run Pending.step Orderly (State.init L) u → Answered u := fun r =>
    r.invariant (Answered.init L) fun _ _ _ h ok hs => h.step ok.1 ok.2 hs
  exact ⟨(inv r).agrees hx ht, (inv (r.trans r')).agrees (mem_answers_of_run r' hx) ht⟩

/-- One intent is answered "ok" and the other one "nomoney". -/
theorem answers_agree_twoPayments :
    ∃ s, Run Pending.step Orderly (State.init endowment) s ∧
      (s.answers.map fun x => (x.trid, x.answer.isText "ok", x.answer.isText "nomoney")) =
        [(some 0, true, false), (some 1, false, true)] ∧
      ∀ x ∈ s.answers, ∀ t, x.trid = some t → Agrees s t x.answer := by
  obtain ⟨s, r, h⟩ : ∃ s, Run Pending.step Orderly (State.init endowment) s ∧
      (s.answers.map fun x => (x.trid, x.answer.isText "ok", x.answer.isText "nomoney")) =
        [(some 0, true, false), (some 1, false, true)] :=
    exists_run_of_exec twoPayments (by decide +kernel)
  exact ⟨s, r, h, fun x hx t ht => (answers_agree r .refl hx ht).1⟩

/-- A check fails and is answered, and the element is written at the next
tick. -/
def failedCheck : List Event :=
  queueEvents 0 11 10 1 ++ [.tick 0, .checkFail 0, .checkReply 0, .tick 0, .checkDb 1 (some 0),
    .checkReply 1] ++ sumEvents 0 ++ [.writeDb 0 true]

/-- The client is told of an error and the transaction goes through. -/
theorem failed_check_disagrees :
    ¬ ∀ (L : Ledger) (s s' : State), AnyRun Pending.step (State.init L) s →
      AnyRun Pending.step s s' → ∀ x ∈ s.answers, ∀ t, x.trid = some t →
      Agrees s t x.answer ∧ Agrees s' t x.answer := by
  intro claim
  obtain ⟨s, r, h⟩ : ∃ s, AnyRun Pending.step (State.init endowment) s ∧
      (s.answers.any (fun x => x.trid = some 0 && !x.answer.isText "ok"), written s.writes 0) =
        (true, 1) :=
    exists_run_of_exec failedCheck (by decide +kernel)
  rw [Prod.mk.injEq] at h
  obtain ⟨x, hx, hxt⟩ := List.any_eq_true.mp h.1
  simp only [Bool.and_eq_true, decide_eq_true_eq, Bool.not_eq_true'] at hxt
  have agrees := (claim endowment s s r .refl x hx 0 hxt.1).1
  rw [Agrees, if_neg (by simp [hxt.2]), h.2] at agrees
  exact absurd agrees.1 one_ne_zero

end SchuleAlsStaat.Pending
