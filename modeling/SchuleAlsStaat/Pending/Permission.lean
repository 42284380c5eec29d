import SchuleAlsStaat.Lib.TicketLock
import SchuleAlsStaat.Pending.Chains

/-!
# The write permission

`checkWritePermission` grants the permission to an intent that is the earliest
visible one of its sender, and `writeComplete` gives it back by removing the
intent.  This is an earliest-first lock whose tickets are the documents of
`pendingtransactions`.

An intent gets its time when it is created and becomes visible later, so the
lock does not exclude.  `Timely` names the steps that respect the order of the
times.  Under it the system follows `TicketLock.Lock` step by step, which gives
mutual exclusion.
-/

namespace SchuleAlsStaat.Pending

open Calls Runs TicketLock

/-! ## Held permissions -/

/-- Checks of intent `t` that were granted. -/
def grants (l : List CheckCall) (t : ObjectId) : ℕ :=
  l.countP fun c => c.trid = t && c.phase.outcome = some (some true)

/-- Executed removals of intent `t`. -/
def removals (l : List RemoveCall) (t : ObjectId) : ℕ :=
  l.countP fun c => c.trid = t && c.phase.outcome = some true

/-- The intent was granted the permission and is not removed. -/
def Held (s : State) (d : PendingTransaction) : Prop :=
  (∃ c ∈ s.intents, c.pt = d) ∧ 0 < grants s.checks d._id ∧ removals s.removes d._id = 0

/-- An intent becomes visible with a later time than every granted one of its
sender, and the permission is granted only when the time is unique.  No intent
expires. -/
def Timely (s : State) : Event → Prop
  | .intentDb n true => ∀ c ∈ s.intents[n]?, ∀ d ∈ s.pendingtransactions,
      d.sender = c.pt.sender → 0 < grants s.checks d._id → d.time < c.pt.time
  | .checkDb n first => ∀ c ∈ s.checks[n]?, ∀ k ∈ first, ∀ d ∈ s.pendingtransactions[k]?,
      d._id = c.trid → ∀ d' ∈ s.pendingtransactions,
        d'.sender = d.sender → d'.time = d.time → d' = d
  | .expire _ => False
  | _ => True

instance (s : State) (e : Event) : Decidable (Timely s e) :=
  match e with
  | .intentDb _ true => inferInstanceAs (Decidable (∀ _ ∈ _, _))
  | .checkDb .. => inferInstanceAs (Decidable (∀ _ ∈ _, _))
  | .expire _ => isFalse False.elim
  | .intentDb _ false | .intent .. | .spawn .. | .intentReply _ | .tick _ | .checkFail _
  | .checkReply _ | .sumDb .. | .sumReply .. | .writeDb .. | .writeReply _ | .removeDb ..
  | .delete _ => isTrue trivial

section Counts

variable (t : ObjectId)

theorem grants_concat (l l' : List CheckCall) (h : ∀ c ∈ l', c.phase = .sent) :
    grants (l ++ l') t = grants l t := by
  have none : l'.countP (fun c => c.trid = t && c.phase.outcome = some (some true)) = 0 :=
    List.countP_eq_zero.mpr fun c hc => by simp [h c hc]
  rw [grants, List.countP_append, none, add_zero, ← grants]

theorem grants_set {l : List CheckCall} {n : ℕ} {c : CheckCall} (h : l[n]? = some c)
    (p : Phase (Option Bool)) :
    grants (l.set n { c with phase := p }) t +
        (if c.trid = t ∧ c.phase.outcome = some (some true) then 1 else 0) =
      grants l t + if c.trid = t ∧ p.outcome = some (some true) then 1 else 0 := by
  simpa [grants] using
    countP_set (fun c : CheckCall => c.trid = t && c.phase.outcome = some (some true)) h
      { c with phase := p }

theorem removals_concat (l : List RemoveCall) (c : RemoveCall) (h : c.phase = .sent) :
    removals (l ++ [c]) t = removals l t := by
  simp [removals, List.countP_append, h]

theorem removals_set {l : List RemoveCall} {n : ℕ} {c : RemoveCall} (h : l[n]? = some c)
    (p : Phase Bool) :
    removals (l.set n { c with phase := p }) t +
        (if c.trid = t ∧ c.phase.outcome = some true then 1 else 0) =
      removals l t + if c.trid = t ∧ p.outcome = some true then 1 else 0 := by
  simpa [removals] using
    countP_set (fun c : RemoveCall => c.trid = t && c.phase.outcome = some true) h
      { c with phase := p }

end Counts

/-- What `find` returns is the earliest document of the sender. -/
theorem findFirst_eq_some {docs : List PendingTransaction} {sender : ObjectId} {first : Option ℕ}
    {d : PendingTransaction} (h : findFirst docs sender first = some (some d)) :
    First docs sender d ∧ ∃ k ∈ first, docs[k]? = some d := by
  cases first with
  | none =>
      simp only [findFirst] at h
      split at h <;> cases h
  | some k =>
      obtain ⟨d', hd', hif⟩ := Option.bind_eq_some_iff.mp h
      split at hif
      next hfirst =>
        cases hif
        exact ⟨hfirst, k, rfl, hd'⟩
      next => cases hif

/-! ## The identity of an intent -/

/-- The `_id` of an intent is its position, the visible documents are saved
intents, and a granted intent is visible until it is removed. -/
structure Visible (s : State) : Prop where
  next : s.nextId = s.intents.length
  ids : ∀ (n : ℕ) (c : IntentCall), s.intents[n]? = some c → c.pt._id = n
  saved : ∀ d ∈ s.pendingtransactions, ∃ c, s.intents[d._id]? = some c ∧ c.pt = d ∧ c.phase ≠ .sent
  granted : ∀ t, 0 < grants s.checks t → ∃ c, s.intents[t]? = some c ∧ c.phase ≠ .sent ∧
    (removals s.removes t = 0 → c.pt ∈ s.pendingtransactions)

namespace Visible

variable {s : State}

theorem init (L : Ledger) : Visible (State.init L) := by
  constructor <;> simp [State.init, grants]

/-- Visible documents with one `_id` are the same. -/
theorem eq_of_id (h : Visible s) {d d' : PendingTransaction} (hd : d ∈ s.pendingtransactions)
    (hd' : d' ∈ s.pendingtransactions) (hid : d._id = d'._id) : d = d' := by
  obtain ⟨c, hc, rfl, -⟩ := h.saved d hd
  obtain ⟨c', hc', rfl, -⟩ := h.saved d' hd'
  rw [hid] at hc
  rw [Option.some.inj (hc.symm.trans hc')]

/-- A held permission belongs to a visible document. -/
theorem mem_of_held (h : Visible s) {d : PendingTransaction} (hd : Held s d) :
    d ∈ s.pendingtransactions := by
  obtain ⟨⟨c, hc, rfl⟩, hgr, hrem⟩ := hd
  obtain ⟨n, hn⟩ := List.mem_iff_getElem?.mp hc
  obtain ⟨c', hc', -, hvis⟩ := h.granted _ hgr
  rw [h.ids n c hn, hn] at hc'
  cases hc'
  exact hvis hrem

/-- Nothing of the protocol changes but the queue and the chains. -/
theorem of_eq (h : Visible s) {s' : State} (hn : s'.nextId = s.nextId)
    (hi : s'.intents = s.intents) (hd : s'.pendingtransactions = s.pendingtransactions)
    (hc : ∀ t, grants s'.checks t = grants s.checks t)
    (hr : ∀ t, removals s'.removes t = removals s.removes t) : Visible s' where
  next := by rw [hn, hi, h.next]
  ids := by rw [hi]; exact h.ids
  saved := by rw [hi, hd]; exact h.saved
  granted t := by rw [hi, hd, hc, hr]; exact h.granted t

theorem intent (h : Visible s) (w : WorkerId) (now : Time) (sender : ObjectId)
    (entry : Draft) (answer : Client) : Visible (s.intent w now sender entry answer) := by
  have old : ∀ {n : ℕ} {c : IntentCall}, s.intents[n]? = some c →
      (s.intent w now sender entry answer).intents[n]? = some c := by
    intro n c hc
    exact Calls.getElem?_append_of_some hc _
  refine ⟨by simp [State.intent, h.next], fun n c hc => ?_, fun d hd => ?_, fun t ht => ?_⟩
  · rcases Nat.lt_or_ge n s.intents.length with hlt | hge
    · refine h.ids n c ?_
      rwa [State.intent, List.getElem?_append_left hlt] at hc
    · rw [State.intent, List.getElem?_append_right hge, List.getElem?_singleton] at hc
      split at hc
      next heq =>
        cases hc
        exact h.next.trans (le_antisymm hge (Nat.le_of_sub_eq_zero heq))
      next => cases hc
  · obtain ⟨c, hc, hpt, hp⟩ := h.saved d hd
    exact ⟨c, old hc, hpt, hp⟩
  · obtain ⟨c, hc, hp, hvis⟩ := h.granted t ht
    exact ⟨c, old hc, hp, hvis⟩

/-- A call of `save` goes on and the documents become `docs`. -/
theorem setIntent (h : Visible s) {n : ℕ} {c : IntentCall} (hc : s.intents[n]? = some c)
    {p : Phase Bool} (hp : p ≠ .sent) {docs : List PendingTransaction}
    (new : ∀ d ∈ docs, d ∈ s.pendingtransactions ∨ d = c.pt)
    (old : ∀ d ∈ s.pendingtransactions, d ∈ docs) (slots : List Slot) (answers : List Sent) :
    Visible { s with
      intents := s.intents.set n { c with phase := p }
      pendingtransactions := docs
      pending_transactions := slots
      answers := answers } := by
  have hn : n < s.intents.length := (List.getElem?_eq_some_iff.mp hc).1
  have hself : (s.intents.set n { c with phase := p })[n]? = some { c with phase := p } :=
    List.getElem?_set_self hn
  -- a call keeps its document, and a call that was executed stays executed
  have keep : ∀ {m : ℕ} {k : IntentCall}, s.intents[m]? = some k → k.phase ≠ .sent →
      ∃ k', (s.intents.set n { c with phase := p })[m]? = some k' ∧ k'.pt = k.pt ∧
        k'.phase ≠ .sent := by
    intro m k hk hkp
    by_cases hnm : n = m
    · subst hnm
      rw [hc] at hk
      cases hk
      exact ⟨_, hself, rfl, hp⟩
    · exact ⟨k, by rw [List.getElem?_set_ne hnm, hk], rfl, hkp⟩
  refine ⟨by simp [h.next], fun m k hk => ?_, fun d hd => ?_, fun t ht => ?_⟩
  · by_cases hnm : n = m
    · subst hnm
      rw [hself] at hk
      cases hk
      exact h.ids n c hc
    · rw [List.getElem?_set_ne hnm] at hk
      exact h.ids m k hk
  · rcases new d hd with hd | rfl
    · obtain ⟨k, hk, hpt, hkp⟩ := h.saved d hd
      obtain ⟨k', hk', hpt', hkp'⟩ := keep hk hkp
      exact ⟨k', hk', hpt'.trans hpt, hkp'⟩
    · rw [h.ids n c hc]
      exact ⟨_, hself, rfl, hp⟩
  · obtain ⟨k, hk, hkp, hvis⟩ := h.granted t ht
    obtain ⟨k', hk', hpt', hkp'⟩ := keep hk hkp
    exact ⟨k', hk', hkp', fun hrem => hpt' ▸ old _ (hvis hrem)⟩

/-- A check is granted to a visible document. -/
theorem grant (h : Visible s) {d : PendingTransaction} (hd : d ∈ s.pendingtransactions)
    {checks : List CheckCall}
    (hg : ∀ t, 0 < grants checks t → 0 < grants s.checks t ∨ t = d._id) :
    Visible { s with checks := checks } := by
  refine ⟨h.next, h.ids, h.saved, fun t ht => ?_⟩
  rcases hg t ht with ht | rfl
  · exact h.granted t ht
  · obtain ⟨c, hc, hpt, hp⟩ := h.saved d hd
    exact ⟨c, hc, hp, fun _ => by rw [hpt]; exact hd⟩

/-- The documents of a removed intent go. -/
theorem remove (h : Visible s) {trid : ObjectId} {removes : List RemoveCall}
    (hr : ∀ t, removals removes t = removals s.removes t + if trid = t then 1 else 0) :
    Visible { s with
      removes := removes
      pendingtransactions := s.pendingtransactions.filter (·._id ≠ trid) } := by
  refine ⟨h.next, h.ids, fun d hd => h.saved d (List.mem_of_mem_filter hd), fun t ht => ?_⟩
  obtain ⟨c, hc, hp, hvis⟩ := h.granted t ht
  refine ⟨c, hc, hp, fun hrem => ?_⟩
  have h1 := hr t
  rw [show removals removes t = 0 from hrem] at h1
  split at h1
  next => omega
  next hne =>
    refine List.mem_filter.mpr ⟨hvis (by omega), ?_⟩
    rw [h.ids t c hc]
    simpa using Ne.symm hne

end Visible

/-! ## The lock behind it -/

/-- The visible documents as tickets. -/
def tickets : Tickets PendingTransaction ObjectId Time where
  owner := PendingTransaction.sender
  stamp := PendingTransaction.time

/-- The lock shows the visible documents and has granted the granted ones. -/
structure Follows (s : State) (k : Lock PendingTransaction) : Prop where
  visible : Visible s
  shown : ∀ d, d ∈ k.shown ↔ d ∈ s.pendingtransactions
  granted : ∀ d ∈ k.granted, 0 < grants s.checks d._id
  held : ∀ d ∈ s.pendingtransactions, 0 < grants s.checks d._id → d ∈ k.granted

namespace Follows

variable {s s' : State} {k : Lock PendingTransaction}

/-- A step that the lock does not see. -/
theorem stutter (h : Follows s k) (hv : Visible s')
    (hd : s'.pendingtransactions = s.pendingtransactions)
    (hg : ∀ t, grants s'.checks t = grants s.checks t) :
    ∃ k', Run (Lock.step tickets) (Lock.Timely tickets) k k' ∧ Follows s' k' :=
  ⟨k, .refl, hv, by rw [hd]; exact h.shown, by simpa [hg] using h.granted,
    by simpa [hd, hg] using h.held⟩

/-- An intent becomes visible. -/
theorem becomeVisible (h : Follows s k) {n : ℕ} {c : IntentCall} (hc : s.intents[n]? = some c)
    (hp : c.phase = .sent) (ok : Timely s (.intentDb n true)) :
    ∃ k', Run (Lock.step tickets) (Lock.Timely tickets) k k' ∧ Follows { s with
      intents := s.intents.set n { c with phase := .replied true }
      pendingtransactions := s.pendingtransactions ++ [c.pt] } k' := by
  have fresh : ¬ 0 < grants s.checks c.pt._id := by
    intro hg
    obtain ⟨c', hc', hp', -⟩ := h.visible.granted _ hg
    rw [h.visible.ids n c hc, hc] at hc'
    cases hc'
    exact hp' hp
  refine ⟨{ k with shown := insert c.pt k.shown },
    .tail (e := .show c.pt) .refl ⟨fun hg => fresh (h.granted _ hg), fun d hd hg own => ?_⟩ rfl,
    ?_, fun d => ?_, h.granted, fun d hd hg => ?_⟩
  · exact ok c hc d ((h.shown d).mp hd) own (h.granted d hg)
  · exact h.visible.setIntent hc (by simp) (by simp) (by simp +contextual) _ _
  · rw [Set.mem_insert_iff, h.shown, List.mem_append, List.mem_singleton, or_comm]
  · rcases List.mem_append.mp hd with hd | hd
    · exact h.held d hd hg
    · rw [List.mem_singleton.mp hd] at hg
      exact absurd hg fresh

/-- The permission is granted. -/
theorem grant (h : Follows s k) {n : ℕ} {c : CheckCall} (hc : s.checks[n]? = some c)
    (hp : c.phase = .sent) {first : Option ℕ} {d : PendingTransaction}
    (hf : findFirst s.pendingtransactions c.sender first = some (some d)) (hid : d._id = c.trid)
    (ok : Timely s (.checkDb n first)) :
    ∃ k', Run (Lock.step tickets) (Lock.Timely tickets) k k' ∧ Follows { s with
      checks := s.checks.set n { c with phase := .replied (some true) } } k' := by
  obtain ⟨⟨hd, hsender, hmin⟩, i, hi, hk⟩ := findFirst_eq_some hf
  have more : ∀ t, grants (s.checks.set n { c with phase := .replied (some true) }) t =
      grants s.checks t + if d._id = t then 1 else 0 := by
    intro t
    have := grants_set t hc (.replied (some true))
    simpa [hp, hid] using this
  have earliest : k.Earliest tickets d :=
    ⟨(h.shown d).mpr hd, fun u hu own => hmin u ((h.shown u).mp hu) (own.trans hsender)⟩
  refine ⟨{ k with granted := insert d k.granted },
    .tail (e := .grant d) .refl (fun u hu own same => ?_) (if_pos earliest),
    h.visible.grant hd fun t ht => ?_, h.shown, fun u hu => ?_, fun u hu hg => ?_⟩
  · exact ok c hc i hi d hk hid u ((h.shown u).mp hu) own same
  · rw [more] at ht
    split at ht
    next heq => exact .inr heq.symm
    next => exact .inl ht
  · simp only [more]
    rcases Set.mem_insert_iff.mp hu with rfl | hu
    · simp
    · exact Nat.lt_of_lt_of_le (h.granted u hu) (Nat.le_add_right ..)
  · simp only [more] at hg
    split at hg
    next heq => exact Set.mem_insert_iff.mpr (.inl (h.visible.eq_of_id hu hd heq.symm))
    next => exact Set.mem_insert_of_mem _ (h.held u hu hg)

/-- An intent is removed. -/
theorem release (h : Follows s k) {trid : ObjectId} {removes : List RemoveCall}
    (hr : ∀ t, removals removes t = removals s.removes t + if trid = t then 1 else 0) :
    ∃ k', Run (Lock.step tickets) (Lock.Timely tickets) k k' ∧ Follows { s with
      removes := removes
      pendingtransactions := s.pendingtransactions.filter (·._id ≠ trid) } k' := by
  have hv := h.visible.remove hr
  by_cases hex : ∃ d ∈ s.pendingtransactions, d._id = trid
  · obtain ⟨d, hd, rfl⟩ := hex
    refine ⟨{ k with shown := k.shown \ {d} }, .tail (e := .release d) .refl trivial rfl,
      hv, fun u => ?_, h.granted, fun u hu hg => h.held u (List.mem_of_mem_filter hu) hg⟩
    simp only [Set.mem_sdiff, Set.mem_singleton_iff, h.shown, List.mem_filter, decide_eq_true_eq]
    refine and_congr_right fun hu => not_congr ⟨fun heq => heq ▸ rfl, fun heq => ?_⟩
    exact h.visible.eq_of_id hu hd heq
  · have hsame : s.pendingtransactions.filter (·._id ≠ trid) = s.pendingtransactions :=
      List.filter_eq_self.mpr fun d hd => by
        simpa using fun heq => hex ⟨d, hd, heq⟩
    exact h.stutter hv hsame fun _ => rfl

/-- A step that changes neither intents, documents, checks nor removals. -/
theorem skip (h : Follows s k) (hn : s'.nextId = s.nextId) (hi : s'.intents = s.intents)
    (hd : s'.pendingtransactions = s.pendingtransactions) (hc : s'.checks = s.checks)
    (hr : s'.removes = s.removes) :
    ∃ k', Run (Lock.step tickets) (Lock.Timely tickets) k k' ∧ Follows s' k' :=
  h.stutter (h.visible.of_eq hn hi hd (fun _ => by rw [hc]) fun _ => by rw [hr]) hd
    fun _ => by rw [hc]

/-- A check that is not granted, or was granted before. -/
theorem setCheck (h : Follows s k) {n : ℕ} {c : CheckCall} (hc : s.checks[n]? = some c)
    {p : Phase (Option Bool)}
    (hp : c.phase.outcome = some (some true) ↔ p.outcome = some (some true))
    (hs : s'.checks = s.checks.set n { c with phase := p }) (hn : s'.nextId = s.nextId)
    (hi : s'.intents = s.intents) (hd : s'.pendingtransactions = s.pendingtransactions)
    (hr : s'.removes = s.removes) :
    ∃ k', Run (Lock.step tickets) (Lock.Timely tickets) k k' ∧ Follows s' k' := by
  have same : ∀ t, grants s'.checks t = grants s.checks t := by
    intro t
    have := grants_set t hc p
    simp only [hp, Nat.add_right_cancel_iff] at this
    rw [hs, this]
  exact h.stutter (h.visible.of_eq hn hi hd same fun _ => by rw [hr]) hd same

/-- A removal is sent. -/
theorem sendRemove (h : Follows s k) {trid : ObjectId} (hr : s'.removes = s.removes ++
      [{ trid := trid, phase := .sent }]) (hn : s'.nextId = s.nextId)
    (hi : s'.intents = s.intents) (hd : s'.pendingtransactions = s.pendingtransactions)
    (hc : s'.checks = s.checks) :
    ∃ k', Run (Lock.step tickets) (Lock.Timely tickets) k k' ∧ Follows s' k' :=
  h.stutter (h.visible.of_eq hn hi hd (fun _ => by rw [hc])
    fun t => by rw [hr, removals_concat t _ _ rfl]) hd fun _ => by rw [hc]

/-- Every timely step is a run of the lock. -/
theorem step (h : Follows s k) {e : Event} (ok : Timely s e) (hs : Pending.step s e = some s') :
    ∃ k', Run (Lock.step tickets) (Lock.Timely tickets) k k' ∧ Follows s' k' := by
  have hv := h.visible
  cases step_cases hs with
  | intent w now sender entry answer =>
      exact h.stutter (hv.intent w now sender entry answer) rfl fun _ => rfl
  | intentDb ok' hc hp =>
      cases ok' with
      | true => exact h.becomeVisible hc hp ok
      | false =>
          exact h.stutter (hv.setIntent hc (by simp) (fun _ => .inl) (fun _ => id) _ _) rfl
            fun _ => rfl
  | queued hc hp | intentError hc hp =>
      exact h.stutter (hv.setIntent hc (by simp) (fun _ => .inl) (fun _ => id) _ _) rfl
        fun _ => rfl
  | tick w =>
      have same := fun t => grants_concat t s.checks (tickChecks s.pending_transactions w)
        fun c hc => (mem_tickChecks hc).1
      exact h.stutter (hv.of_eq rfl rfl rfl same fun _ => rfl) rfl same
  | @checkDb n first c pt hc hp hf =>
      cases pt with
      | none => exact h.setCheck hc (by simp [hp]) rfl rfl rfl rfl rfl
      | some d =>
          by_cases hid : d._id = c.trid
          · simp only [Option.any_some, hid, decide_true]
            exact h.grant hc hp hf hid ok
          · exact h.setCheck hc (by simp [hp, hid]) rfl rfl rfl rfl rfl
  | checkFail hc hp | refused hc hp | checkError hc hp =>
      exact h.setCheck hc (by simp [hp]) rfl rfl rfl rfl rfl
  | permitted hc hp =>
      rw [State.onWritePermission]
      split <;> exact h.setCheck hc (by simp [hp]) rfl rfl rfl rfl rfl
  | sumComplete hc hp hb =>
      rw [State.onBalance]
      split
      next => exact h.sendRemove rfl rfl rfl rfl rfl
      next => exact h.skip rfl rfl rfl rfl rfl
  | @written n c hc hp =>
      obtain ho | ⟨i, t, ho⟩ := c.origin_cases
      · rw [State.onWritten_none ho]
        exact h.skip rfl rfl rfl rfl rfl
      · rw [State.onWritten_some ho]
        exact h.sendRemove rfl rfl rfl rfl rfl
  | removeDb ok' hc hp =>
      cases ok' with
      | true =>
          refine h.release fun t => ?_
          simpa [hp] using removals_set t hc (.done true)
      | false =>
          refine h.stutter (hv.of_eq rfl rfl rfl (fun _ => rfl) fun t => ?_) rfl fun _ => rfl
          simpa [hp] using removals_set t hc (.done false)
  | expire => cases ok
  | spawn | sumDb | sumError | sumWaits | saved | writeFail | writeError | delete =>
      exact h.skip rfl rfl rfl rfl rfl

end Follows

/-- A timely run of the system is a timely run of the lock. -/
theorem follows_of_run {L : Ledger} {s : State} (r : Run step Timely (State.init L) s) :
    ∃ k, Run (Lock.step tickets) (Lock.Timely tickets) ⟨∅, ∅⟩ k ∧ Follows s k := by
  refine r.simulate (R := Follows) ⟨Visible.init L, ?_, ?_, ?_⟩
    fun _ _ _ _ h ok hs => h.step ok hs
  all_goals simp [State.init]

/-! ## Mutual exclusion -/

/-- In a timely run two intents of one sender do not both hold the
permission. -/
theorem permission_exclusive {L : Ledger} {s : State} (r : Run step Timely (State.init L) s)
    (d d' : PendingTransaction) (own : d.sender = d'.sender) (hd : Held s d) (hd' : Held s d') :
    d = d' := by
  obtain ⟨k, run, h⟩ := follows_of_run r
  have start : Lock.GrantedFirst tickets ⟨∅, ∅⟩ := fun _ ht => ht.elim
  have vis := h.visible.mem_of_held hd
  have vis' := h.visible.mem_of_held hd'
  exact Lock.exclusive_of_run run start d ((h.shown d).mpr vis) d' ((h.shown d').mpr vis')
    (h.held d vis hd.2.1) (h.held d' vis' hd'.2.1) own

/-- No intent expires. -/
def NoExpiry (_ : State) : Event → Prop
  | .expire _ => False
  | _ => True

instance (s : State) (e : Event) : Decidable (NoExpiry s e) :=
  match e with
  | .expire _ => isFalse False.elim
  | .intent .. | .spawn .. | .intentDb .. | .intentReply _ | .tick _ | .checkDb .. | .checkFail _
  | .checkReply _ | .sumDb .. | .sumReply .. | .writeDb .. | .writeReply _ | .removeDb ..
  | .delete _ => isTrue trivial

/-- Of two intents of account `1` the first one holds the permission, and the second one does
not. -/
theorem permission_exclusive_twoIntents :
    ∃ s, Run step Timely (State.init endowment) s ∧
      s.intents.map IntentCall.pt = [⟨0, 1, 0⟩, ⟨1, 1, 1⟩] ∧
      Held s ⟨0, 1, 0⟩ ∧ ¬ Held s ⟨1, 1, 1⟩ := by
  obtain ⟨s, r, h⟩ : ∃ s, Run step Timely (State.init endowment) s ∧
      (s.intents.map IntentCall.pt, grants s.checks 0, removals s.removes 0) =
        ([⟨0, 1, 0⟩, ⟨1, 1, 1⟩], 2, 0) :=
    exists_run_of_exec twoIntents (by decide +kernel)
  simp only [Prod.mk.injEq] at h
  have held : Held s ⟨0, 1, 0⟩ :=
    ⟨List.mem_map.mp (h.1 ▸ List.mem_cons_self ..), by simp [h.2.1], h.2.2⟩
  refine ⟨s, r, h.1, held, fun held' => ?_⟩
  cases permission_exclusive r ⟨0, 1, 0⟩ ⟨1, 1, 1⟩ rfl held held'

/-- Worker `0` creates an intent and worker `1` a later one, which becomes
visible and is granted first. -/
def lateIntent : List Event :=
  [.intent 0 0 1 (payment 11 10 1) ⟨0, some 1⟩, .intent 1 1 1 (payment 11 10 1) ⟨1, some 1⟩,
    .intentDb 1 true, .intentReply 1, .tick 1, .checkDb 0 (some 0), .checkReply 0,
    .intentDb 0 true, .intentReply 0, .tick 0, .checkDb 1 (some 1), .checkReply 1]

/-- Both intents hold the permission although none expired. -/
theorem late_intent_not_exclusive :
    ¬ ∀ (L : Ledger) (s : State), Run step NoExpiry (State.init L) s →
      ∀ d d' : PendingTransaction, d.sender = d'.sender → Held s d → Held s d' → d = d' := by
  intro claim
  obtain ⟨s, r, h⟩ : ∃ s, Run step NoExpiry (State.init endowment) s ∧
      (s.intents.map IntentCall.pt, (grants s.checks 0, removals s.removes 0),
        (grants s.checks 1, removals s.removes 1)) =
        ([⟨0, 1, 0⟩, ⟨1, 1, 1⟩], (1, 0), (1, 0)) :=
    exists_run_of_exec lateIntent (by decide +kernel)
  simp only [Prod.mk.injEq] at h
  obtain ⟨hpts, ⟨hg0, hr0⟩, hg1, hr1⟩ := h
  have held0 : Held s ⟨0, 1, 0⟩ :=
    ⟨List.mem_map.mp (hpts ▸ List.mem_cons_self ..), by simp [hg0], hr0⟩
  have held1 : Held s ⟨1, 1, 1⟩ :=
    ⟨List.mem_map.mp (hpts ▸ List.mem_cons_of_mem _ (List.mem_singleton_self _)),
      by simp [hg1], hr1⟩
  exact absurd (claim _ s r ⟨0, 1, 0⟩ ⟨1, 1, 1⟩ rfl held0 held1) (by decide)

end SchuleAlsStaat.Pending
