import SchuleAlsStaat.Client.RightRow

/-!
# Transactions sent twice

Once a row is set to pending, its transaction should be sent once.  The state of the row
changes when the answer arrives, and the start button is only disabled for a second, so
"start" can send the row again, see `row_sent_twice`.

`row_sent_once` says that a row is sent once as long as "start" is not pressed while a
pending row has a request on the way that was not posted before the row was set to
pending, and no request loses its row to another index.
-/

namespace SchuleAlsStaat.TransactionTable

open Runs (Run AnyRun exec exists_run_of_exec)

/-- How often a row was sent to the API in one of its periods. -/
def sent (s : State) (id period : ℕ) : ℕ :=
  s.requests.countP fun q => q.row = id && q.posted = some period

/-- Between two events that set it to pending every row is sent at most once. -/
def SentAtMostOnce (s : State) : Prop := ∀ id period, sent s id period ≤ 1

/-- The request of the row is on the way, and is not posted yet or was posted since the row
was last set to pending. -/
def Underway (s : State) (row : Row) (q : Request) : Prop :=
  q.answered = false ∧ q.row = row.id ∧
    (q.posted = none ∨ q.posted = some (s.period row.id))

/-- A pending row waits for the answer to such a request. -/
def Waits (s : State) (row : Row) : Prop :=
  row.pending = .ok true ∧ ∃ q ∈ s.requests, Underway s row q

/-- "start" does not find a pending row that waits for its answer, no such row moves to
another index, and the rows are set to pending when the requests that are not posted yet
have the indices of their rows. -/
def Leaves (s : State) : Event → Prop
  | .start .. => ∀ row ∈ s.transactions, ¬ Waits s row
  | .delete listid => ∀ row ∈ s.transactions.drop (listid + 1), ¬ Waits s row
  | .make_pending => ∀ r ∈ s.transactions.zipIdx, ∀ q ∈ s.requests,
      q.answered = false → q.posted = none → q.row = r.1.id → q.tid = r.2
  | _ => True

instance (s : State) (row : Row) (q : Request) : Decidable (Underway s row q) :=
  inferInstanceAs (Decidable (_ ∧ _ ∧ _))

instance (s : State) (row : Row) : Decidable (Waits s row) :=
  inferInstanceAs (Decidable (_ ∧ ∃ q ∈ s.requests, _))

instance (s : State) : ∀ e, Decidable (Leaves s e)
  | .start .. => inferInstanceAs (Decidable (∀ row ∈ s.transactions, _))
  | .delete listid => inferInstanceAs (Decidable (∀ row ∈ s.transactions.drop (listid + 1), _))
  | .make_pending => inferInstanceAs (Decidable (∀ r ∈ s.transactions.zipIdx, ∀ q ∈ s.requests,
      q.answered = false → q.posted = none → q.row = r.1.id → q.tid = r.2))
  | .add _ | .enable | .upload _ | .post _ | .response .. => inferInstanceAs (Decidable True)

section Single

variable {app : App} {s s' : State}

/-- The request is posted in the period, or it may still be. -/
def Request.counts (period : ℕ) (q : Request) : Bool :=
  q.posted = some period || (q.posted.isNone && !q.answered)

/-- The requests of a row that are or may be posted in its present period. -/
def load (s : State) (id : ℕ) : ℕ :=
  s.requests.countP fun q => q.row = id && q.counts (s.period id)

/-- What is known about the row at index `i`: if it is pending, then it has no request in its
present period, or its request is on the way and has this index. -/
def Unsent (s : State) (i : ℕ) (row : Row) : Prop :=
  row.pending = .ok true → load s row.id = 0 ∨ ∃ q ∈ s.requests, Underway s row q ∧ q.tid = i

/-- The invariant of the runs in which no row is sent twice. -/
structure Single (s : State) : Prop where
  ghosts : Ghosts s
  once : SentAtMostOnce s
  load : ∀ id, load s id ≤ 1
  past : ∀ q ∈ s.requests, ∀ period, q.posted = some period → period ≤ s.period q.row
  rows : ∀ (i : ℕ) (row : Row), s.transactions[i]? = some row → Unsent s i row

/-- A row that no request is for. -/
theorem Single.load_fresh {id : ℕ} (h : Single s) (hid : s.fresh ≤ id) :
    TransactionTable.load s id = 0 :=
  List.countP_eq_zero.mpr fun q hq => by
    have hlt := h.ghosts.requests q hq
    have hne : q.row ≠ id := by omega
    simp [hne]

theorem sent_le_load (s : State) (id : ℕ) : sent s id (s.period id) ≤ load s id :=
  List.countP_mono_left fun q _ hq => by
    simp only [Bool.and_eq_true, decide_eq_true_eq] at hq
    simp [Request.counts, hq.1, hq.2]

theorem load_submit (row : Row) (i : ℕ) (name : String) (query : Fields) (id : ℕ) :
    load (s.submit row i name query) id = load s id + if row.id = id then 1 else 0 := by
  have hperiod : (s.submit row i name query).period = s.period := rfl
  rw [load, load, hperiod, State.submit, List.countP_append, List.countP_singleton]
  simp [Request.counts]

theorem sent_submit (row : Row) (i : ℕ) (name : String) (query : Fields) (id period : ℕ) :
    sent (s.submit row i name query) id period = sent s id period := by
  simp [sent, State.submit, List.countP_append]

theorem single_initial : Single initial where
  ghosts := ghosts_initial
  once := fun _ _ => Nat.zero_le _
  load := fun _ => Nat.zero_le _
  past := fun _ h => by cases h
  rows := fun _ _ h => by cases h

/-- A pending row without a request in its present period gets one. -/
theorem Single.submit {i : ℕ} {row : Row} {name : String} {query : Fields} (h : Single s)
    (hi : s.transactions[i]? = some row) (hz : TransactionTable.load s row.id = 0) :
    Single (s.submit row i name query) where
  ghosts := h.ghosts.submit hi
  once := fun id period => (sent_submit ..).trans_le (h.once id period)
  load := fun id => by
    have hle := h.load id
    rw [load_submit]
    split
    next heq =>
      rw [← heq, hz]
    next => exact hle
  past := Calls.forall_mem_concat h.past fun period hp => by cases hp
  rows := fun j row' hj hp => by
    rcases eq_or_ne row.id row'.id with heq | hne
    · have hij : i = j := h.ghosts.index_eq hi hj heq
      exact .inr ⟨_, List.mem_append_right _ (List.mem_singleton_self _), ⟨rfl, heq, .inl rfl⟩, hij⟩
    · rw [load_submit, if_neg hne]
      refine (h.rows j row' hj hp).imp id fun ⟨q, hq, hrest⟩ => ?_
      exact ⟨q, List.mem_append_left _ hq, hrest⟩

/-- A row that is pending after a change at one index was not changed. -/
theorem pending_modify {f : Row → Row} {l : List Row} {i j : ℕ} {row : Row}
    (hf : ∀ row, (f row).pending = .ok false) (hj : (l.modify i f)[j]? = some row)
    (hp : row.pending = .ok true) : i ≠ j ∧ l[j]? = some row := by
  rw [List.getElem?_modify] at hj
  obtain ⟨row', hrow', rfl⟩ := Option.map_eq_some_iff.mp hj
  by_cases hij : i = j
  · rw [if_pos hij, hf] at hp
    cases hp
  · rw [if_neg hij]
    exact ⟨hij, hrow'⟩

theorem Single.setState {state : String} (h : Single s) (i : ℕ) (hne : state ≠ "pending") :
    Single (s.setState i state) where
  ghosts := h.ghosts.setState i state
  once := h.once
  load := h.load
  past := h.past
  rows := fun j row hj hp =>
    h.rows j row (pending_modify (fun row => row.pending_setState hne) hj hp).2 hp

/-- The rows from index `i` on that are pending have no request in their present period. -/
def UnsentFrom (i : ℕ) (s : State) : Prop :=
  ∀ (j : ℕ) (row : Row), i ≤ j → s.transactions[j]? = some row → row.pending = .ok true →
    load s row.id = 0

/-- "start" sends the pending rows. -/
theorem Single.start (h : Single s) (hs : UnsentFrom 0 s) (cert renders : Bool) :
    Single (startFrom app cert renders 0 s.transactions s) := by
  refine (startFrom_rule (P := fun i s => Single s ∧ UnsentFrom i s) ?_ ?_ ?_
    s.transactions 0 s rfl ⟨h, hs⟩).elim fun _ hs => hs.1
  · exact fun i s ⟨h, hs⟩ => ⟨h, fun j row hj => hs j row (Nat.le_of_succ_le hj)⟩
  · intro i s row name query hi hp ⟨h, hs⟩
    refine ⟨h.submit hi (hs i row (Nat.le_refl i) hi hp), fun j row' hj hrow' hp' => ?_⟩
    have hne : row.id ≠ row'.id := fun heq => by
      have hij : i = j := h.ghosts.index_eq hi hrow' heq
      omega
    rw [load_submit, if_neg hne]
    exact hs j row' (Nat.le_of_succ_le hj) hrow' hp'
  · intro i s ⟨h, hs⟩
    have hne : "nonsense" ≠ "pending" := by decide
    refine ⟨h.setState i hne, fun j row hj hrow hp => ?_⟩
    have hrow := (pending_modify (fun row => row.pending_setState hne) hrow hp).2
    exact hs j row (Nat.le_of_succ_le hj) hrow hp

/-- A pending row that does not wait for its answer has no request in its present period. -/
theorem Single.unsent {i : ℕ} {row : Row} (h : Single s) (hi : s.transactions[i]? = some row)
    (hp : row.pending = .ok true) (hw : ¬ Waits s row) : TransactionTable.load s row.id = 0 := by
  rcases h.rows i row hi hp with hz | ⟨q, hq, hunder, -⟩
  · exact hz
  · exact absurd ⟨hp, q, hq, hunder⟩ hw

/-- A request is posted.  It was counted before. -/
theorem Single.post {n : ℕ} {q : Request} (h : Single s) (hq : s.requests[n]? = some q)
    (ha : q.answered = false) (hnone : q.posted = none) : Single { s with
      requests := s.requests.set n { q with posted := some (s.period q.row) } } := by
  let q' : Request := { q with posted := some (s.period q.row) }
  let t : State := { s with requests := s.requests.set n q' }
  have hload : ∀ id, TransactionTable.load t id = TransactionTable.load s id := by
    intro id
    refine Calls.countP_set_eq hq ?_
    by_cases hid : q.row = id
    · simp [q', t, Request.counts, ha, hnone, hid]
    · simp [q', hid]
  have hlt := h.ghosts.requests q (List.mem_of_getElem? hq)
  refine ⟨h.ghosts.of_ids_eq rfl (Calls.forall_mem_set _ h.ghosts.requests hlt) (Nat.le_refl _),
    fun id period => ?_, fun id => (hload id).trans_le (h.load id), ?_, fun i row hi hp => ?_⟩
  · by_cases hnow : period = s.period id
    · subst hnow
      exact (sent_le_load t id).trans ((hload id).trans_le (h.load id))
    · have hsame : sent t id period = sent s id period := by
        refine Calls.countP_set_eq hq ?_
        by_cases hid : q.row = id
        · subst hid
          simp [q', hnone, Ne.symm hnow]
        · simp [q', hid]
      exact hsame.trans_le (h.once id period)
  · refine Calls.forall_mem_set n h.past fun period hperiod => ?_
    rw [Option.some.inj hperiod]
  · refine (h.rows i row hi hp).imp (hload row.id).trans ?_
    rintro ⟨q₁, hq₁, ⟨ha₁, hrow, hposted⟩, htid⟩
    by_cases heq : q₁ = q
    · subst heq
      exact ⟨q', Calls.mem_set_self _ hq, ⟨ha₁, hrow, .inr (by rw [← hrow])⟩, htid⟩
    · exact ⟨q₁, Calls.mem_set_of_ne _ hq hq₁ heq, ⟨ha₁, hrow, hposted⟩, htid⟩

/-- The answered row is not pending, and the requests of the other rows are still on the way. -/
theorem Single.response {n : ℕ} {q : Request} (h : Single s) (hq : s.requests[n]? = some q)
    (res : Option String) : Single { s with
      transactions := s.transactions.modify q.tid (Row.report res)
      requests := s.requests.set n { q with answered := true } } := by
  let t : State := { s with
    transactions := s.transactions.modify q.tid (Row.report res)
    requests := s.requests.set n { q with answered := true } }
  have hload : ∀ id, TransactionTable.load t id ≤ TransactionTable.load s id := by
    intro id
    refine Calls.countP_set_le hq fun hc => ?_
    simp only [Request.counts, Bool.and_eq_true, Bool.or_eq_true] at hc ⊢
    refine ⟨hc.1, hc.2.imp (fun hp => hp) fun hnone => ?_⟩
    simp at hnone
  have hlt := h.ghosts.requests q (List.mem_of_getElem? hq)
  refine ⟨h.ghosts.of_ids_eq (map_modify _ _ (Row.report_id res))
      (Calls.forall_mem_set _ h.ghosts.requests hlt) (Nat.le_refl _),
    fun id period => ?_, fun id => (hload id).trans (h.load id),
    Calls.forall_mem_set n h.past (h.past q (List.mem_of_getElem? hq)), fun j row hj hp => ?_⟩
  · have hsame : sent t id period = sent s id period := Calls.countP_set_eq hq rfl
    exact hsame.trans_le (h.once id period)
  · obtain ⟨hne, hrow⟩ := pending_modify (Row.pending_report res) hj hp
    refine (h.rows j row hrow hp).imp (fun hz => Nat.le_zero.mp ((hload row.id).trans_eq hz)) ?_
    rintro ⟨q', hq', hunder, htid⟩
    refine ⟨q', Calls.mem_set_of_ne _ hq hq' ?_, hunder, htid⟩
    rintro rfl
    exact hne htid

/-- All rows are set to pending.  What is not posted by then may be posted in the new period. -/
theorem Single.make_pending (h : Single s) (leaves : Leaves s .make_pending) : Single { s with
      transactions := s.transactions.map (Row.setState "pending")
      period := s.nextPeriod } := by
  let t : State := { s with
    transactions := s.transactions.map (Row.setState "pending")
    period := s.nextPeriod }
  have hle : ∀ id, s.period id ≤ s.nextPeriod id := by
    intro id
    rw [State.nextPeriod]
    split <;> omega
  have hcounts : ∀ q ∈ s.requests, ∀ id, q.row = id → q.counts (s.nextPeriod id) = true →
      q.counts (s.period id) = true ∧ (id ∈ s.transactions.map Row.id → q.posted = none) := by
    rintro q hq _ rfl hc
    simp only [Request.counts, Bool.or_eq_true, decide_eq_true_eq] at hc ⊢
    rcases hc with hp | hnone
    · have hpast := h.past q hq _ hp
      rw [State.nextPeriod] at hp hpast
      split at hpast
      · omega
      next hmem => exact ⟨.inl (by rwa [if_neg hmem] at hp), fun hin => absurd hin hmem⟩
    · refine ⟨.inr hnone, fun _ => ?_⟩
      simpa using (Bool.and_eq_true_iff.mp hnone).1
  have hload : ∀ id, TransactionTable.load t id ≤ TransactionTable.load s id := by
    intro id
    refine List.countP_mono_left fun q hq hc => ?_
    obtain ⟨hrow, hc⟩ := Bool.and_eq_true_iff.mp hc
    rw [hrow, Bool.true_and]
    exact (hcounts q hq id (of_decide_eq_true hrow) hc).1
  have hids : ids t = ids s := by
    rw [ids, ids, List.map_map]
    rfl
  refine ⟨h.ghosts.of_ids_eq hids h.ghosts.requests (Nat.le_refl _), h.once,
    fun id => (hload id).trans (h.load id),
    fun q hq period hp => (h.past q hq period hp).trans (hle q.row), fun i row hi _ => ?_⟩
  rw [List.getElem?_map] at hi
  obtain ⟨row', hrow', rfl⟩ := Option.map_eq_some_iff.mp hi
  have hin : row'.id ∈ s.transactions.map Row.id :=
    List.mem_map_of_mem (List.mem_of_getElem? hrow')
  by_cases hex : ∃ q ∈ s.requests, q.answered = false ∧ q.posted = none ∧ q.row = row'.id
  · obtain ⟨q, hq, ha, hposted, hrow⟩ := hex
    exact .inr ⟨q, hq, ⟨ha, hrow, .inl hposted⟩,
      leaves (row', i) (List.mem_zipIdx_iff_getElem?.mpr hrow') q hq ha hposted hrow⟩
  · refine .inl (List.countP_eq_zero.mpr fun q hq hc => hex ?_)
    obtain ⟨hrow, hc⟩ := Bool.and_eq_true_iff.mp hc
    have hrow : q.row = row'.id := of_decide_eq_true hrow
    have hposted := (hcounts q hq row'.id hrow hc).2 hin
    refine ⟨q, hq, ?_, hposted, hrow⟩
    simpa [Request.counts, hposted] using hc

theorem single_step {e : Event} (h : Single s) (leaves : Leaves s e)
    (hstep : step app s e = some s') : Single s' := by
  have ghosts := ghosts_step h.ghosts hstep
  cases step_cases hstep with
  | add tr =>
      refine ⟨ghosts, h.once, h.load, h.past, fun j row hj hp => ?_⟩
      rcases Nat.lt_or_ge j s.transactions.length with hlt | hge
      · rw [List.getElem?_append_left hlt] at hj
        exact h.rows j row hj hp
      · have hmem := List.mem_of_getElem? ((List.getElem?_append_right hge).symm.trans hj)
        rw [List.mem_singleton.mp hmem]
        exact .inl (h.load_fresh (Nat.le_refl _))
  | delete listid =>
      refine ⟨ghosts, h.once, h.load, h.past, fun j row hj hp => ?_⟩
      rw [List.getElem?_eraseIdx] at hj
      split at hj
      next hlt => exact h.rows j row hj hp
      next hge =>
        -- The row moves, so it must not wait for its answer.
        have hmem : row ∈ s.transactions.drop (listid + 1) := by
          refine List.mem_of_getElem? (i := j - listid) ?_
          rw [List.getElem?_drop, ← hj]
          congr 1
          omega
        exact .inl (h.unsent hj hp (leaves row hmem))
  | start cert renders =>
      have hs : Single { s with disabled := true } :=
        ⟨⟨h.ghosts.rows, h.ghosts.requests, h.ghosts.distinct⟩, h.once, h.load, h.past, h.rows⟩
      refine hs.start (fun j row _ hj hp => ?_) cert renders
      exact h.unsent hj hp (leaves row (List.mem_of_getElem? hj))
  | refuse => exact ⟨ghosts, h.once, h.load, h.past, h.rows⟩
  | enable => exact ⟨ghosts, h.once, h.load, h.past, h.rows⟩
  | upload list =>
      refine ⟨ghosts, h.once, h.load, h.past, fun j row hj _ => .inl ?_⟩
      rw [List.getElem?_mapIdx] at hj
      obtain ⟨tr, -, rfl⟩ := Option.map_eq_some_iff.mp hj
      exact h.load_fresh (Nat.le_add_right _ _)
  | make_pending => exact h.make_pending leaves
  | post hq ha hnone => exact h.post hq ha hnone
  | response res hq _ _ => exact h.response hq res

/-- As long as "start" finds no pending row that waits for its answer and no request loses
its row to another index, every row is sent at most once between two events that set it to
pending. -/
theorem row_sent_once (app : App) (r : Run (step app) Leaves initial s) : SentAtMostOnce s :=
  (r.invariant single_initial fun _ _ _ => single_step).once

end Single

/-! ## Runs -/

/-- The rows and periods of the requests that were posted. -/
def posts (s : State) : List (ℕ × Option ℕ) := s.requests.map fun q => (q.row, q.posted)

/-- A row is sent and answered, and set to pending and sent again while another row that was
sent is set to pending before its request is posted. -/
theorem row_sent_once_again :
    (∃ s, SentAtMostOnce s ∧ posts s = [(0, some 0), (1, some 1), (0, some 1)]) ∧
      ∃ s, SentAtMostOnce s ∧ posts s = [(0, some 0), (1, some 1), (0, some 1)] := by
  constructor
  · have hexec : (exec (step .business) Leaves initial
        [.add (businessTr "a"), .add (businessTr "b"), .start false true, .post 0, .enable,
          .response 0 (some "ok"), .make_pending, .post 1, .response 1 (some "nomoney"),
          .start false true, .post 2]).map posts =
        some [(0, some 0), (1, some 1), (0, some 1)] := by
      decide +kernel
    obtain ⟨s, r, hs⟩ := exists_run_of_exec _ hexec
    exact ⟨s, row_sent_once .business r, hs⟩
  · have hexec : (exec (step .adminpanel) Leaves initial
        [.add (adminpanelTr "a"), .add (adminpanelTr "b"), .start true true, .post 0, .enable,
          .response 0 (some "ok"), .make_pending, .post 1, .response 1 (some "nomoney"),
          .start true true, .post 2]).map posts =
        some [(0, some 0), (1, some 1), (0, some 1)] := by
      decide +kernel
    obtain ⟨s, r, hs⟩ := exists_run_of_exec _ hexec
    exact ⟨s, row_sent_once .adminpanel r, hs⟩

/-- "start" is pressed again after a second, before the answer arrives. -/
theorem row_sent_twice :
    (∃ s, AnyRun (step .business) initial s ∧ ¬ SentAtMostOnce s) ∧
      ∃ s, AnyRun (step .adminpanel) initial s ∧ ¬ SentAtMostOnce s := by
  have twice : ∀ (app : App) (es : List Event),
      (exec (step app) (fun _ _ => True) initial es).map (sent · 0 0) = some 2 →
      ∃ s, AnyRun (step app) initial s ∧ ¬ SentAtMostOnce s := by
    intro app es hexec
    obtain ⟨s, r, hs⟩ := exists_run_of_exec _ hexec
    refine ⟨s, r, fun h => ?_⟩
    have hle := h 0 0
    omega
  constructor
  · exact twice .business [.add (businessTr "a"), .start false true, .post 0, .enable,
      .start false true, .post 1] (by decide +kernel)
  · exact twice .adminpanel [.add (adminpanelTr "a"), .start true true, .post 0, .enable,
      .start true true, .post 1] (by decide +kernel)

end SchuleAlsStaat.TransactionTable
