import SchuleAlsStaat.Client.TransactionTable

/-!
# Answers to the right row

The answer of the API should change the row whose transaction it answers.  A request
addresses its row by an index, so a row that is deleted in between lets the answer go to
another row, see `answers_other_row`.

`answers_right_row` says that answers go to the right row as long as no row is deleted,
added or uploaded that moves a row away from, or a foreign row to, the index of a request
that is on the way.
-/

namespace SchuleAlsStaat.TransactionTable

open Js (Json JsVal)
open Runs (Run AnyRun exec exists_run_of_exec)

/-- Every answer that may come now changes the row that was sent, if it still exists, and
no other row. -/
def AnswersRightRow (app : App) (s : State) : Prop :=
  ∀ n q res s', s.requests[n]? = some q → step app s (.response n res) = some s' →
    s'.transactions = s.transactions.map fun row =>
      if row.id = q.row then row.report res else row

/-- The event moves neither the row away from the index of the request nor a foreign row to
this index. -/
def KeepsIndex (s : State) (q : Request) : Event → Prop
  | .add _ => q.tid ≠ s.transactions.length
  | .delete listid => q.tid < listid ∨ s.transactions.length ≤ q.tid ∨
      (q.tid = listid ∧ listid + 1 = s.transactions.length)
  | .upload list => list.length ≤ q.tid
  | _ => True

instance (s : State) (q : Request) : ∀ e, Decidable (KeepsIndex s q e)
  | .add _ => inferInstanceAs (Decidable (_ ≠ _))
  | .delete _ => inferInstanceAs (Decidable (_ ∨ _ ∨ _))
  | .start .. | .enable | .make_pending | .post _ | .response .. =>
      inferInstanceAs (Decidable True)
  | .upload _ => inferInstanceAs (Decidable (_ ≤ _))

/-- The event keeps the indices of all requests that are on the way. -/
def KeepsIndices (s : State) (e : Event) : Prop :=
  ∀ q ∈ s.requests, q.answered = false → KeepsIndex s q e

instance (s : State) (e : Event) : Decidable (KeepsIndices s e) :=
  inferInstanceAs (Decidable (∀ q ∈ s.requests, _ → _))

section Aim

variable {app : App} {s s' : State} {q : Request}

/-- The index of a request is that of its row, or of no row if its row is gone. -/
def Aimed (s : State) (q : Request) : Prop :=
  ∀ (j : ℕ) (row : Row), s.transactions[j]? = some row → (row.id = q.row ↔ j = q.tid)

/-- The invariant of the runs in which the indices of the requests are kept. -/
structure OnTarget (s : State) : Prop where
  ghosts : Ghosts s
  aimed : ∀ q ∈ s.requests, q.answered = false → Aimed s q

/-- Only the objects and their order matter. -/
theorem Aimed.of_ids (h : Aimed s q)
    (rows : ∀ (j : ℕ) (row' : Row), s'.transactions[j]? = some row' →
      ∃ row, s.transactions[j]? = some row ∧ row.id = row'.id) : Aimed s' q := by
  intro j row' hj
  obtain ⟨row, hrow, hid⟩ := rows j row' hj
  rw [← hid]
  exact h j row hrow

theorem getElem?_modify_id {f : Row → Row} {l : List Row} {i j : ℕ} {row' : Row}
    (hf : ∀ a, (f a).id = a.id) (hj : (l.modify i f)[j]? = some row') :
    ∃ row, l[j]? = some row ∧ row.id = row'.id := by
  rw [List.getElem?_modify] at hj
  obtain ⟨row, hrow, rfl⟩ := Option.map_eq_some_iff.mp hj
  refine ⟨row, hrow, ?_⟩
  split
  · exact (hf row).symm
  · rfl

/-- A new row comes behind the rows that are there. -/
theorem Aimed.add {row : Row} {fresh : ℕ} (h : Aimed s q) (hq : q.row ≠ row.id)
    (hne : q.tid ≠ s.transactions.length) :
    Aimed { s with transactions := s.transactions ++ [row], fresh := fresh } q := by
  intro j row' hj
  rcases Nat.lt_or_ge j s.transactions.length with hlt | hge
  · rw [List.getElem?_append_left hlt] at hj
    exact h j row' hj
  · have hmem := List.mem_of_getElem? ((List.getElem?_append_right hge).symm.trans hj)
    have hlast : j < (s.transactions ++ [row]).length := (List.getElem?_eq_some_iff.mp hj).1
    rw [List.length_append, List.length_singleton] at hlast
    rw [List.mem_singleton.mp hmem]
    exact ⟨fun hid => absurd hid.symm hq, fun htid => absurd htid (by omega)⟩

/-- A row is deleted behind the row of the request, or it is the last row and the one of
the request. -/
theorem Aimed.delete {listid : ℕ} (h : Aimed s q) (keeps : KeepsIndex s q (.delete listid)) :
    Aimed { s with transactions := s.transactions.eraseIdx listid } q := by
  intro j row hj
  simp only [List.getElem?_eraseIdx] at hj
  have hkeeps : q.tid < listid ∨ s.transactions.length ≤ q.tid ∨
    (q.tid = listid ∧ listid + 1 = s.transactions.length) := keeps
  split at hj
  next hlt =>
    exact h j row hj
  next hge =>
    have hlen := (List.getElem?_eq_some_iff.mp hj).1
    have haim := h (j + 1) row hj
    constructor
    · intro hid
      have htid := haim.mp hid
      omega
    · intro htid
      omega

/-- Uploaded rows have no request yet. -/
theorem Aimed.upload {l : List Row} {fresh : ℕ} (hrow : ∀ row ∈ l, row.id ≠ q.row)
    (hlen : l.length ≤ q.tid) : Aimed { s with transactions := l, fresh := fresh } q := by
  intro j row hj
  have hlt := (List.getElem?_eq_some_iff.mp hj).1
  exact ⟨fun hid => absurd hid (hrow row (List.mem_of_getElem? hj)),
    fun htid => absurd htid (by dsimp only at hlt; omega)⟩

theorem onTarget_initial : OnTarget initial where
  ghosts := ghosts_initial
  aimed := fun _ h => by cases h

/-- A row is sent with its own index. -/
theorem OnTarget.submit {i : ℕ} {row : Row} {name : String} {query : Fields} (h : OnTarget s)
    (hi : s.transactions[i]? = some row) : OnTarget (s.submit row i name query) := by
  refine ⟨h.ghosts.submit hi, Calls.forall_mem_concat h.aimed fun _ j row' hj => ?_⟩
  constructor
  · exact fun hid => h.ghosts.index_eq hj hi hid
  · rintro rfl
    rw [Option.some.inj (hj.symm.trans hi)]

theorem OnTarget.setState (h : OnTarget s) (i : ℕ) (state : String) :
    OnTarget (s.setState i state) :=
  ⟨h.ghosts.setState i state, fun q hq ha =>
    (h.aimed q hq ha).of_ids fun _ _ hj => getElem?_modify_id (Row.setState_id state) hj⟩

theorem OnTarget.start (h : OnTarget s) (cert renders : Bool) :
    OnTarget (startFrom app cert renders 0 s.transactions s) :=
  (startFrom_rule (P := fun _ s => OnTarget s) (fun _ _ h => h)
    (fun _ _ _ _ _ hrow _ h => h.submit hrow) (fun i _ h => h.setState i _)
    s.transactions 0 s rfl h).elim fun _ hs => hs

theorem onTarget_step {e : Event} (h : OnTarget s) (keeps : KeepsIndices s e)
    (hstep : step app s e = some s') : OnTarget s' := by
  refine ⟨ghosts_step h.ghosts hstep, ?_⟩
  cases step_cases hstep with
  | add tr =>
      refine fun q hq ha => (h.aimed q hq ha).add ?_ (keeps q hq ha)
      exact Nat.ne_of_lt (h.ghosts.requests q hq)
  | delete listid => exact fun q hq ha => (h.aimed q hq ha).delete (keeps q hq ha)
  | start cert renders =>
      have hs : OnTarget { s with disabled := true } :=
        ⟨⟨h.ghosts.rows, h.ghosts.requests, h.ghosts.distinct⟩, h.aimed⟩
      exact (hs.start cert renders).aimed
  | refuse => exact h.aimed
  | enable => exact h.aimed
  | upload list =>
      intro q hq ha
      have hlen : list.length ≤ q.tid := keeps q hq ha
      refine Aimed.upload (fun row hrow => ?_) (by simpa using hlen)
      obtain ⟨i, hi, rfl⟩ := List.mem_mapIdx.mp hrow
      have hlt : q.row < s.fresh := h.ghosts.requests q hq
      dsimp only
      omega
  | make_pending =>
      refine fun q hq ha => (h.aimed q hq ha).of_ids fun j row' hj => ?_
      rw [List.getElem?_map] at hj
      obtain ⟨row, hrow, rfl⟩ := Option.map_eq_some_iff.mp hj
      exact ⟨row, hrow, rfl⟩
  | @post n q hq ha _ =>
      have haim : Aimed s q := h.aimed q (List.mem_of_getElem? hq) ha
      exact Calls.forall_mem_set _ h.aimed fun _ => haim
  | response res hq ha _ =>
      refine Calls.forall_mem_set _ (fun q' hq' ha' => ?_) fun ha' => by cases ha'
      exact (h.aimed q' hq' ha').of_ids fun _ _ hj =>
        getElem?_modify_id (fun row => row.report_id res) hj

/-- A request on target changes its row and no other. -/
theorem Aimed.modify (h : Aimed s q) (f : Row → Row) :
    s.transactions.modify q.tid f =
      s.transactions.map fun row => if row.id = q.row then f row else row := by
  refine List.ext_getElem? fun j => ?_
  rw [List.getElem?_modify, List.getElem?_map]
  cases hj : s.transactions[j]? with
  | none => rfl
  | some row =>
      have haim := h j row hj
      by_cases hid : row.id = q.row
      · simp [hid, haim.mp hid]
      · have hne : q.tid ≠ j := fun htid => hid (haim.mpr htid.symm)
        simp [hid, hne]

theorem OnTarget.answersRightRow (h : OnTarget s) : AnswersRightRow app s := by
  intro n q res s' hn hstep
  cases step_cases hstep with
  | response _ hq ha _ =>
      obtain rfl := Option.some.inj (hn.symm.trans hq)
      exact (h.aimed q (List.mem_of_getElem? hn) ha).modify _

/-- As long as every step keeps the indices of the requests on the way, every answer
changes the row whose transaction it answers, if it still exists, and no other row. -/
theorem answers_right_row (app : App) (r : Run (step app) KeepsIndices initial s) :
    AnswersRightRow app s :=
  (r.invariant onTarget_initial fun _ _ _ => onTarget_step).answersRightRow

end Aim

/-! ## Runs -/

/-- The properties of a new transaction of `business`. -/
def businessTr (sender : String) : List (String × JsVal) :=
  [("amount_sent", none), ("amount_received", some (.num ⟨5, 0⟩)), ("amount", none),
    ("sender", some (.str sender)), ("recipient", some (.str "r")),
    ("sender_password", some (.str "p")), ("comment", some (.str "wage"))]

/-- The properties of a new transaction of `adminpanel`. -/
def adminpanelTr (sender : String) : List (String × JsVal) :=
  [("amount_sent", none), ("amount_received", some (.num ⟨5, 0⟩)),
    ("spawn_money", some (.bool false)), ("destroy_money", some (.bool false)),
    ("tax_percent", some (.str "default")), ("amount", none),
    ("sender", some (.obj [("qrid", .str sender)])),
    ("recipient", some (.obj [("qrid", .str "r")])), ("comment", some (.str "wage"))]

/-- The states that a run observes: which rows the requests are for, and the rows with
whether they are pending. -/
def view (s : State) : List ℕ × List (ℕ × Option Bool) :=
  (s.requests.map Request.row, s.transactions.map fun row => (row.id, row.pending.toOption))

/-- The last of two rows that are sent is deleted before the first one is answered. -/
theorem answers_right_row_two_rows :
    (∃ s, AnswersRightRow .business s ∧ view s = ([0, 1], [(0, some false)])) ∧
      ∃ s, AnswersRightRow .adminpanel s ∧ view s = ([0, 1], [(0, some false)]) := by
  constructor
  · have hexec : (exec (step .business) KeepsIndices initial
        [.add (businessTr "a"), .add (businessTr "b"), .start false true, .post 0, .post 1,
          .delete 1, .response 0 (some "ok")]).map view = some ([0, 1], [(0, some false)]) := by
      decide +kernel
    obtain ⟨s, r, hs⟩ := exists_run_of_exec _ hexec
    exact ⟨s, answers_right_row .business r, hs⟩
  · have hexec : (exec (step .adminpanel) KeepsIndices initial
        [.add (adminpanelTr "a"), .add (adminpanelTr "b"), .start true true, .post 0, .post 1,
          .delete 1, .response 0 (some "ok")]).map view = some ([0, 1], [(0, some false)]) := by
      decide +kernel
    obtain ⟨s, r, hs⟩ := exists_run_of_exec _ hexec
    exact ⟨s, answers_right_row .adminpanel r, hs⟩

/-- A row whose own answer leaves it pending. -/
theorem not_answersRightRow {app : App} {s s' : State} {n : ℕ} {q : Request} {row : Row}
    {res : Option String} (hn : s.requests[n]? = some q)
    (hstep : step app s (.response n res) = some s') (hrow : row ∈ s'.transactions)
    (hid : row.id = q.row) (hp : row.pending.toOption = some true) : ¬ AnswersRightRow app s := by
  intro h
  rw [h n q res s' hn hstep, List.mem_map] at hrow
  obtain ⟨row, -, rfl⟩ := hrow
  split at hid
  next heq =>
    rw [if_pos heq, Row.pending_report] at hp
    cases hp
  next hne => exact hne hid

/-- Three rows are sent and the first one is deleted.  The answer to the second one then
changes the third one. -/
theorem answers_other_row :
    (∃ s, AnyRun (step .business) initial s ∧ ¬ AnswersRightRow .business s) ∧
      ∃ s, AnyRun (step .adminpanel) initial s ∧ ¬ AnswersRightRow .adminpanel s := by
  have wrong : ∀ (app : App) (es : List Event),
      (exec (step app) (fun _ _ => True) initial es).map (fun s =>
        (step app s (.response 1 (some "ok"))).map fun s' =>
          (s.requests.map Request.row, (view s').2)) =
        some (some ([0, 1, 2], [(1, some true), (2, some false)])) →
      ∃ s, AnyRun (step app) initial s ∧ ¬ AnswersRightRow app s := by
    intro app es hexec
    obtain ⟨s, r, hs⟩ := exists_run_of_exec _ hexec
    obtain ⟨s', hstep, hview⟩ := Option.map_eq_some_iff.mp hs
    obtain ⟨hrequests, hrows⟩ := Prod.mk.inj hview
    obtain ⟨q, hq, hqrow⟩ : ∃ q, s.requests[1]? = some q ∧ q.row = 1 := by
      refine Option.map_eq_some_iff.mp ?_
      rw [← List.getElem?_map, hrequests]
      rfl
    obtain ⟨row, hrow, heq⟩ : ∃ row ∈ s'.transactions, (row.id, row.pending.toOption) =
        (1, some true) := by
      refine List.mem_map.mp (show _ ∈ (view s').2 from ?_)
      rw [hrows]
      exact List.mem_cons_self ..
    obtain ⟨hid, hp⟩ := Prod.mk.inj heq
    exact ⟨s, r, not_answersRightRow hq hstep hrow (hid.trans hqrow.symm) hp⟩
  constructor
  · exact wrong .business [.add (businessTr "a"), .add (businessTr "b"), .add (businessTr "c"),
      .start false true, .post 1, .delete 0] (by decide +kernel)
  · exact wrong .adminpanel [.add (adminpanelTr "a"), .add (adminpanelTr "b"),
      .add (adminpanelTr "c"), .start true true, .post 1, .delete 0] (by decide +kernel)

end SchuleAlsStaat.TransactionTable
