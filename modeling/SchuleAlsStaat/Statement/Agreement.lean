import SchuleAlsStaat.Server.Grows
import SchuleAlsStaat.Server.Sender
import SchuleAlsStaat.Statement.Render

/-!
# Statements and balances

An entry holds copies of the QR-IDs at the time of the lookups.  Edits, deletions
and registrations of students go on, and the copies stay.  `statement_agrees`
says under which condition the statement of every account ends with its balance
all the same.
-/

namespace SchuleAlsStaat.Server

open Js (Number)
open Runs (Run exec exists_run_of_exec)

variable {E : Ext} {K : Keys} {s s' : State}

/-! ## The condition -/

/-- An entry that is handed over agrees with the records, and its tax is not
negative. -/
def HandsOverAgreeing (E : Ext) (K : Keys) (s : State) (e : Event) : Prop :=
  ∀ a ∈ s.acts E K e, ∀ d ∈ a.draft,
    (∀ st ∈ s.students, st.Agrees d) ∧ d.amount_tax.lt (.fin 0) = false

/-- After a change of the students the records agree with the entries in the
ledger and on their way. -/
def LeavesAgreeing (E : Ext) (s : State) : Event → Prop
  | .callDb n r => ∀ c ∈ s.calls[n]?, ∀ t ∈ execute E s c.query r, ∀ st ∈ t.students,
      (∀ d ∈ s.bank.underway, st.Agrees d) ∧ ∀ b ∈ s.bank.transactions, st.Agrees b
  | _ => True

instance (s : State) (e : Event) : Decidable (HandsOverAgreeing E K s e) := by
  unfold HandsOverAgreeing
  infer_instance

instance (s : State) (e : Event) : Decidable (LeavesAgreeing E s e) :=
  match e with
  | .callDb .. => inferInstanceAs (Decidable (∀ _ ∈ _, _))
  | .request .. | .removeDb .. | .callFail _ | .callReply .. | .sumDb .. | .sumReply ..
  | .pollTimeout _ | .handleDbPollAnswer .. | .bank _ => isTrue trivial

/-! ## The invariant -/

/-- All records agree with all entries, and no tax is negative. -/
structure Agreement (s : State) : Prop where
  underway : ∀ d ∈ s.bank.underway,
    (∀ st ∈ s.students, st.Agrees d) ∧ d.amount_tax.lt (.fin 0) = false
  ledger : ∀ b ∈ s.bank.transactions, (∀ st ∈ s.students, st.Agrees b) ∧ 0 ≤ b.amount_tax

/-- An entry agrees with a record as it did before it was saved. -/
theorem agrees_of_cast {st : Student} {d : Draft} {b : Booking} (h : st.Agrees d)
    (hcast : d.cast = some b) : st.Agrees b := by
  obtain ⟨hs, hr, -⟩ := Entry.cast_eq_some hcast
  rw [Student.Agrees, hs, hr]
  exact h

theorem amount_tax_nonneg {d : Draft} {b : Booking} (h : d.amount_tax.lt (.fin 0) = false)
    (hcast : d.cast = some b) : 0 ≤ b.amount_tax := by
  obtain ⟨-, -, -, -, -, ht⟩ := Entry.cast_eq_some hcast
  rw [ht, Number.fin_lt_fin] at h
  exact not_lt.mp (of_decide_eq_false h)

namespace Agreement

theorem init (S : Students) : Agreement (State.init S []) := by
  refine ⟨?_, ?_⟩ <;> simp [State.init, Pending.State.init, Pending.State.underway]

/-- What is written was on its way. -/
theorem saved (h : Agreement s) {b : Booking}
    (hb : b ∈ s.bank.transactions ∨ ∃ d ∈ s.bank.underway, d.cast = some b) :
    (∀ st ∈ s.students, st.Agrees b) ∧ 0 ≤ b.amount_tax := by
  rcases hb with hb | ⟨d, hd, hcast⟩
  · exact h.ledger b hb
  · obtain ⟨hagrees, htax⟩ := h.underway d hd
    exact ⟨fun st hst => agrees_of_cast (hagrees st hst) hcast, amount_tax_nonneg htax hcast⟩

theorem step (h : Agreement s) {e : Event} (hands : HandsOverAgreeing E K s e)
    (leaves : LeavesAgreeing E s e) (hs : Server.step E K s e = some s') : Agreement s' := by
  rcases students_step hs with hstudents | ⟨hbank, n, r, c, t, rfl, hc, ht, hstudents⟩
  · constructor
    · intro d hd
      rw [hstudents]
      rcases (grows_step hs).underway d hd with hd | ⟨a, ha, hdraft⟩
      · exact h.underway d hd
      · exact hands a ha d hdraft
    · intro b hb
      rw [hstudents]
      exact h.saved (mem_transactions_step hs hb)
  · have hagree := leaves c hc t ht
    refine ⟨fun d hd => ?_, fun b hb => ?_⟩
    · rw [hbank] at hd
      rw [hstudents]
      exact ⟨fun st hst => (hagree st hst).1 d hd, (h.underway d hd).2⟩
    · rw [hbank] at hb
      rw [hstudents]
      exact ⟨fun st hst => (hagree st hst).2 b hb, (h.ledger b hb).2⟩

end Agreement

/-! ## Runs -/

/-- In every run in which entries agree with the records when they are handed
over and when the students change, the statement of every account ends with its
balance. -/
theorem statement_agrees {S : Students}
    (run : Run (step E K) (fun s e => HandsOverAgreeing E K s e ∧ LeavesAgreeing E s e)
      (State.init S []) s) :
    ∀ st ∈ s.students, ∀ l, CompleteList E s.bank.transactions st l →
      endBalance (render_transactions st.qrid l) = s.bank.transactions.balance st._id := by
  have h : Agreement s :=
    run.invariant (.init S) fun _ _ _ ih hok hs => ih.step hok.1 hok.2 hs
  intro st hst l hl
  exact endBalance_eq_balance (fun b hb => (h.ledger b hb).1 st hst)
    (fun b hb => (h.ledger b hb).2) hl

section Sample

open Pending (sumEvents)

/-- Citizen `1` gets 20 and pays 10 to citizen `3`.  Then citizen `1` gets
another QR-ID and citizen `3` the QR-ID `1`. -/
def statementKeys : Keys := .simple [
  ("spawn", "\x7b\"cert\":\"master_hash.\",\"payload\":\x7b\"recipient\":\"1\",\"amount\":20\x7d\x7d"),
  ("pay", "\x7b\"payload\":\x7b\"sender\":\"1\",\"recipient\":\"3\"," ++
    "\"sender_password\":\"pw\",\"amount_received\":10\x7d\x7d"),
  ("away", "\x7b\"cert\":\"admin_hash.\",\"payload\":\x7b\"qrid\":\"1\",\"prop\":\"qrid\"," ++
    "\"value\":\"other\"\x7d\x7d"),
  ("take", "\x7b\"cert\":\"admin_hash.\",\"payload\":\x7b\"qrid\":\"3\",\"prop\":\"qrid\"," ++
    "\"value\":\"1\"\x7d\x7d")]

/-- The spawned money and the payment are written. -/
def paid : List Event :=
  .request 0 .start "spawn_money" (bodyOf "spawn") :: lookup 0 (taxAccount 4) ++
    lookup 1 (someStudent 1) ++ .bank (.writeDb 0 true) ::
    .request 0 .start "transaction" (bodyOf "pay") :: lookup 2 (someStudent 1) ++
    lookup 3 (taxAccount 4) ++ lookup 4 (someStudent 1) ++ lookup 5 (someStudent 3) ++
    ([.intentDb 0 true, .intentReply 0, .tick 0, .checkDb 0 (some 0), .checkReply 0] ++
      sumEvents 0 ++ [.writeDb 1 true] : List Pending.Event).map .bank

def paidAndEdited : List Event :=
  paid ++ .request 0 .start "profile_edit" (bodyOf "away") :: lookup 6 (someStudent 1) ++
    .callDb 7 .done ::
    .request 0 .start "profile_edit" (bodyOf "take") :: lookup 8 (someStudent 3) ++
    [.callDb 9 .done]

/-- What the statement and the balance of a student say. -/
def sums (s : State) (st : Student) : ℚ × ℚ :=
  (endBalance (render_transactions st.qrid (completeList s.bank.transactions st)),
    s.bank.transactions.balance st._id)

theorem statement_agrees_paid : ∃ s, Run (step Ext.simple statementKeys)
    (fun s e => HandsOverAgreeing Ext.simple statementKeys s e ∧ LeavesAgreeing Ext.simple s e)
    (State.init citizens []) s ∧
      (someStudent 3 ∈ s.students ∧ s.bank.transactions.balance 3 = 10) ∧
      endBalance (render_transactions (.str "3") (completeList s.bank.transactions (someStudent 3))) =
        s.bank.transactions.balance 3 := by
  have hexec : (exec (step Ext.simple statementKeys)
      (fun s e => HandsOverAgreeing Ext.simple statementKeys s e ∧ LeavesAgreeing Ext.simple s e)
      (State.init citizens []) paid).map
        (fun s => (decide (someStudent 3 ∈ s.students), s.bank.transactions.balance 3)) =
          some (true, 10) := by decide +kernel
  obtain ⟨s, run, h⟩ := exists_run_of_exec paid hexec
  obtain ⟨hmem, hbalance⟩ := Prod.mk.inj h
  have hmem : someStudent 3 ∈ s.students := of_decide_eq_true hmem
  have hpassword : check_password Ext.simple (someStudent 3) (some (.str "pw")) = .ok true := by
    decide +kernel
  exact ⟨s, run, ⟨hmem, hbalance⟩, statement_agrees run _ hmem _
    (completeList_completeList s.bank.transactions hpassword)⟩

/-- The payee of a payment who takes over the QR-ID of the payer is shown as the payer. -/
theorem taken_over_qrid_disagrees : ¬ ∀ (E : Ext) (K : Keys) (S : Students) (s : State),
    Runs.AnyRun (step E K) (State.init S []) s → ∀ st ∈ s.students, ∀ l,
      CompleteList E s.bank.transactions st l →
        endBalance (render_transactions st.qrid l) = s.bank.transactions.balance st._id := by
  intro claim
  have hexec : (exec (step Ext.simple statementKeys) (fun _ _ => True) (State.init citizens [])
      paidAndEdited).map (fun s => (decide ({ someStudent 3 with qrid := .str "1" } ∈ s.students),
        sums s { someStudent 3 with qrid := .str "1" })) = some (true, -11, 10) := by decide +kernel
  obtain ⟨s, run, h⟩ := exists_run_of_exec paidAndEdited hexec
  simp only [Prod.mk.injEq, decide_eq_true_eq, sums] at h
  obtain ⟨hmem, hstatement, hbalance⟩ := h
  have hpassword : check_password Ext.simple { someStudent 3 with qrid := .str "1" }
      (some (.str "pw")) = .ok true := by decide +kernel
  have hequal := claim _ _ _ s run _ hmem _
    (completeList_completeList s.bank.transactions hpassword)
  rw [hstatement, hbalance] at hequal
  exact absurd hequal (by norm_num)

end Sample

end SchuleAlsStaat.Server
