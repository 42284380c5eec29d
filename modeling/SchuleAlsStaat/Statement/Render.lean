import SchuleAlsStaat.Actions.Callbacks
import SchuleAlsStaat.Lib.Newest

/-!
# The statement of an account

The user terminal shows the list that `get_last_transactions` answers with a
running balance.  The server selects the entries by their references to the
account.  `render_transactions` reads the direction of each entry from the copies
of the QR-IDs.  The running balance ends with the balance of the account if the
two agree on the entries of the account, and no tax is negative.
-/

namespace SchuleAlsStaat

open Js (JsVal JS)

/-! ## The complete list -/

/-- `getByProperties` without a limit. -/
def unlimited (limit : JsVal) : Bool :=
  !limit.truthy || passes (limit.toNumber.map fun n => n.lt (.fin 0))

/-- The entries that a search for an account selects. -/
def Filter.selects : Filter → Option (Booking → Bool)
  | .account id => some fun b => b.sender.reference = some id || b.recipient.reference = some id
  | .tax_recipient id => some fun b => b.tax_recipient = id
  | .properties _ => none

/-- What a search without a limit may find on a ledger.  The order of entries
with equal times is not specified. -/
inductive Found (L : Ledger) : Filter → List Booking → Prop where
  | intro {f : Filter} {p : Booking → Bool} {L' : Ledger} : f.selects = some p → L'.Perm L →
      Found L f (Newest.newest Entry.time none (L'.filter p))

/-- An answer that code gives, now or in the callbacks of its searches, when
these have no limit and are executed on one ledger. -/
inductive AnswersOn (E : Ext) (L : Ledger) : List Act → Answer → Prop where
  | here {acts : List Act} {client : Client} {m : Answer} : Act.answer client m ∈ acts →
      AnswersOn E L acts m
  | search {acts : List Act} {m : Answer} {env : Env} {client : Client} {f : Filter} {limit : JsVal}
      {cb : TransactionsCb} {tr : List Booking} :
      Act.query client (.transactions f limit cb) ∈ acts → unlimited limit = true → Found L f tr →
      AnswersOn E L (onReply E env client (.transactions f limit cb) (.transactions tr)).acts m →
      AnswersOn E L acts m

/-- A list that `get_last_transactions` answers for the amount `-1`. -/
def CompleteList (E : Ext) (L : Ledger) (st : Student) (l : List TransactionView) : Prop :=
  ∃ client payload, payload.prop "amount" = .ok (some (.num ⟨-1, 0⟩)) ∧
    AnswersOn E L (get_last_transactions_cb E payload client (some st)).acts (.transactions l)

/-! ## render_transactions -/

/-- A row of the table. -/
structure Row where
  transaction : TransactionView
  /-- The class is `dec`, otherwise it is `inc`. -/
  dec : Bool
  description : String
  bal_now : ℚ

/-- One round of the loop of `render_transactions`. -/
def renderRow (current_qrid : Text) (bal_now : ℚ) (t : TransactionView) : Row :=
  -- a transformed tax income is never a payment
  let is_sender := t.sender.qrid = current_qrid && !t.transformed_taxinc
  let is_recipient : Bool := t.recipient.qrid = current_qrid
  let bal_now := if is_sender then bal_now - t.amount_sent else bal_now
  let bal_now := if is_recipient then bal_now + t.amount_received else bal_now
  { transaction := t
    dec := is_sender
    description := match is_sender, is_recipient with
      | true, true => "Unsinn"
      | false, true => "Eingang"
      | true, false => "Zahlung"
      | false, false => "Veraltet"
    bal_now := bal_now }

def renderRows (current_qrid : Text) (bal_now : ℚ) : List TransactionView → List Row
  | [] => []
  | t :: ts =>
      let row := renderRow current_qrid bal_now t
      row :: renderRows current_qrid row.bal_now ts

/-- The rows of the table.  The loop starts at the end of the list. -/
def render_transactions (current_qrid : Text) (tr : List TransactionView) : List Row :=
  renderRows current_qrid 0 tr.reverse

/-- The running balance after the last row. -/
def endBalance (rows : List Row) : ℚ := (rows.getLast?.map Row.bal_now).getD 0

/-- What a row adds to the running balance. -/
def effect (current_qrid : Text) (t : TransactionView) : ℚ :=
  (renderRow current_qrid 0 t).bal_now

section Render

variable (current_qrid : Text)

theorem effect_eq (t : TransactionView) : effect current_qrid t =
    (if t.recipient.qrid = current_qrid then t.amount_received else 0) -
      if t.sender.qrid = current_qrid ∧ t.transformed_taxinc = false then t.amount_sent else 0 := by
  by_cases hr : t.recipient.qrid = current_qrid <;> by_cases hs : t.sender.qrid = current_qrid <;>
    cases ht : t.transformed_taxinc <;> simp [effect, renderRow, hr, hs, ht, neg_add_eq_sub]

theorem renderRow_bal_now (bal_now : ℚ) (t : TransactionView) :
    (renderRow current_qrid bal_now t).bal_now = bal_now + effect current_qrid t := by
  rw [effect_eq]
  by_cases hr : t.recipient.qrid = current_qrid <;> by_cases hs : t.sender.qrid = current_qrid <;>
    cases ht : t.transformed_taxinc <;> simp [renderRow, hr, hs, ht] <;> ring

theorem getLast?_renderRows (bal_now : ℚ) (ts : List TransactionView) :
    ((renderRows current_qrid bal_now ts).getLast?.map Row.bal_now).getD bal_now =
      bal_now + (ts.map (effect current_qrid)).sum := by
  induction ts generalizing bal_now with
  | nil => simp [renderRows]
  | cons t ts ih =>
      have hrow := renderRow_bal_now current_qrid bal_now t
      rw [renderRows, List.map_cons, List.sum_cons, ← add_assoc, ← hrow, ← ih]
      cases hrest : renderRows current_qrid (renderRow current_qrid bal_now t).bal_now ts with
      | nil => rfl
      | cons row rows => rw [List.getLast?_cons_cons, List.getLast?_cons]; rfl

/-- The running balance ends with the sum of all effects. -/
theorem endBalance_render_transactions (tr : List TransactionView) :
    endBalance (render_transactions current_qrid tr) = (tr.map (effect current_qrid)).sum := by
  have h := getLast?_renderRows current_qrid 0 tr.reverse
  rw [zero_add, List.map_reverse, List.sum_reverse] at h
  exact h

end Render

/-! ## Copies that agree -/

/-- In an entry of the account, a side has the QR-ID of the record exactly when
it refers to the account. -/
def Student.Agrees {α γ : Type} (st : Student) (e : Entry α γ) : Prop :=
  e.sender.reference = some st._id ∨ e.recipient.reference = some st._id →
    (e.sender.qrid = st.qrid ↔ e.sender.reference = some st._id) ∧
      (e.recipient.qrid = st.qrid ↔ e.recipient.reference = some st._id)

instance {α γ : Type} (st : Student) (e : Entry α γ) : Decidable (st.Agrees e) := by
  unfold Student.Agrees
  infer_instance

section Statement

variable {E : Ext} {L : Ledger} {st : Student} {l : List TransactionView}

theorem selected_of_found {f : Filter} {tr : List Booking} (h : Found L f tr) :
    ∃ p, f.selects = some p ∧ tr.Perm (L.filter p) := by
  obtain ⟨hp, hperm⟩ := h
  exact ⟨_, hp, (Newest.perm_sort _).trans (hperm.filter _)⟩

theorem mem_getTransactions {client : Client} {f : Filter} {limit : JsVal} {cb : TransactionsCb}
    {a : Act} (h : a ∈ (getTransactions client f limit cb).acts) :
    a = .query client (.transactions f limit cb) := by
  rw [getTransactions] at h
  split at h
  · obtain ⟨_, -, h⟩ := JS.mem_lift_bind_acts.mp h
    exact List.mem_singleton.mp h
  · exact List.mem_singleton.mp h

theorem mem_get_last_transactions_cb {payload : JsVal} {client : Client} {a : Act}
    (h : a ∈ (get_last_transactions_cb E payload client (some st)).acts) :
    (∃ m, a = .answer client (.text m)) ∨ ∃ amount, payload.prop "amount" = .ok amount ∧
      a = .query client
        (.transactions (.account st._id) amount (.get_last_transactions st amount)) := by
  rw [get_last_transactions_cb, JS.mem_lift_bind_acts] at h
  obtain ⟨password, -, h⟩ := h
  rw [JS.mem_lift_bind_acts] at h
  obtain ⟨ok, -, h⟩ := h
  cases ok with
  | false =>
      rw [Bool.not_false, if_pos rfl, answer_acts] at h
      exact .inl ⟨_, List.mem_singleton.mp h⟩
  | true =>
      obtain ⟨amount, hamount, h⟩ := JS.mem_lift_bind_acts.mp h
      exact .inr ⟨amount, hamount, mem_getTransactions h⟩

/-- The list holds the entries of the account and those that brought it tax income. -/
theorem completeList_eq (h : CompleteList E L st l) : ∃ tr tr_tax,
    Found L (.account st._id) tr ∧ Found L (.tax_recipient st._id) tr_tax ∧
      l = tr.map TransactionView.ofBooking ++
        (tr_tax.filter fun b => 0 < b.amount_tax).map (TransactionView.ofTax st) := by
  obtain ⟨client, payload, -, h⟩ := h
  cases h with
  | here hanswer =>
      rcases mem_get_last_transactions_cb hanswer with ⟨m, heq⟩ | ⟨amount, -, heq⟩ <;> cases heq
  | @search _ _ env client _ limit _ tr hsearch _ htr h =>
      rcases mem_get_last_transactions_cb hsearch with ⟨m, heq⟩ | ⟨amount, -, heq⟩
      · cases heq
      cases heq
      -- the callback of the first search starts the second one
      cases h with
      | here hanswer => cases mem_getTransactions hanswer
      | @search _ _ env client _ limit _ tr_tax hsearch _ htax h =>
          cases mem_getTransactions hsearch
          rw [onReply, onTransactions, answer_acts] at h
          cases h with
          | here hanswer =>
              cases List.mem_singleton.mp hanswer
              exact ⟨tr, tr_tax, htr, htax, rfl⟩
          | search hsearch => cases List.mem_singleton.mp hsearch

/-- The complete list, with ties in the order of the ledger. -/
def completeList (L : Ledger) (st : Student) : List TransactionView :=
  (Newest.newest Entry.time none (L.filter fun b =>
      b.sender.reference = some st._id || b.recipient.reference = some st._id)).map
        TransactionView.ofBooking ++
    ((Newest.newest Entry.time none (L.filter fun b => b.tax_recipient = st._id)).filter fun b =>
      0 < b.amount_tax).map (TransactionView.ofTax st)

theorem unlimited_neg : unlimited (some (.num ⟨-1, 0⟩)) = true := by decide +kernel

/-- The owner of a record with a password can get the complete list. -/
theorem completeList_completeList (L : Ledger) {password : Js.Json}
    (h : check_password E st (some password) = .ok true) :
    CompleteList E L st (completeList L st) := by
  let payload : JsVal := some (.obj [("amount", .num ⟨-1, 0⟩), ("password", password)])
  have hacts : (get_last_transactions_cb E payload ⟨0, none⟩ (some st)).acts =
      [.query ⟨0, none⟩ (.transactions (.account st._id) (some (.num ⟨-1, 0⟩))
        (.get_last_transactions st (some (.num ⟨-1, 0⟩))))] := by
    have hpassword : payload.prop "password" = .ok (some password) := rfl
    have hamount : payload.prop "amount" = .ok (some (.num ⟨-1, 0⟩)) := rfl
    simp only [get_last_transactions_cb, hpassword, hamount, h, JS.lift_ok_bind]
    rfl
  refine ⟨⟨0, none⟩, payload, rfl, ?_⟩
  have first := List.mem_singleton_self (Act.query ⟨0, none⟩ (.transactions (.account st._id)
    (some (.num ⟨-1, 0⟩)) (.get_last_transactions st (some (.num ⟨-1, 0⟩)))))
  rw [← hacts] at first
  refine @AnswersOn.search E L _ _ .start _ _ _ _ _ first unlimited_neg (.intro rfl (.refl _)) ?_
  refine @AnswersOn.search E L _ _ .start _ _ _ _ _ (List.mem_singleton_self _) unlimited_neg
    (.intro rfl (.refl _)) ?_
  exact .here (List.mem_singleton_self _)

/-- What an entry of the account adds to the running balance, it adds to the balance. -/
theorem effect_ofBooking {b : Booking} (h : st.Agrees b)
    (hinvolved : b.sender.reference = some st._id ∨ b.recipient.reference = some st._id) :
    effect st.qrid (.ofBooking b) =
      (if b.recipient.reference = some st._id then b.amount_received else 0) -
        if b.sender.reference = some st._id then b.amount_sent else 0 := by
  obtain ⟨hs, hr⟩ := h hinvolved
  rw [effect_eq]
  simp [TransactionView.ofBooking, hs, hr]

theorem effect_ofTax (b : Booking) : effect st.qrid (.ofTax st b) = b.amount_tax := by
  rw [effect_eq]
  simp [TransactionView.ofTax, student_public_only]

/-- The entries of the account add up to its income less its payments. -/
theorem sum_effect_ofBooking (h : ∀ b ∈ L, st.Agrees b) :
    ((L.filter fun b => b.sender.reference = some st._id || b.recipient.reference = some st._id).map
      fun b => effect st.qrid (.ofBooking b)).sum = L.income st._id - L.payments st._id := by
  induction L with
  | nil => simp [Ledger.income, Ledger.payments]
  | cons b L ih =>
      have ih := ih fun b' hb' => h b' (List.mem_cons_of_mem _ hb')
      have hb := h b (List.mem_cons_self ..)
      by_cases hinvolved : b.sender.reference = some st._id ∨ b.recipient.reference = some st._id
      · rw [List.filter_cons_of_pos (by simpa using hinvolved), List.map_cons, List.sum_cons, ih,
          effect_ofBooking hb hinvolved]
        by_cases hs : b.sender.reference = some st._id <;>
          by_cases hr : b.recipient.reference = some st._id <;>
            simp [Ledger.income, Ledger.payments, hs, hr] <;> ring
      · obtain ⟨hs, hr⟩ := not_or.mp hinvolved
        rw [List.filter_cons_of_neg (by simpa using ⟨hs, hr⟩), ih]
        simp [Ledger.income, Ledger.payments, hs, hr]

variable (st) in
/-- The transformed entries add up to the tax income. -/
theorem sum_effect_ofTax (h : ∀ b ∈ L, 0 ≤ b.amount_tax) :
    (((L.filter fun b => b.tax_recipient = st._id).filter fun b => 0 < b.amount_tax).map
      fun b => effect st.qrid (.ofTax st b)).sum = L.taxincome st._id := by
  induction L with
  | nil => rfl
  | cons b L ih =>
      have ih := ih fun b' hb' => h b' (List.mem_cons_of_mem _ hb')
      have hb := h b (List.mem_cons_self ..)
      by_cases hid : b.tax_recipient = st._id
      · rw [List.filter_cons_of_pos (by simpa using hid)]
        have hincome : Ledger.taxincome (b :: L) st._id = b.amount_tax + Ledger.taxincome L st._id := by
          simp [Ledger.taxincome, hid]
        rcases hb.eq_or_lt with hzero | hpos
        · rw [List.filter_cons_of_neg (by simp [← hzero]), ih, hincome, ← hzero, zero_add]
        · rw [List.filter_cons_of_pos (by simpa using hpos), List.map_cons, List.sum_cons, ih,
            effect_ofTax, hincome]
      · rw [List.filter_cons_of_neg (by simpa using hid), ih]
        simp [Ledger.taxincome, hid]

/-- The statement of an account that agrees with the ledger ends with the
balance. -/
theorem endBalance_eq_balance (hagrees : ∀ b ∈ L, st.Agrees b) (htax : ∀ b ∈ L, 0 ≤ b.amount_tax)
    (hl : CompleteList E L st l) :
    endBalance (render_transactions st.qrid l) = L.balance st._id := by
  obtain ⟨tr, tr_tax, htr, htr_tax, rfl⟩ := completeList_eq hl
  obtain ⟨p, hp, hperm⟩ := selected_of_found htr
  obtain ⟨p', hp', hperm'⟩ := selected_of_found htr_tax
  cases hp
  cases hp'
  have hnormal := sum_effect_ofBooking hagrees
  have htaxes := sum_effect_ofTax st htax
  calc endBalance (render_transactions st.qrid _)
      = (tr.map fun b => effect st.qrid (.ofBooking b)).sum +
          ((tr_tax.filter fun b => 0 < b.amount_tax).map fun b =>
            effect st.qrid (.ofTax st b)).sum := by
        rw [endBalance_render_transactions, List.map_append, List.sum_append, List.map_map,
          List.map_map]
        rfl
    _ = (L.income st._id - L.payments st._id) + L.taxincome st._id := by
        rw [(hperm.map _).sum_eq, hnormal, ((hperm'.filter _).map _).sum_eq, htaxes]
    _ = L.balance st._id := by
        rw [Ledger.balance]
        ring

end Statement

end SchuleAlsStaat
