import Mathlib.Algebra.Order.BigOperators.Group.List
import Mathlib.Tactic.Linarith
import SchuleAlsStaat.Js.Value
import SchuleAlsStaat.Lib.Calls

/-!
# The transactions collection

`transactionSchema` of `db/transactions.js`.  An entry that an action hands to
`write` holds JavaScript numbers.  Mongoose casts it to the schema before it is
saved, and an amount that is `NaN` fails the cast.  A saved entry holds exact
amounts.

`getBalance` is three aggregations, `income`, `payments` and `taxincome`, each
a filtered sum over the whole collection.
-/

namespace SchuleAlsStaat

open Js (Json JsVal Number)
open Calls (Phase)

abbrev ObjectId := ℕ

/-- Milliseconds. -/
abbrev Time := ℤ

/-- A stored property of the schema type `String`, where a missing value and a stored `null`
are told apart. -/
inductive Text where
  | missing
  | null
  | str (s : String)
deriving DecidableEq, Repr

namespace Text

def toOption : Text → Option String
  | .str s => some s
  | _ => none

/-- The name under which an object keeps a property for the text. -/
def key : Text → String
  | .missing => "undefined"
  | .null => "null"
  | .str s => s

@[simp] theorem toOption_str (s : String) : (str s).toOption = some s := rfl
@[simp] theorem key_str (s : String) : (str s).key = s := rfl

end Text

/-- The casts of Mongoose, which fail for some values of a string or a date. -/
structure Casts where
  castString : JsVal → Option Text
  castDate : JsVal → Option (Option Time)
  /-- What is read back where a value of the type `Mixed` was saved. -/
  castMixed : JsVal → Json
  /-- A string is stored as it is. -/
  castString_str : ∀ s, castString (some (.str s)) = some (.str s)

/-- `commonProfileSchema`: a reference to an account and a copy of its profile
at the time of the transaction. -/
structure Profile where
  reference : Option ObjectId
  special_name : Option String
  firstname : Option String
  lastname : Option String
  country : Option String
  type : Option String
  qrid : Text
deriving DecidableEq, Repr

/-- A transaction with amounts in `α` and a comment in `γ`. -/
structure Entry (α γ : Type) where
  sender : Profile
  recipient : Profile
  tax_recipient : ObjectId
  time : Time
  amount_sent : α
  amount_received : α
  amount_tax : α
  percent_tax : α
  comment : γ
deriving DecidableEq, Repr

/-- An entry as an action hands it to `write`.  Its comment is `none` if it
cannot be cast to a string. -/
abbrev Draft := Entry Number (Option (Option String))

/-- An entry of the collection. -/
abbrev Booking := Entry ℚ (Option String)

/-- The cast to the schema, which fails on `NaN`. -/
def Entry.cast (e : Draft) : Option Booking :=
  match e.amount_sent, e.amount_received, e.amount_tax, e.percent_tax, e.comment with
  | .fin sent, .fin received, .fin tax, .fin percent, some comment =>
      some { e with
        amount_sent := sent, amount_received := received, amount_tax := tax,
        percent_tax := percent, comment := comment }
  | _, _, _, _, _ => none

/-- The cast keeps the references and reads the amounts. -/
theorem Entry.cast_eq_some {e : Draft} {t : Booking} (h : e.cast = some t) :
    t.sender = e.sender ∧ t.recipient = e.recipient ∧ t.tax_recipient = e.tax_recipient ∧
      e.amount_sent = .fin t.amount_sent ∧ e.amount_received = .fin t.amount_received ∧
      e.amount_tax = .fin t.amount_tax := by
  rw [Entry.cast] at h
  split at h
  next hs hr ht hp hc =>
    cases h
    exact ⟨rfl, rfl, rfl, hs, hr, ht⟩
  next => cases h

abbrev Ledger := List (Booking)

/-! ## getBalance -/

namespace Ledger

/-- `$match` on `recipient.reference`, `$sum` of `amount_received`. -/
def income (L : Ledger) (id : ObjectId) : ℚ :=
  ((L.filter fun e => e.recipient.reference = some id).map Entry.amount_received).sum

/-- `$match` on `sender.reference`, `$sum` of `amount_sent`. -/
def payments (L : Ledger) (id : ObjectId) : ℚ :=
  ((L.filter fun e => e.sender.reference = some id).map Entry.amount_sent).sum

/-- `$match` on `tax_recipient`, `$sum` of `amount_tax`. -/
def taxincome (L : Ledger) (id : ObjectId) : ℚ :=
  ((L.filter fun e => e.tax_recipient = id).map Entry.amount_tax).sum

/-- What `getBalance` passes to its callback when nothing is written
meanwhile. -/
def balance (L : Ledger) (id : ObjectId) : ℚ := income L id + taxincome L id - payments L id

variable (L : Ledger) (e : Booking) (id : ObjectId)

theorem income_concat : income (L ++ [e]) id =
    income L id + if e.recipient.reference = some id then e.amount_received else 0 := by
  by_cases h : e.recipient.reference = some id <;> simp [income, h]

theorem payments_concat : payments (L ++ [e]) id =
    payments L id + if e.sender.reference = some id then e.amount_sent else 0 := by
  by_cases h : e.sender.reference = some id <;> simp [payments, h]

theorem taxincome_concat : taxincome (L ++ [e]) id =
    taxincome L id + if e.tax_recipient = id then e.amount_tax else 0 := by
  by_cases h : e.tax_recipient = id <;> simp [taxincome, h]

/-! ## One more entry -/

/-- The recipient and the tax account are not debited. -/
def Credits (e : Booking) : Prop := 0 ≤ e.amount_received ∧ 0 ≤ e.amount_tax

variable {L e id}

theorem income_le_concat (h : Credits e) : income L id ≤ income (L ++ [e]) id := by
  rw [income_concat]
  split
  · linarith [h.1]
  · linarith

theorem taxincome_le_concat (h : Credits e) : taxincome L id ≤ taxincome (L ++ [e]) id := by
  rw [taxincome_concat]
  split
  · linarith [h.2]
  · linarith

theorem payments_concat_of_ne (h : e.sender.reference ≠ some id) :
    payments (L ++ [e]) id = payments L id := by
  rw [payments_concat, if_neg h, add_zero]

/-- Only the sender's balance can go down. -/
theorem balance_le_concat_of_ne (h : Credits e) (ne : e.sender.reference ≠ some id) :
    balance L id ≤ balance (L ++ [e]) id := by
  have hi : income L id ≤ income (L ++ [e]) id := income_le_concat h
  have ht : taxincome L id ≤ taxincome (L ++ [e]) id := taxincome_le_concat h
  have hp := payments_concat_of_ne (L := L) ne
  rw [balance, balance]
  linarith

/-- The sender's balance goes down by no more than what was sent. -/
theorem balance_sub_le_concat (h : Credits e) (eq : e.sender.reference = some id) :
    balance L id - e.amount_sent ≤ balance (L ++ [e]) id := by
  have hi : income L id ≤ income (L ++ [e]) id := income_le_concat h
  have ht : taxincome L id ≤ taxincome (L ++ [e]) id := taxincome_le_concat h
  have hp := payments_concat L e id
  rw [if_pos eq] at hp
  rw [balance, balance]
  linarith

end Ledger

/-! ## The three aggregations

`getBalance` issues its aggregations together and they run independently.
Each callback stores a sum in `income`, `payments` or `taxincome`, and the one
that stores the last of the three passes the balance on.  When an aggregation
fails its variable stays `null`, so the balance is never passed on. -/

inductive Aggregation where
  | income
  | payments
  | taxincome
deriving DecidableEq, Repr

/-- What an aggregation yields on a ledger. -/
def Aggregation.run (L : Ledger) (id : ObjectId) : Aggregation → ℚ
  | .income => L.income id
  | .payments => L.payments id
  | .taxincome => L.taxincome id

/-- The component that `getBalance` names in an error. -/
def Aggregation.component : Aggregation → String
  | .income => "trdb.getBalance (1)"
  | .payments => "trdb.getBalance (2)"
  | .taxincome => "trdb.getBalance (3)"

/-- The calls of one `getBalance`.  A reply is a sum, or `none` for an error. -/
structure Aggregations where
  income : Phase (Option ℚ)
  payments : Phase (Option ℚ)
  taxincome : Phase (Option ℚ)
deriving DecidableEq, Repr

namespace Aggregations

def start : Aggregations := ⟨.sent, .sent, .sent⟩

def get (s : Aggregations) : Aggregation → Phase (Option ℚ)
  | .income => s.income
  | .payments => s.payments
  | .taxincome => s.taxincome

def set (s : Aggregations) (p : Phase (Option ℚ)) : Aggregation → Aggregations
  | .income => { s with income := p }
  | .payments => { s with payments := p }
  | .taxincome => { s with taxincome := p }

/-- `aggregationComplete`: the balance, once no variable is `null`. -/
def aggregationComplete (s : Aggregations) : Option ℚ :=
  match s.income, s.payments, s.taxincome with
  | .done (some income), .done (some payments), .done (some taxincome) =>
      some (income + taxincome - payments)
  | _, _, _ => none

/-- No aggregation has failed. -/
def sound (s : Aggregations) : Bool :=
  !s.income.failed && !s.payments.failed && !s.taxincome.failed

/-- The balance can still be passed on. -/
def live (s : Aggregations) : Bool := s.sound && s.aggregationComplete.isNone

@[simp] theorem live_start : start.live = true := rfl

theorem live_eq_true {s : Aggregations} :
    s.live = true ↔ s.sound = true ∧ s.aggregationComplete = none := by
  simp [live]

/-- The balance is not passed on while an aggregation is under way. -/
theorem aggregationComplete_eq_none {s : Aggregations} {a : Aggregation}
    (h : (s.get a).open? = true) : s.aggregationComplete = none := by
  rw [aggregationComplete]
  split
  next hi hp ht => cases a <;> simp [get, hi, hp, ht] at h
  next => rfl

theorem get_set (s : Aggregations) (p : Phase (Option ℚ)) (a : Aggregation) :
    (s.set p a).get a = p := by
  cases a <;> rfl

/-- A chain of aggregations that lives after a reply lived before it. -/
theorem live_of_live_replied {s : Aggregations} {a : Aggregation} {r : Option ℚ}
    (h : s.get a = .sent) (live : (s.set (.replied r) a).live = true) : s.live = true := by
  have hnone : s.aggregationComplete = none := aggregationComplete_eq_none (a := a) (by simp [h])
  refine live_eq_true.mpr ⟨?_, hnone⟩
  have hs := (live_eq_true.mp live).1
  cases a <;> simp only [get] at h <;> simp_all [sound, set]

/-- Running a callback on a sum does not change whether an aggregation
failed. -/
theorem sound_done {s : Aggregations} {a : Aggregation} {r : Option ℚ}
    (h : s.get a = .replied r) : (s.set (.done r) a).sound = s.sound := by
  cases a <;> simp only [get] at h <;> simp [sound, set, h]

theorem sound_of_aggregationComplete {s : Aggregations} {b : ℚ}
    (h : s.aggregationComplete = some b) : s.sound = true := by
  rw [aggregationComplete] at h
  split at h
  next hi hp ht => simp [sound, hi, hp, ht]
  next => cases h

/-- The call that stores the last sum lived until then. -/
theorem live_of_complete {s : Aggregations} {a : Aggregation} {r : Option ℚ} {b : ℚ}
    (h : s.get a = .replied r) (hb : (s.set (.done r) a).aggregationComplete = some b) :
    s.live = true :=
  live_eq_true.mpr ⟨sound_done h ▸ sound_of_aggregationComplete hb,
    aggregationComplete_eq_none (a := a) (by simp [h])⟩

/-- A call that lives after a callback on a sum lived before it. -/
theorem live_of_live_done {s : Aggregations} {a : Aggregation} {r : Option ℚ}
    (h : s.get a = .replied r) (live : (s.set (.done r) a).live = true) : s.live = true :=
  live_eq_true.mpr ⟨sound_done h ▸ (live_eq_true.mp live).1,
    aggregationComplete_eq_none (a := a) (by simp [h])⟩

/-- What an aggregation still to come reads does not matter for the balance:
the sums read so far bound the balance on `L` from below. -/
structure Bounds (s : Aggregations) (L : Ledger) (id : ObjectId) : Prop where
  income : ∀ v, s.income.outcome = some (some v) → v ≤ L.income id
  payments : ∀ v, s.payments.outcome = some (some v) → L.payments id ≤ v
  taxincome : ∀ v, s.taxincome.outcome = some (some v) → v ≤ L.taxincome id

theorem bounds_start (L : Ledger) (id : ObjectId) : start.Bounds L id := by
  constructor <;> simp [start]

variable {s : Aggregations} {L : Ledger} {id : ObjectId}

/-- The value passed on is at most the balance. -/
theorem Bounds.complete_le {b : ℚ} (h : s.Bounds L id) (hb : s.aggregationComplete = some b) :
    b ≤ L.balance id := by
  rw [aggregationComplete] at hb
  split at hb
  next i p t hi hp ht =>
    cases hb
    have h1 := h.income i (by simp [hi])
    have h2 := h.payments p (by simp [hp])
    have h3 := h.taxincome t (by simp [ht])
    rw [Ledger.balance]
    linarith
  next => cases hb

/-- Entries of other senders keep the bounds. -/
theorem Bounds.concat {e : Booking} (h : s.Bounds L id) (hc : Ledger.Credits e)
    (ne : e.sender.reference ≠ some id) : s.Bounds (L ++ [e]) id where
  income v hv := (h.income v hv).trans (Ledger.income_le_concat hc)
  payments v hv := (Ledger.payments_concat_of_ne ne).trans_le (h.payments v hv)
  taxincome v hv := (h.taxincome v hv).trans (Ledger.taxincome_le_concat hc)

/-- An aggregation that runs now keeps the bounds, and so does one that fails. -/
theorem Bounds.execute (h : s.Bounds L id) (a : Aggregation) (ok : Bool) :
    (s.set (.replied (if ok then some (a.run L id) else none)) a).Bounds L id := by
  cases a <;> cases ok <;> constructor <;> intro v hv <;>
    first
    | exact h.income v hv
    | exact h.payments v hv
    | exact h.taxincome v hv
    | (simp [set, Aggregation.run] at hv; exact hv ▸ le_refl _)
    | simp [set] at hv

/-- Running a callback keeps the bounds. -/
theorem Bounds.deliver (h : s.Bounds L id) {a : Aggregation} {r : Option ℚ}
    (hr : s.get a = .replied r) : (s.set (.done r) a).Bounds L id := by
  cases a <;> simp only [get] at hr
  · exact ⟨fun v hv => h.income v (by rw [hr]; exact hv), h.payments, h.taxincome⟩
  · exact ⟨h.income, fun v hv => h.payments v (by rw [hr]; exact hv), h.taxincome⟩
  · exact ⟨h.income, h.payments, fun v hv => h.taxincome v (by rw [hr]; exact hv)⟩

end Aggregations

end SchuleAlsStaat
