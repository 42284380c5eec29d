import SchuleAlsStaat.Ledger.WellFormed
import SchuleAlsStaat.Lib.Postings

/-!
# Conservation of money

`getBalance` sums a ledger three times.  Read as double entry, an entry credits
the recipient and the tax account and debits the sender, as far as they are
accounts.  The amounts of an entry balance, so what the accounts have in total
is what was spawned less what was destroyed.
-/

namespace SchuleAlsStaat

open Js (Decimal)

namespace Ledger

/-- The postings of an entry. -/
def post (e : Booking) : List (ObjectId × ℚ) :=
  e.recipient.reference.toList.map (·, e.amount_received) ++ [(e.tax_recipient, e.amount_tax)] ++
    e.sender.reference.toList.map (·, -e.amount_sent)

/-- The accounts that occur in a ledger. -/
def accounts (L : Ledger) : Finset ObjectId :=
  (L.flatMap fun e => (post e).map Prod.fst).toFinset

/-- What was sent without a sender account. -/
def spawned (L : Ledger) : ℚ :=
  ((L.filter fun e => e.sender.reference = none).map Entry.amount_sent).sum

/-- What was received without a recipient account. -/
def destroyed (L : Ledger) : ℚ :=
  ((L.filter fun e => e.recipient.reference = none).map Entry.amount_received).sum

/-- The accounts of an entry are its sender, recipient and tax recipient. -/
theorem mem_accounts {L : Ledger} {id : ObjectId} : id ∈ accounts L ↔ ∃ e ∈ L,
    e.sender.reference = some id ∨ e.recipient.reference = some id ∨ e.tax_recipient = id := by
  simp only [accounts, post, List.mem_toFinset, List.mem_flatMap, List.map_append, List.map_map,
    List.mem_append, List.mem_map, Option.mem_toList, Function.comp_apply, exists_eq_right,
    List.map_cons, List.map_nil, List.mem_singleton]
  refine exists_congr fun e => and_congr_right fun _ => ?_
  rw [eq_comm (a := id)]
  tauto

theorem credit_post (e : Booking) (id : ObjectId) : Postings.credit (post e) id =
    (if e.recipient.reference = some id then e.amount_received else 0) +
      (if e.tax_recipient = id then e.amount_tax else 0) -
      if e.sender.reference = some id then e.amount_sent else 0 := by
  rw [post, Postings.credit_append, Postings.credit_append]
  cases e.recipient.reference <;> cases e.sender.reference <;>
    simp [Postings.credit_cons, sub_eq_add_neg] <;> split_ifs <;> simp

/-- `getBalance` is the balance of the postings. -/
theorem balance_eq_postings (L : Ledger) (id : ObjectId) :
    L.balance id = Postings.balance post L id := by
  induction L using List.reverseRecOn with
  | nil => simp [balance, income, taxincome, payments, Postings.balance]
  | append_singleton L e ih =>
      rw [Postings.balance_concat, ← ih, credit_post, balance, balance, income_concat,
        taxincome_concat, payments_concat]
      ring

/-- What a balanced entry adds to all accounts together. -/
theorem total_post {e : Booking} (h : e.amount_sent = e.amount_received + e.amount_tax) :
    Postings.total (post e) = (if e.sender.reference = none then e.amount_sent else 0) -
      if e.recipient.reference = none then e.amount_received else 0 := by
  cases hr : e.recipient.reference <;> cases hs : e.sender.reference <;>
    simp [Postings.total, post, hr, hs] <;> linarith

/-- In a ledger of balanced entries the balances add up to the money spawned
less the money destroyed. -/
theorem sum_balance {L : Ledger}
    (h : ∀ e ∈ L, e.amount_sent = e.amount_received + e.amount_tax) :
    ∑ id ∈ accounts L, L.balance id = spawned L - destroyed L := by
  have cover : ∀ e ∈ L, ∀ p ∈ post e, p.1 ∈ accounts L := fun e he p hp =>
    List.mem_toFinset.mpr (List.mem_flatMap.mpr ⟨e, he, List.mem_map_of_mem hp⟩)
  calc ∑ id ∈ accounts L, L.balance id
      = ∑ id ∈ accounts L, Postings.balance post L id := by simp only [balance_eq_postings]
    _ = (L.map fun e => Postings.total (post e)).sum := Postings.sum_balance post _ cover
    _ = spawned L - destroyed L := ?_
  induction L with
  | nil => simp [spawned, destroyed]
  | cons e L ih =>
      have ih := ih (fun e' he' => h e' (List.mem_cons_of_mem _ he')) fun e' he' p hp =>
        List.mem_toFinset.mpr (List.mem_flatMap.mpr ⟨e', he', List.mem_map_of_mem hp⟩)
      rw [List.map_cons, List.sum_cons, ih, total_post (h e (List.mem_cons_self ..))]
      by_cases hs : e.sender.reference = none <;> by_cases hr : e.recipient.reference = none <;>
        simp [spawned, destroyed, hs, hr] <;> ring

end Ledger

/-! ## Ledgers that bookings lead to -/

/-- A ledger that arises from bookings and deletions. -/
inductive Booked (E : Ext) : Ledger → Prop where
  | empty : Booked E []
  | book {L : Ledger} {cfg : Config} {a : MoneyAction} {payload : Js.JsVal} {e : Draft}
      {b : Booking} : Booked E L → Books E cfg a payload e → e.cast = some b → Booked E (L ++ [b])
  | delete {L : Ledger} (n : ℕ) : Booked E L → Booked E (L.eraseIdx n)

/-- The amounts of a saved entry balance. -/
theorem Books.balanced {E : Ext} {cfg : Config} {a : MoneyAction} {payload : Js.JsVal} {e : Draft}
    {b : Booking} (h : Books E cfg a payload e) (hb : e.cast = some b) :
    b.amount_sent = b.amount_received + b.amount_tax := by
  obtain ⟨q, given, percent, -, -, hef⟩ := entryFor_of_books h
  obtain ⟨-, -, -, hs, hr, ht⟩ := Entry.cast_eq_some hb
  exact given.amounts_balance (hef.amount_sent ▸ hs) (hef.amount_received ▸ hr)
    (hef.amount_tax ▸ ht)

theorem Booked.balanced {E : Ext} {L : Ledger} (h : Booked E L) :
    ∀ e ∈ L, e.amount_sent = e.amount_received + e.amount_tax := by
  induction h with
  | empty => simp
  | book _ hbooks hcast ih => exact Calls.forall_mem_concat ih (hbooks.balanced hcast)
  | delete n _ ih => exact fun e he => ih e (List.mem_of_mem_eraseIdx he)

/-- The balances of all accounts add up to the money spawned less the money
destroyed. -/
theorem money_conserved {E : Ext} {L : Ledger} (h : Booked E L) :
    ∑ id ∈ L.accounts, L.balance id = L.spawned - L.destroyed :=
  Ledger.sum_balance h.balanced

/-- A forced transaction of 10. -/
theorem money_conserved_forced :
    ∃ L, Booked Ext.simple L ∧ L ≠ [] ∧
      ∑ id ∈ L.accounts, L.balance id = L.spawned - L.destroyed := by
  have hpos : 0 < Decimal.value ⟨10, 0⟩ := by norm_num [Decimal.value]
  obtain ⟨e, he, b, hb⟩ := exists_books_forced hpos
  have hL := Booked.book .empty he hb
  exact ⟨_, hL, by simp, money_conserved hL⟩

end SchuleAlsStaat
