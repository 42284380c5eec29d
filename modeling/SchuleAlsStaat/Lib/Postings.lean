import Mathlib.Algebra.BigOperators.Group.Finset.Piecewise
import Mathlib.Algebra.BigOperators.Group.List.Basic

/-!
# Double entry

A ledger is a list of entries and every entry posts amounts to accounts.  The
balance of an account is the sum of what was posted to it.  The sum of all
balances is then the sum of what the entries leave unbalanced.
-/

namespace Postings

variable {ε α M : Type*} [DecidableEq α] [AddCommMonoid M]

/-- What a list of postings adds to an account. -/
def credit (ps : List (α × M)) (a : α) : M := ((ps.filter fun p => p.1 = a).map Prod.snd).sum

/-- The balance of an account in a ledger. -/
def balance (post : ε → List (α × M)) (ledger : List ε) (a : α) : M :=
  (ledger.map fun e => credit (post e) a).sum

/-- What the postings of an entry add up to. -/
def total (ps : List (α × M)) : M := (ps.map Prod.snd).sum

theorem credit_cons (p : α × M) (ps : List (α × M)) (a : α) :
    credit (p :: ps) a = (if p.1 = a then p.2 else 0) + credit ps a := by
  by_cases h : p.1 = a
  · simp [credit, h]
  · simp [credit, h]

@[simp] theorem credit_nil (a : α) : credit ([] : List (α × M)) a = 0 := rfl

theorem credit_append (ps qs : List (α × M)) (a : α) :
    credit (ps ++ qs) a = credit ps a + credit qs a := by
  simp [credit]

theorem balance_concat (post : ε → List (α × M)) (ledger : List ε) (e : ε) (a : α) :
    balance post (ledger ++ [e]) a = balance post ledger a + credit (post e) a := by
  simp [balance]

/-- A list of postings is distributed over any accounts that cover it. -/
theorem sum_credit (S : Finset α) {ps : List (α × M)} (h : ∀ p ∈ ps, p.1 ∈ S) :
    ∑ a ∈ S, credit ps a = total ps := by
  induction ps with
  | nil => simp [credit, total]
  | cons p ps ih =>
      have ih := ih fun q hq => h q (List.mem_cons_of_mem _ hq)
      have hp : p.1 ∈ S := h p (List.mem_cons_self ..)
      simp only [credit_cons, Finset.sum_add_distrib, ih]
      rw [Finset.sum_ite_eq S p.1 fun _ => p.2, if_pos hp]
      simp [total]

/-- The balances of a ledger add up to the totals of its entries. -/
theorem sum_balance (post : ε → List (α × M)) (S : Finset α) {ledger : List ε}
    (h : ∀ e ∈ ledger, ∀ p ∈ post e, p.1 ∈ S) :
    ∑ a ∈ S, balance post ledger a = (ledger.map fun e => total (post e)).sum := by
  induction ledger with
  | nil => simp [balance]
  | cons e es ih =>
      have ih := ih fun e' he' => h e' (List.mem_cons_of_mem _ he')
      have he : ∑ a ∈ S, credit (post e) a = total (post e) :=
        sum_credit S (h e (List.mem_cons_self ..))
      simp only [balance, List.map_cons, List.sum_cons, Finset.sum_add_distrib] at ih ⊢
      rw [he, ih]

end Postings
