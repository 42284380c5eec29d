import Mathlib.Algebra.GroupWithZero.Nat
import SchuleAlsStaat.Lib.Calls
import SchuleAlsStaat.Lib.Runs

/-!
# Systems that work off what they have

A system drains if it can finish everything that is under way and if, when
nothing is, it can settle one more item.  `Run.exhaust` is the first half: some
step lowers a measure until it is zero.  `Run.drain` repeats both.

The measure of a system with asynchronous calls is a sum of `Phase.left` over
its lists of calls.
-/

namespace Calls

variable {ρ α : Type*}

/-- The steps a call has before it. -/
def Phase.left : Phase ρ → ℕ
  | .sent => 2
  | .replied _ => 1
  | .done _ => 0

@[simp] theorem Phase.left_sent : (Phase.sent : Phase ρ).left = 2 := rfl
@[simp] theorem Phase.left_replied (r : ρ) : (Phase.replied r).left = 1 := rfl
@[simp] theorem Phase.left_done (r : ρ) : (Phase.done r).left = 0 := rfl

theorem Phase.left_eq_zero {p : Phase ρ} : p.left = 0 ↔ p.open? = false := by
  cases p <;> simp

/-- Changing one element moves a sum by that element alone. -/
theorem sum_map_set (f : α → ℕ) {l : List α} {n : ℕ} {a : α} (h : l[n]? = some a) (b : α) :
    ((l.set n b).map f).sum + f a = (l.map f).sum + f b := by
  induction l generalizing n with
  | nil => cases h
  | cons c l ih =>
      cases n with
      | zero =>
          cases h
          simp only [List.set_cons_zero, List.map_cons, List.sum_cons]
          omega
      | succ n =>
          have := ih (n := n) h
          simp only [List.set_cons_succ, List.map_cons, List.sum_cons]
          omega

end Calls

namespace Runs.Run

variable {σ ε : Type*} {step : σ → ε → Option σ} {ok : σ → ε → Prop} {I : σ → Prop}
  {left items : σ → ℕ}

/-- A system that can always lower a measure can bring it to zero. -/
theorem exhaust
    (next : ∀ s, I s → left s ≠ 0 →
      ∃ e t, ok s e ∧ step s e = some t ∧ I t ∧ left t < left s ∧ items t ≤ items s)
    {s : σ} (h : I s) : ∃ t, Run step ok s t ∧ I t ∧ left t = 0 ∧ items t ≤ items s := by
  by_cases hz : left s = 0
  · exact ⟨s, .refl, h, hz, le_refl _⟩
  · obtain ⟨e, t, hok, hstep, ht, hlt, hle⟩ := next s h hz
    obtain ⟨u, run, hu, hzero, hle'⟩ := exhaust next ht
    exact ⟨u, (Run.tail .refl hok hstep).trans run, hu, hzero, hle'.trans hle⟩
termination_by left s

/-- If it can also settle an item when nothing is left to do, it can settle them all. -/
theorem drain
    (next : ∀ s, I s → left s ≠ 0 →
      ∃ e t, ok s e ∧ step s e = some t ∧ I t ∧ left t < left s ∧ items t ≤ items s)
    (settle : ∀ s, I s → left s = 0 → items s ≠ 0 →
      ∃ t, Run step ok s t ∧ I t ∧ items t < items s)
    {s : σ} (h : I s) : ∃ t, Run step ok s t ∧ I t ∧ left t = 0 ∧ items t = 0 := by
  obtain ⟨t, run, ht, hzero, hle⟩ := exhaust next h
  by_cases hz : items t = 0
  · exact ⟨t, run, ht, hzero, hz⟩
  · obtain ⟨u, run', hu, hlt⟩ := settle t ht hzero hz
    have : items u < items s := hlt.trans_le hle
    obtain ⟨v, run'', hv, hdone⟩ := drain next settle hu
    exact ⟨v, (run.trans run').trans run'', hv, hdone⟩
termination_by items s

end Runs.Run
