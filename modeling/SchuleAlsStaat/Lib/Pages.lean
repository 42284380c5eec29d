import Mathlib.Algebra.Order.Floor.Div
import Mathlib.Data.List.Basic

/-!
# Pages of a list

Page `p` of a list, with room for `k` elements on every page.  The pages one after the
other give back the list (`flatMap_page`).  The last one is page `length / k`, or the
one before it when the length is a multiple of `k`.
-/

namespace Pages

variable {α : Type*} {k : ℕ}

def page (k : ℕ) (l : List α) (p : ℕ) : List α := (l.drop (k * p)).take k

theorem flatMap_page_range (l : List α) (m : ℕ) :
    (List.range m).flatMap (page k l) = l.take (k * m) := by
  induction m with
  | zero => simp
  | succ m ih =>
      rw [List.range_succ, List.flatMap_append, ih, List.flatMap_singleton, Nat.mul_succ,
        List.take_add, page]

/-- The pages before the last one, and the last one. -/
theorem flatMap_page (hk : 0 < k) (l : List α) :
    (List.range (l.length / k)).flatMap (page k l) ++ page k l (l.length / k) = l := by
  have hlast : l.length ≤ k * (l.length / k + 1) := (Nat.lt_mul_div_succ l.length hk).le
  rw [← List.flatMap_singleton (page k l) (l.length / k), ← List.flatMap_append,
    ← List.range_succ, flatMap_page_range, List.take_of_length_le hlast]

theorem page_eq_nil_iff (hk : 0 < k) {l : List α} {p : ℕ} :
    page k l p = [] ↔ l.length ≤ k * p := by
  rw [page, List.take_eq_nil_iff, List.drop_eq_nil_iff]
  exact or_iff_right hk.ne'

/-- No page up to the last one is blank when there are elements left over. -/
theorem page_ne_nil (hk : 0 < k) {l : List α} (h : ¬k ∣ l.length) {p : ℕ}
    (hp : p ≤ l.length / k) : page k l p ≠ [] := by
  rw [Ne, page_eq_nil_iff hk]
  intro hle
  have hfull : l.length ≤ k * (l.length / k) := hle.trans (Nat.mul_le_mul_left k hp)
  exact h ⟨_, hfull.antisymm (Nat.mul_div_le l.length k)⟩

/-- One page more than are full is the right number of pages exactly when there are
elements left over. -/
theorem ceilDiv_eq_div_succ_iff (hk : 0 < k) (n : ℕ) : n ⌈/⌉ k = n / k + 1 ↔ ¬k ∣ n := by
  constructor
  · rintro h ⟨q, rfl⟩
    have hceil : k * q ⌈/⌉ k ≤ q := ceilDiv_le_iff_le_mul hk |>.mpr le_rfl
    rw [h, Nat.mul_div_cancel_left q hk] at hceil
    exact absurd hceil (Nat.not_succ_le_self q)
  · intro h
    refine le_antisymm ?_ ?_
    · exact (ceilDiv_le_iff_le_mul hk).mpr (Nat.lt_mul_div_succ n hk).le
    · by_contra hlt
      have hle : n ≤ k * (n / k) := (ceilDiv_le_iff_le_mul hk).mp (Nat.le_of_not_lt hlt)
      exact h ⟨_, hle.antisymm (Nat.mul_div_le n k)⟩

end Pages
