import Mathlib.Algebra.BigOperators.Group.List.Basic
import Mathlib.Algebra.Order.Floor.Ring
import Mathlib.Algebra.Order.Field.Basic
import Mathlib.Tactic.Linarith

/-!
# Rounding to a grid

The grid of scale `s` consists of the multiples of `1 / s`.  Every number is
rounded up or down to the nearest grid point.  The two are adjoint: what is
rounded up stays below `y` exactly when it was below `y` rounded down.

Rounding up is sub-additive and errs by less than one unit, so the parts of a sum
that are rounded one by one exceed the sum by less than one unit each.
-/

namespace Grid

variable {K : Type*} [Field K] [LinearOrder K] [IsStrictOrderedRing K] [FloorRing K]

/-- The next grid point from `x` upwards. -/
def roundUp (s x : K) : K := ⌈x * s⌉ / s

/-- The next grid point from `x` downwards. -/
def roundDown (s x : K) : K := ⌊x * s⌋ / s

/-- `x` is a multiple of `1 / s`. -/
def OnGrid (s x : K) : Prop := ∃ n : ℤ, x * s = n

variable {s x y : K}

theorem roundUp_le_iff (hs : 0 < s) : roundUp s x ≤ y ↔ x ≤ roundDown s y := by
  rw [roundUp, roundDown, div_le_iff₀ hs, le_div_iff₀ hs]
  constructor
  · intro h
    have : ⌈x * s⌉ ≤ ⌊y * s⌋ := Int.le_floor.mpr h
    exact (Int.le_ceil _).trans (by exact_mod_cast this)
  · intro h
    have : ⌈x * s⌉ ≤ ⌊y * s⌋ := Int.ceil_le.mpr h
    exact le_trans (by exact_mod_cast this) (Int.floor_le (y * s))

/-- A point of the grid is rounded to itself. -/
theorem roundDown_of_onGrid (hs : 0 < s) (h : OnGrid s x) : roundDown s x = x := by
  obtain ⟨n, hn⟩ := h
  rw [roundDown, hn, Int.floor_intCast, ← hn, mul_div_assoc, div_self hs.ne', mul_one]

theorem le_roundUp (hs : 0 < s) (x : K) : x ≤ roundUp s x := by
  rw [roundUp, le_div_iff₀ hs]
  exact Int.le_ceil _

theorem roundUp_nonneg (hs : 0 < s) (hx : 0 ≤ x) : 0 ≤ roundUp s x :=
  hx.trans (le_roundUp hs x)

/-- What lies below a grid point is rounded up to something below it. -/
theorem OnGrid.roundUp_le_iff (hs : 0 < s) (h : OnGrid s y) : roundUp s x ≤ y ↔ x ≤ y := by
  rw [Grid.roundUp_le_iff hs, roundDown_of_onGrid hs h]

omit [IsStrictOrderedRing K] in
theorem onGrid_roundUp (hs : 0 < s) (x : K) : OnGrid s (roundUp s x) :=
  ⟨⌈x * s⌉, div_mul_cancel₀ _ hs.ne'⟩

theorem roundUp_lt (hs : 0 < s) (x : K) : roundUp s x < x + 1 / s := by
  rw [roundUp, div_lt_iff₀ hs, add_mul, div_mul_cancel₀ _ hs.ne']
  exact Int.ceil_lt_add_one (x * s)

omit [LinearOrder K] [IsStrictOrderedRing K] [FloorRing K] in
theorem OnGrid.sub (hx : OnGrid s x) (hy : OnGrid s y) : OnGrid s (x - y) := by
  obtain ⟨m, hm⟩ := hx
  obtain ⟨n, hn⟩ := hy
  exact ⟨m - n, by rw [sub_mul, hm, hn, Int.cast_sub]⟩

omit [LinearOrder K] [IsStrictOrderedRing K] [FloorRing K] in
/-- A grid point stays one when the grid is refined. -/
theorem OnGrid.mul (h : OnGrid s x) (k : ℕ) : OnGrid (s * k) x := by
  obtain ⟨n, hn⟩ := h
  exact ⟨n * k, by rw [← mul_assoc, hn, Int.cast_mul, Int.cast_natCast]⟩

/-! ## Sums -/

theorem roundUp_zero (s : K) : roundUp s 0 = 0 := by
  rw [roundUp, zero_mul, Int.ceil_zero, Int.cast_zero, zero_div]

theorem roundUp_add_le (hs : 0 < s) (x y : K) : roundUp s (x + y) ≤ roundUp s x + roundUp s y := by
  rw [roundUp, roundUp, roundUp, ← add_div, div_le_div_iff_of_pos_right hs, add_mul]
  exact_mod_cast Int.ceil_add_le (x * s) (y * s)

theorem roundUp_sum_le (hs : 0 < s) (l : List K) :
    roundUp s l.sum ≤ (l.map (roundUp s)).sum := by
  induction l with
  | nil => exact (roundUp_zero s).le
  | cons x l ih =>
      rw [List.sum_cons, List.map_cons, List.sum_cons]
      exact (roundUp_add_le hs x l.sum).trans (add_le_add_right ih (roundUp s x))

theorem sum_roundUp_lt (hs : 0 < s) {l : List K} (h : l ≠ []) :
    (l.map (roundUp s)).sum < l.sum + l.length * (1 / s) := by
  induction l with
  | nil => exact absurd rfl h
  | cons x l ih =>
      have one := roundUp_lt hs x
      rw [List.map_cons, List.sum_cons, List.sum_cons, List.length_cons, Nat.cast_succ, add_mul,
        one_mul]
      cases l with
      | nil => simpa using one
      | cons y l =>
          have rest := ih (List.cons_ne_nil y l)
          linarith

end Grid
