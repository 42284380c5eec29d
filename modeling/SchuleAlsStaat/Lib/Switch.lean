import Mathlib.Data.Rat.Floor
import Mathlib.MeasureTheory.Measure.Lebesgue.Basic
import Mathlib.MeasureTheory.Measure.Real

/-!
# A switch over time

A switch is turned on and off at times that are listed in order.  `stateAt` is its
state after the last event up to a time, and `duration` sums up how long it is on in
an interval, event by event.  `volume_on` says that this sum is the measure of the
times at which the switch is on.
-/

namespace Switch

open MeasureTheory

/-! ## The state -/

section State

variable {T : Type*} [LinearOrder T]

/-- The state at `t`, from the state `b` before all events. -/
def stateAt (b : Bool) : List (T × Bool) → T → Bool
  | [], _ => b
  | (s, b') :: l, t => if s ≤ t then stateAt b' l t else b

/-- The event is the last one up to `t`. -/
def Last (l : List (T × Bool)) (t : T) (e : T × Bool) : Prop :=
  e ∈ l ∧ e.1 ≤ t ∧ ∀ e' ∈ l, e'.1 ≤ t → e'.1 ≤ e.1

/-- The events are in the order of their times, and no two are at one time. -/
def Ordered (l : List (T × Bool)) : Prop := l.Pairwise fun e e' => e.1 < e'.1

variable {b : Bool} {l l' : List (T × Bool)} {t : T}

/-- Events that are all past. -/
theorem stateAt_append (h : ∀ e ∈ l, e.1 ≤ t) :
    stateAt b (l ++ l') t = stateAt (stateAt b l t) l' t := by
  induction l generalizing b with
  | nil => rfl
  | cons e l ih =>
      obtain ⟨he, hl⟩ := List.forall_mem_cons.mp h
      rw [List.cons_append, stateAt, stateAt, if_pos he, if_pos he, ih hl]

theorem stateAt_concat {e : T × Bool} (h : ∀ e' ∈ l, e'.1 ≤ t) (he : e.1 ≤ t) :
    stateAt b (l ++ [e]) t = e.2 := by
  rw [stateAt_append h, stateAt, if_pos he, stateAt]

/-- After all events the state does not change. -/
theorem stateAt_eq_of_past {t' : T} (h : ∀ e ∈ l, e.1 ≤ t) (h' : ∀ e ∈ l, e.1 ≤ t') :
    stateAt b l t = stateAt b l t' := by
  induction l generalizing b with
  | nil => rfl
  | cons e l ih =>
      obtain ⟨he, hl⟩ := List.forall_mem_cons.mp h
      obtain ⟨he', hl'⟩ := List.forall_mem_cons.mp h'
      rw [stateAt, stateAt, if_pos he, if_pos he', ih hl hl']

/-- A change of the scale of time. -/
theorem stateAt_map {T' : Type*} [LinearOrder T'] {f : T → T'} (hle : ∀ x y, f x ≤ f y ↔ x ≤ y)
    (b : Bool) (l : List (T × Bool)) (t : T) :
    stateAt b (l.map fun e => (f e.1, e.2)) (f t) = stateAt b l t := by
  induction l generalizing b with
  | nil => rfl
  | cons e l ih => simp only [List.map_cons, stateAt, hle, ih]

/-- The switch is on when the last event has turned it on, or when it was on before
all events and none has happened. -/
theorem stateAt_iff (h : Ordered l) :
    stateAt b l t = true ↔
      (∃ e, Last l t e ∧ e.2 = true) ∨ (∀ e ∈ l, t < e.1) ∧ b = true := by
  induction l generalizing b with
  | nil => simp [stateAt, Last]
  | cons e l ih =>
      obtain ⟨hfirst, hl⟩ := List.pairwise_cons.mp h
      rw [stateAt]
      split
      next hle =>
        rw [ih hl]
        constructor
        · rintro (⟨e', ⟨hmem, hle', hlast⟩, hon⟩ | ⟨hfuture, hon⟩)
          · refine .inl ⟨e', ⟨List.mem_cons_of_mem _ hmem, hle', ?_⟩, hon⟩
            exact List.forall_mem_cons.mpr ⟨fun _ => (hfirst e' hmem).le, hlast⟩
          · refine .inl ⟨e, ⟨List.mem_cons_self .., hle, ?_⟩, hon⟩
            exact List.forall_mem_cons.mpr ⟨fun _ => le_rfl, fun e' he' hle' =>
              absurd hle' (hfuture e' he').not_ge⟩
        · rintro (⟨e', ⟨hmem, hle', hlast⟩, hon⟩ | ⟨hfuture, -⟩)
          · rcases List.mem_cons.mp hmem with rfl | hmem
            · refine .inr ⟨fun e'' he'' => not_le.mp fun hle'' => ?_, hon⟩
              exact (hlast e'' (List.mem_cons_of_mem _ he'') hle'').not_gt (hfirst e'' he'')
            · exact .inl ⟨e', ⟨hmem, hle', (List.forall_mem_cons.mp hlast).2⟩, hon⟩
          · exact absurd hle (hfuture e (List.mem_cons_self ..)).not_ge
      next hlt =>
        have hfuture : ∀ e' ∈ e :: l, t < e'.1 := by
          have he : t < e.1 := not_le.mp hlt
          exact List.forall_mem_cons.mpr ⟨he, fun e' he' => he.trans (hfirst e' he')⟩
        constructor
        · exact fun hon => .inr ⟨hfuture, hon⟩
        · rintro (⟨e', ⟨hmem, hle', -⟩, -⟩ | ⟨-, hon⟩)
          · exact absurd hle' (hfuture e' hmem).not_ge
          · exact hon

end State

/-! ## The duration -/

section Duration

variable {K : Type*} [LinearOrder K] [AddCommGroup K]

/-- How long the switch is on from `x` to `y`, from the state `b` at `x`.  The first
event after `y` ends it. -/
def duration (b : Bool) (x y : K) : List (K × Bool) → K
  | [] => if b then y - x else 0
  | (s, b') :: l => if y < s then if b then y - x else 0
      else (if b then s - x else 0) + duration b' s y l

/-- A change of the scale of time. -/
theorem duration_map {K' : Type*} [LinearOrder K'] [AddCommGroup K'] {f : K → K'} {g : K →+ K'}
    (hlt : ∀ x y, f x < f y ↔ x < y) (hsub : ∀ x y, f x - f y = g (x - y)) (b : Bool) (x y : K)
    (l : List (K × Bool)) :
    duration b (f x) (f y) (l.map fun e => (f e.1, e.2)) = g (duration b x y l) := by
  induction l generalizing b x with
  | nil => cases b <;> simp [duration, hsub]
  | cons e l ih =>
      simp only [List.map_cons, duration, hlt, ih]
      split <;> cases b <;> simp [hsub]

end Duration

/-! ## The measure -/

section Measure

variable {b : Bool} {x y : ℝ} {l : List (ℝ × Bool)}

/-- The times from `x` to `y` at which the switch is on. -/
def On (b : Bool) (x y : ℝ) (l : List (ℝ × Bool)) : Set ℝ :=
  { t | x ≤ t ∧ t ≤ y ∧ stateAt b l t = true }

/-- The times from `x` on and before `s`, if the switch is on. -/
def before (b : Bool) (x s : ℝ) : Set ℝ := if b then Set.Ico x s else ∅

theorem mem_before {s t : ℝ} : t ∈ before b x s ↔ x ≤ t ∧ t < s ∧ b = true := by
  cases b with
  | false => simp [before]
  | true => simp [before]

theorem measurableSet_before (b : Bool) (x s : ℝ) : MeasurableSet (before b x s) := by
  cases b with
  | false => exact MeasurableSet.empty
  | true => exact measurableSet_Ico

theorem volume_before {s : ℝ} (hxs : x ≤ s) :
    volume.real (before b x s) = if b then s - x else 0 := by
  cases b with
  | false => exact measureReal_empty
  | true => exact Real.volume_real_Ico_of_le hxs

theorem volume_ne_top {u : Set ℝ} (hu : u ⊆ Set.Icc x y) : volume u ≠ ⊤ :=
  ((measure_mono hu).trans_lt measure_Icc_lt_top).ne

/-- No event happens up to `y`. -/
theorem volume_on_of_future (h : ∀ e ∈ l, y < e.1) (hxy : x ≤ y) :
    volume.real (On b x y l) = if b then y - x else 0 := by
  have hstate : ∀ t, t ≤ y → stateAt b l t = b := by
    intro t ht
    cases l with
    | nil => rfl
    | cons e l => exact if_neg (ht.trans_lt (h e (List.mem_cons_self ..))).not_ge
  cases b with
  | false =>
      have hempty : On false x y l = ∅ := by
        refine Set.eq_empty_iff_forall_notMem.mpr fun t ht => ?_
        have hon := ht.2.2
        rw [hstate t ht.2.1] at hon
        cases hon
      rw [hempty, measureReal_empty]
      rfl
  | true =>
      have hall : On true x y l = Set.Icc x y := by
        ext t
        exact ⟨fun ht => ⟨ht.1, ht.2.1⟩, fun ht => ⟨ht.1, ht.2, hstate t ht.2⟩⟩
      rw [hall, Real.volume_real_Icc_of_le hxy]
      rfl

/-- Before the first event the state is `b`, and from then on the rest decides. -/
theorem on_cons {s : ℝ} {b' : Bool} (hxs : x ≤ s) (hsy : s ≤ y) :
    On b x y ((s, b') :: l) = before b x s ∪ On b' s y l := by
  ext t
  simp only [Set.mem_union, mem_before]
  show x ≤ t ∧ t ≤ y ∧ stateAt b ((s, b') :: l) t = true ↔
    _ ∨ s ≤ t ∧ t ≤ y ∧ stateAt b' l t = true
  rw [stateAt]
  split
  next hst =>
    constructor
    · rintro ⟨-, hty, hon⟩
      exact .inr ⟨hst, hty, hon⟩
    · rintro (⟨-, hts, -⟩ | ⟨-, hty, hon⟩)
      · exact absurd hst hts.not_ge
      · exact ⟨hxs.trans hst, hty, hon⟩
  next hst =>
    have hts : t < s := not_le.mp hst
    constructor
    · rintro ⟨hxt, -, hon⟩
      exact .inl ⟨hxt, hts, hon⟩
    · rintro (⟨hxt, -, hon⟩ | ⟨hst', -⟩)
      · exact ⟨hxt, hts.le.trans hsy, hon⟩
      · exact absurd hst' hst

/-- The duration is the measure of the times at which the switch is on. -/
theorem volume_on (hl : Ordered l) (hx : ∀ e ∈ l, x ≤ e.1) (hxy : x ≤ y) :
    volume.real (On b x y l) = duration b x y l := by
  induction l generalizing b x with
  | nil => exact volume_on_of_future (fun e he => absurd he List.not_mem_nil) hxy
  | cons e l ih =>
      obtain ⟨s, b'⟩ := e
      obtain ⟨hfirst, hrest⟩ := List.pairwise_cons.mp hl
      have hxs : x ≤ s := hx (s, b') (List.mem_cons_self ..)
      rw [duration]
      split
      next hlt =>
        refine volume_on_of_future (List.forall_mem_cons.mpr ⟨hlt, fun e he => ?_⟩) hxy
        exact hlt.trans (hfirst e he)
      next hle =>
        have hsy : s ≤ y := not_lt.mp hle
        have hdisjoint : Disjoint (before b x s) (On b' s y l) :=
          Set.disjoint_left.mpr fun t ht ht' => (mem_before.mp ht).2.1.not_ge ht'.1
        have hbefore : before b x s ⊆ Set.Icc x y := fun t ht =>
          ⟨(mem_before.mp ht).1, (mem_before.mp ht).2.1.le.trans hsy⟩
        have hafter : On b' s y l ⊆ Set.Icc x y := fun t ht => ⟨hxs.trans ht.1, ht.2.1⟩
        rw [on_cons hxs hsy, measureReal_union' hdisjoint (measurableSet_before b x s)
          (volume_ne_top hbefore) (volume_ne_top hafter), volume_before hxs,
          ih hrest (fun e he => (hfirst e he).le) hsy]

end Measure

end Switch
