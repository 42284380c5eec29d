import Mathlib.Order.Notation

/-!
# Runs of an event system

An event system is a partial step function `σ → ε → Option σ`: an event is
either not enabled in a state or leads to one next state.  All nondeterminism
is in the choice of the event.

`Run step ok s t` is a run from `s` to `t` in which every event met `ok` in
the state it was taken in.  A property that needs a condition on the steps is
stated over such runs.  With `ok` always true they are all the runs.

Two rules carry the proofs over runs: `Run.invariant`, for a predicate that
every step preserves, and `Run.simulate`, for a second system that follows the
first one step by step.  Where a property speaks of the steps that a run has
taken, `recorded` keeps them.
-/

namespace Runs

variable {σ τ ε δ : Type*}

/-- A run whose events all meet `ok` in the state they are taken in. -/
inductive Run (step : σ → ε → Option σ) (ok : σ → ε → Prop) (s : σ) : σ → Prop where
  | refl : Run step ok s s
  | tail {t u : σ} {e : ε} : Run step ok s t → ok t e → step t e = some u → Run step ok s u

/-- A run with no condition on its events. -/
abbrev AnyRun (step : σ → ε → Option σ) : σ → σ → Prop := Run step fun _ _ => True

namespace Run

variable {step : σ → ε → Option σ} {ok ok' : σ → ε → Prop} {s t u : σ}

/-- A weaker condition allows more runs. -/
theorem mono (h : ∀ t e, ok t e → ok' t e) (r : Run step ok s t) : Run step ok' s t := by
  induction r with
  | refl => exact .refl
  | tail _ hok hstep ih => exact .tail ih (h _ _ hok) hstep

theorem trans (r : Run step ok s t) (r' : Run step ok t u) : Run step ok s u := by
  induction r' with
  | refl => exact r
  | tail _ hok hstep ih => exact .tail ih hok hstep

/-- A predicate that holds at the start and that every step under `ok`
preserves holds at the end of every run under `ok`. -/
theorem invariant {I : σ → Prop} (r : Run step ok s t) (start : I s)
    (next : ∀ t e u, I t → ok t e → step t e = some u → I u) : I t := by
  induction r with
  | refl => exact start
  | tail _ hok hstep ih => exact next _ _ _ ih hok hstep

/-- A second system follows the first one: every step under `ok` from related
states is matched by a run of the second system under `ok₂`. -/
theorem simulate {step₂ : τ → δ → Option τ} {ok₂ : τ → δ → Prop} {R : σ → τ → Prop} {a : τ}
    (r : Run step ok s t) (start : R s a)
    (next : ∀ t e u b, R t b → ok t e → step t e = some u →
      ∃ c, Run step₂ ok₂ b c ∧ R u c) :
    ∃ b, Run step₂ ok₂ a b ∧ R t b := by
  induction r with
  | refl => exact ⟨a, .refl, start⟩
  | tail _ hok hstep ih =>
      obtain ⟨b, run, rel⟩ := ih
      obtain ⟨c, run', rel'⟩ := next _ _ _ _ rel hok hstep
      exact ⟨c, run.trans run', rel'⟩

end Run

/-! ## The past of a run -/

section Recorded

variable (step : σ → ε → Option σ)

/-- The system with the steps that it has taken, the latest first: each as the
state it was taken in and its event. -/
def recorded (p : σ × List (σ × ε)) (e : ε) : Option (σ × List (σ × ε)) :=
  (step p.1 e).map fun t => (t, (p.1, e) :: p.2)

variable {step} {ok : σ → ε → Prop} {s t : σ}

/-- Every run is the run of a recorded one. -/
theorem Run.exists_recorded (r : Run step ok s t) :
    ∃ past, Run (recorded step) (fun p e => ok p.1 e) (s, []) (t, past) := by
  induction r with
  | refl => exact ⟨[], .refl⟩
  | tail _ hok hstep ih =>
      obtain ⟨past, run⟩ := ih
      exact ⟨_, .tail run hok (by rw [recorded, hstep]; rfl)⟩

/-- A predicate on states and pasts that every step preserves. -/
theorem Run.invariant_recorded {past : List (σ × ε)} {I : σ → List (σ × ε) → Prop}
    (r : Run (recorded step) (fun p e => ok p.1 e) (s, []) (t, past)) (start : I s [])
    (next : ∀ t e u past, I t past → ok t e → step t e = some u → I u ((t, e) :: past)) :
    I t past := by
  refine r.invariant (I := fun p => I p.1 p.2) start fun p e q hI hok hstep => ?_
  obtain ⟨u, hu, rfl⟩ := Option.map_eq_some_iff.mp hstep
  exact next _ _ _ _ hI hok hu

/-- Without its past a recorded run is a run. -/
theorem Run.forget {past : List (σ × ε)}
    (r : Run (recorded step) (fun p e => ok p.1 e) (s, []) (t, past)) : Run step ok s t :=
  r.invariant_recorded (I := fun u _ => Run step ok s u) .refl
    fun _ _ _ _ run hok hstep => run.tail hok hstep

end Recorded

/-! ## Running a list of events -/

section Exec

variable (step : σ → ε → Option σ) (ok : σ → ε → Prop) [∀ s e, Decidable (ok s e)]

/-- The state after a list of events, if each of them in turn is enabled and
meets `ok`. -/
def exec (s : σ) : List ε → Option σ
  | [] => some s
  | e :: es => if ok s e then (step s e).bind fun t => exec t es else none

variable {step ok}

theorem exec_run {es : List ε} {s t : σ} (h : exec step ok s es = some t) : Run step ok s t := by
  induction es generalizing s with
  | nil =>
      cases h
      exact .refl
  | cons e es ih =>
      simp only [exec] at h
      split at h
      next hok =>
        obtain ⟨u, hu, hrest⟩ := Option.bind_eq_some_iff.mp h
        exact (Run.tail .refl hok hu).trans (ih hrest)
      next => cases h

/-- What an observation of the last state says about a run. -/
theorem exists_run_of_exec {s : σ} {f : σ → τ} {v : τ} (es : List ε)
    (h : (exec step ok s es).map f = some v) : ∃ t, Run step ok s t ∧ f t = v := by
  obtain ⟨t, ht, hv⟩ := Option.map_eq_some_iff.mp h
  exact ⟨t, exec_run ht, hv⟩

/-- The same with a condition on the events that need not be decidable. -/
theorem exists_run_of_exec_forall {P : ε → Prop} {f : σ → τ} {v : τ} {es : List ε} {s : σ}
    (hP : ∀ e ∈ es, P e) (h : (exec step ok s es).map f = some v) :
    ∃ t, Run step (fun s e => P e ∧ ok s e) s t ∧ f t = v := by
  induction es generalizing s with
  | nil => exact ⟨s, .refl, Option.some.inj h⟩
  | cons e es ih =>
      simp only [exec] at h
      split at h
      next hok =>
        obtain ⟨t, ht, hv⟩ := Option.map_eq_some_iff.mp h
        obtain ⟨u, hu, hrest⟩ := Option.bind_eq_some_iff.mp ht
        obtain ⟨t', r, hv'⟩ := ih (fun e he => hP e (List.mem_cons_of_mem _ he))
          (Option.map_eq_some_iff.mpr ⟨t, hrest, hv⟩)
        exact ⟨t', (Run.tail .refl ⟨hP e (List.mem_cons_self ..), hok⟩ hu).trans r, hv'⟩
      next => cases h

end Exec

end Runs
