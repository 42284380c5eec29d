import Mathlib.Order.Defs.PartialOrder
import Mathlib.Order.Basic
import Mathlib.Data.Set.Insert
import SchuleAlsStaat.Lib.Runs

/-!
# An earliest-first lock

Parties take tickets that carry a stamp.  A ticket becomes *shown* some time
after it was stamped, so the order of showing need not be the order of the
stamps.  The lock *grants* a shown ticket when no shown ticket of the same
owner has an earlier stamp, and a ticket leaves the lock when it is *released*.

The lock excludes when no two shown and granted tickets have one owner.  It
does not exclude by itself: a ticket that is shown late with an early stamp is
granted beside the one that was granted before, and so is a ticket with an
equal stamp.  `Lock.Timely` names the steps that avoid both, and
`Lock.exclusive_of_run` says that they are enough.
-/

namespace TicketLock

open Runs

/-- Tickets of type `τ` with an owner and a stamp. -/
structure Tickets (τ : Type*) (π : Type*) (κ : Type*) where
  owner : τ → π
  stamp : τ → κ

/-- The state of the lock. -/
structure Lock (τ : Type*) where
  /-- The tickets that are shown and not released. -/
  shown : Set τ
  /-- The tickets that were granted at some time. -/
  granted : Set τ

inductive Event (τ : Type*) where
  | show (t : τ)
  | grant (t : τ)
  | release (t : τ)

namespace Lock

variable {τ π κ : Type*} [LinearOrder κ] (T : Tickets τ π κ)

/-- `t` is shown and no shown ticket of its owner has an earlier stamp. -/
def Earliest (s : Lock τ) (t : τ) : Prop :=
  t ∈ s.shown ∧ ∀ u ∈ s.shown, T.owner u = T.owner t → T.stamp t ≤ T.stamp u

open Classical in
/-- The steps of the lock. -/
noncomputable def step (s : Lock τ) : Event τ → Option (Lock τ)
  | .show t => some { s with shown := insert t s.shown }
  | .grant t => if s.Earliest T t then some { s with granted := insert t s.granted } else none
  | .release t => some { s with shown := s.shown \ {t} }

/-- No two granted tickets of one owner are shown together. -/
def Exclusive (s : Lock τ) : Prop :=
  ∀ t ∈ s.shown, ∀ u ∈ s.shown, t ∈ s.granted → u ∈ s.granted → T.owner t = T.owner u → t = u

/-- A step that does not break the order of the stamps.  A ticket that becomes
shown is new and stamped after every granted one of its owner, and a ticket is
granted only when no other one of its owner shares its stamp. -/
def Timely (s : Lock τ) : Event τ → Prop
  | .show t => t ∉ s.granted ∧
      ∀ u ∈ s.shown, u ∈ s.granted → T.owner u = T.owner t → T.stamp u < T.stamp t
  | .grant t => ∀ u ∈ s.shown, T.owner u = T.owner t → T.stamp u = T.stamp t → u = t
  | .release _ => True

/-- A granted ticket is strictly the earliest shown one of its owner. -/
def GrantedFirst (s : Lock τ) : Prop :=
  ∀ t ∈ s.shown, t ∈ s.granted → ∀ u ∈ s.shown, T.owner u = T.owner t → u ≠ t →
    T.stamp t < T.stamp u

variable {T} {s s' : Lock τ}

/-- Two granted tickets of one owner would each be strictly earlier than the
other. -/
theorem GrantedFirst.exclusive (h : s.GrantedFirst T) : s.Exclusive T := by
  intro t ht u hu gt gu own
  by_contra ne
  have htu : T.stamp t < T.stamp u := h t ht gt u hu own.symm (Ne.symm ne)
  have hut : T.stamp u < T.stamp t := h u hu gu t ht own ne
  exact lt_asymm htu hut

theorem GrantedFirst.show {t : τ} (h : s.GrantedFirst T) (ok : s.Timely T (.show t)) :
    GrantedFirst T { s with shown := insert t s.shown } := by
  intro v hv gv u hu own ne
  rcases Set.mem_insert_iff.mp hv with rfl | old
  · exact absurd gv ok.1
  · rcases Set.mem_insert_iff.mp hu with rfl | old'
    · exact ok.2 v old gv own.symm
    · exact h v old gv u old' own ne

theorem GrantedFirst.grant {t : τ} (h : s.GrantedFirst T) (first : s.Earliest T t)
    (ok : s.Timely T (.grant t)) : GrantedFirst T { s with granted := insert t s.granted } := by
  intro v hv gv u hu own ne
  rcases Set.mem_insert_iff.mp gv with rfl | gv
  · exact lt_of_le_of_ne (first.2 u hu own) fun eq => ne (ok u hu own eq.symm)
  · exact h v hv gv u hu own ne

theorem GrantedFirst.release {t : τ} (h : s.GrantedFirst T) :
    GrantedFirst T { s with shown := s.shown \ {t} } :=
  fun v hv gv u hu own ne => h v hv.1 gv u hu.1 own ne

/-- Every timely step keeps granted tickets first. -/
theorem GrantedFirst.step {e : Event τ} (h : s.GrantedFirst T) (ok : s.Timely T e)
    (hs : s.step T e = some s') : s'.GrantedFirst T := by
  cases e with
  | «show» t =>
      simp only [Lock.step, Option.some.injEq] at hs
      subst hs
      exact h.show ok
  | grant t =>
      simp only [Lock.step] at hs
      split at hs
      next first =>
        cases hs
        exact h.grant first ok
      next => cases hs
  | release t =>
      simp only [Lock.step, Option.some.injEq] at hs
      subst hs
      exact h.release

/-- A run of timely steps excludes all the way. -/
theorem exclusive_of_run (r : Run (Lock.step T) (Lock.Timely T) s s') (start : s.GrantedFirst T) :
    s'.Exclusive T :=
  (r.invariant start fun _ _ _ h ok hs => h.step ok hs).exclusive

end Lock

end TicketLock
