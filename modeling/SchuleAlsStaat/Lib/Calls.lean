import Mathlib.Data.List.Basic
import Mathlib.Algebra.Order.Group.Nat

/-!
# Asynchronous calls

A call to a remote party goes through three phases.  It is *sent*, then the
remote party executes it and its reply is on the way back, then the callback
has run and the call is *done*.  Other calls may interleave between any two
phases.

A system keeps its calls in lists that only grow.  A call changes its phase in
place, so its position names it for the whole run and the lists are also the
history of the run.  The lemmas below count and quantify over such a list
after one element changed.
-/

namespace Calls

variable {ρ α : Type*}

/-- The phase of an asynchronous call with replies in `ρ`. -/
inductive Phase (ρ : Type*) where
  /-- The remote party has not executed the call. -/
  | sent
  /-- The call is executed and its reply is on the way. -/
  | replied (reply : ρ)
  /-- The callback has run on the reply. -/
  | done (reply : ρ)
deriving DecidableEq, Repr

namespace Phase

/-- The outcome of a call, once the remote party has executed it. -/
def outcome : Phase ρ → Option ρ
  | .sent => none
  | .replied r => some r
  | .done r => some r

@[simp] theorem outcome_sent : (Phase.sent : Phase ρ).outcome = none := rfl
@[simp] theorem outcome_replied (r : ρ) : (Phase.replied r).outcome = some r := rfl
@[simp] theorem outcome_done (r : ρ) : (Phase.done r).outcome = some r := rfl

/-- The callback has not run yet. -/
def open? : Phase ρ → Bool
  | .done _ => false
  | _ => true

@[simp] theorem open?_sent : (Phase.sent : Phase ρ).open? = true := rfl
@[simp] theorem open?_replied (r : ρ) : (Phase.replied r).open? = true := rfl
@[simp] theorem open?_done (r : ρ) : (Phase.done r).open? = false := rfl

/-- The call failed, for a reply that is `none` on failure. -/
def failed : Phase (Option ρ) → Bool
  | .replied none => true
  | .done none => true
  | _ => false

@[simp] theorem failed_sent : (Phase.sent : Phase (Option ρ)).failed = false := rfl
@[simp] theorem failed_replied (r : Option ρ) : (Phase.replied r).failed = r.isNone := by
  cases r <;> rfl
@[simp] theorem failed_done (r : Option ρ) : (Phase.done r).failed = r.isNone := by
  cases r <;> rfl

end Phase

/-! ## Taking one call of a list to its next phase -/

section Next

variable {β : Type*} {phase : α → Phase ρ} {l : List α} {n : ℕ} {b : β}

/-- The `n`-th call, if it waits to be executed, goes through `f`. -/
def withSent (phase : α → Phase ρ) (l : List α) (n : ℕ) (f : α → Option β) : Option β :=
  match l[n]? with
  | none => none
  | some a => match phase a with
    | .sent => f a
    | _ => none

/-- The `n`-th call, if its reply is on the way, goes through `f` with it. -/
def withReply (phase : α → Phase ρ) (l : List α) (n : ℕ) (f : α → ρ → Option β) : Option β :=
  match l[n]? with
  | none => none
  | some a => match phase a with
    | .replied r => f a r
    | _ => none

theorem withSent_eq_some {f : α → Option β} :
    withSent phase l n f = some b ↔ ∃ a, l[n]? = some a ∧ phase a = .sent ∧ f a = some b := by
  rw [withSent]
  cases h : l[n]? with
  | none => simp
  | some a => cases hp : phase a <;> simp [hp]

theorem withReply_eq_some {f : α → ρ → Option β} :
    withReply phase l n f = some b ↔
      ∃ a r, l[n]? = some a ∧ phase a = .replied r ∧ f a r = some b := by
  rw [withReply]
  cases h : l[n]? with
  | none => simp
  | some a => cases hp : phase a <;> simp [hp]

end Next

/-! ## One element of a list changes -/

theorem mem_of_getElem? {l : List α} {n : ℕ} {a : α} (h : l[n]? = some a) : a ∈ l :=
  List.mem_of_getElem? h

theorem getElem?_append_of_some {l : List α} {n : ℕ} {a : α} (h : l[n]? = some a) (l' : List α) :
    (l ++ l')[n]? = some a := by
  rw [List.getElem?_append_left (List.getElem?_eq_some_iff.mp h).1, h]

/-- Changing one element moves a count by that element alone. -/
theorem countP_set (p : α → Bool) {l : List α} {n : ℕ} {a : α} (h : l[n]? = some a) (b : α) :
    (l.set n b).countP p + (if p a then 1 else 0) = l.countP p + (if p b then 1 else 0) := by
  induction l generalizing n with
  | nil => simp at h
  | cons c l ih =>
      cases n with
      | zero =>
          have hc : c = a := by simpa using h
          subst hc
          simp only [List.set_cons_zero, List.countP_cons]
          omega
      | succ n =>
          have h' : l[n]? = some a := by simpa using h
          have := ih h'
          simp only [List.set_cons_succ, List.countP_cons]
          omega

/-- A change that `p` does not see. -/
theorem countP_set_eq {p : α → Bool} {l : List α} {n : ℕ} {a b : α} (h : l[n]? = some a)
    (hab : p b = p a) : (l.set n b).countP p = l.countP p := by
  have := countP_set p h b
  rw [hab] at this
  omega

/-- A change after which an element is counted only if it was before. -/
theorem countP_set_le {p : α → Bool} {l : List α} {n : ℕ} {a b : α} (h : l[n]? = some a)
    (hab : p b = true → p a = true) : (l.set n b).countP p ≤ l.countP p := by
  have key := countP_set p h b
  have hle : (if p b = true then 1 else 0) ≤ if p a = true then 1 else 0 := by
    split
    next hb => rw [if_pos (hab hb)]
    next => exact Nat.zero_le _
  omega

/-- A new element that is counted. -/
theorem countP_concat {p : α → Bool} (l : List α) {a : α} (ha : p a = true) :
    (l ++ [a]).countP p = l.countP p + 1 := by
  rw [List.countP_append, List.countP_singleton, if_pos ha]

/-- A change to an element that is no longer counted. -/
theorem countP_set_add_one {p : α → Bool} {l : List α} {n : ℕ} {a b : α} (h : l[n]? = some a)
    (ha : p a = true) (hb : p b = false) : (l.set n b).countP p + 1 = l.countP p := by
  have := countP_set p h b
  rwa [if_pos ha, hb, if_neg Bool.false_ne_true, add_zero] at this

/-- A predicate of all elements survives a change to an element that has it. -/
theorem forall_mem_set {P : α → Prop} {l : List α} {b : α} (n : ℕ) (h : ∀ x ∈ l, P x) (hb : P b) :
    ∀ x ∈ l.set n b, P x := by
  intro x hx
  rcases List.mem_or_eq_of_mem_set hx with hx | rfl
  · exact h x hx
  · exact hb

theorem forall_mem_append {P : α → Prop} {l l' : List α} (h : ∀ x ∈ l, P x)
    (h' : ∀ x ∈ l', P x) : ∀ x ∈ l ++ l', P x := by
  intro x hx
  rcases List.mem_append.mp hx with hx | hx
  · exact h x hx
  · exact h' x hx

theorem forall_mem_concat {P : α → Prop} {l : List α} {b : α} (h : ∀ x ∈ l, P x) (hb : P b) :
    ∀ x ∈ l ++ [b], P x :=
  forall_mem_append h (by simpa using hb)

/-- An element other than the changed one is still there. -/
theorem mem_set_of_ne {l : List α} {n : ℕ} {a x : α} (b : α) (h : l[n]? = some a) (hx : x ∈ l)
    (ne : x ≠ a) : x ∈ l.set n b := by
  obtain ⟨m, hm⟩ := List.mem_iff_getElem?.mp hx
  have hnm : n ≠ m := by
    rintro rfl
    exact ne (Option.some.inj (hm.symm.trans h))
  exact List.mem_iff_getElem?.mpr ⟨m, by rw [List.getElem?_set_ne hnm]; exact hm⟩

/-- The changed element is there. -/
theorem mem_set_self {l : List α} {n : ℕ} {a : α} (b : α) (h : l[n]? = some a) :
    b ∈ l.set n b := by
  have hn : n < l.length := (List.getElem?_eq_some_iff.mp h).1
  exact List.mem_iff_getElem?.mpr ⟨n, by rw [List.getElem?_set_self hn]⟩

/-- Changing one element keeps a relation between the elements that the new
element takes over. -/
theorem pairwise_set {R : α → α → Prop} {l : List α} {n : ℕ} {a b : α} (h : l.Pairwise R)
    (hn : l[n]? = some a) (left : ∀ x, R x a → R x b) (right : ∀ x, R a x → R b x) :
    (l.set n b).Pairwise R := by
  induction l generalizing n with
  | nil => cases hn
  | cons x l ih =>
      obtain ⟨hx, hl⟩ := List.pairwise_cons.mp h
      cases n with
      | zero =>
          cases hn
          exact List.pairwise_cons.mpr ⟨fun y hy => right y (hx y hy), hl⟩
      | succ n =>
          refine List.pairwise_cons.mpr ⟨fun y hy => ?_, ih hl hn⟩
          rcases List.mem_or_eq_of_mem_set hy with hy | rfl
          · exact hx y hy
          · exact left x (hx a (mem_of_getElem? hn))

/-- A change that `f` does not see. -/
theorem filterMap_set {β : Type*} (f : α → Option β) {l : List α} {n : ℕ} {a b : α}
    (h : l[n]? = some a) (hab : f b = f a) : (l.set n b).filterMap f = l.filterMap f := by
  induction l generalizing n with
  | nil => cases h
  | cons x l ih =>
      cases n with
      | zero =>
          cases h
          rw [List.set_cons_zero, List.filterMap_cons, List.filterMap_cons, hab]
      | succ n => rw [List.set_cons_succ, List.filterMap_cons, List.filterMap_cons, ih h]

/-- A change by which `f` gains a value. -/
theorem filterMap_set_perm {β : Type*} {f : α → Option β} {l : List α} {n : ℕ} {a b : α} {v : β}
    (h : l[n]? = some a) (ha : f a = none) (hb : f b = some v) :
    ((l.set n b).filterMap f).Perm (v :: l.filterMap f) := by
  induction l generalizing n with
  | nil => cases h
  | cons x l ih =>
      cases n with
      | zero =>
          cases h
          rw [List.set_cons_zero, List.filterMap_cons_some hb, List.filterMap_cons_none ha]
      | succ n =>
          have rest := ih h
          rw [List.set_cons_succ]
          cases hx : f x with
          | none => rwa [List.filterMap_cons_none hx, List.filterMap_cons_none hx]
          | some y =>
              rw [List.filterMap_cons_some hx, List.filterMap_cons_some hx]
              exact (rest.cons y).trans (.swap v y _)

/-- Elements that are counted once are all the same. -/
theorem eq_of_countP_le_one {p : α → Bool} {l : List α} (h : l.countP p ≤ 1) {a b : α} (ha : a ∈ l)
    (hb : b ∈ l) (pa : p a = true) (pb : p b = true) : a = b := by
  rw [List.countP_eq_length_filter] at h
  have ha' : a ∈ l.filter p := List.mem_filter.mpr ⟨ha, pa⟩
  have hb' : b ∈ l.filter p := List.mem_filter.mpr ⟨hb, pb⟩
  match hl : l.filter p with
  | [] =>
      rw [hl] at ha'
      cases ha'
  | [x] =>
      rw [hl] at ha' hb'
      rw [List.mem_singleton.mp ha', List.mem_singleton.mp hb']
  | x :: y :: l' =>
      rw [hl] at h
      simp at h

/-- Elements of one of two kinds are counted with both. -/
theorem countP_le_add {p q r : α → Bool} (h : ∀ x, p x = true → q x = true ∨ r x = true)
    (l : List α) : l.countP p ≤ l.countP q + l.countP r := by
  induction l with
  | nil => rfl
  | cons x l ih =>
      simp only [List.countP_cons]
      have := h x
      split_ifs <;> simp_all <;> omega

theorem countP_pos_of_getElem? {p : α → Bool} {l : List α} {n : ℕ} {a : α} (h : l[n]? = some a)
    (hp : p a = true) : 0 < l.countP p :=
  List.countP_pos_iff.mpr ⟨a, List.mem_of_getElem? h, hp⟩

end Calls
