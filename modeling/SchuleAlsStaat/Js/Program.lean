import Mathlib.Control.Basic
import SchuleAlsStaat.Js.Value

/-!
# Synchronous code

JavaScript code runs to completion.  A stretch of it performs acts that others
can see, such as issuing a database call, and then returns or throws.
`JS A α` is the meaning of a stretch: the acts it performs, in order, and its
result.  What was done before an exception stays done.
-/

namespace SchuleAlsStaat.Js

/-- A stretch of synchronous code with acts in `A` and result in `α`. -/
structure JS (A : Type) (α : Type) where
  acts : List A
  result : Except Exn α

namespace JS

variable {A α β : Type}

def bind (x : JS A α) (f : α → JS A β) : JS A β :=
  match x.result with
  | .error e => ⟨x.acts, .error e⟩
  | .ok a => ⟨x.acts ++ (f a).acts, (f a).result⟩

instance : Monad (JS A) where
  pure a := ⟨[], .ok a⟩
  bind := bind

/-- Performs one act. -/
def act (a : A) : JS A Unit := ⟨[a], .ok ()⟩

def throw (e : Exn) : JS A α := ⟨[], .error e⟩

/-- Code without acts. -/
def lift (r : Except Exn α) : JS A α := ⟨[], r⟩

/-- `try { x } catch (e) { h(e) }`. -/
def tryCatch (x : JS A α) (h : Exn → JS A α) : JS A α :=
  match x.result with
  | .ok _ => x
  | .error e => ⟨x.acts ++ (h e).acts, (h e).result⟩

/-- `xs.forEach`, with one act for each element. -/
def forEach {ι : Type} (xs : List ι) (f : ι → A) : JS A Unit := ⟨xs.map f, .ok ()⟩

/-- `"" + v`, which throws when `v` has no string form. -/
def str (v : JsVal) : JS A String := lift v.toStr

@[simp] theorem pure_acts (a : α) : (pure a : JS A α).acts = [] := rfl
@[simp] theorem pure_result (a : α) : (pure a : JS A α).result = .ok a := rfl
@[simp] theorem act_acts (a : A) : (act a).acts = [a] := rfl
@[simp] theorem act_result (a : A) : (act a).result = .ok () := rfl
@[simp] theorem throw_acts (e : Exn) : (throw e : JS A α).acts = [] := rfl
@[simp] theorem throw_result (e : Exn) : (throw e : JS A α).result = .error e := rfl
@[simp] theorem lift_acts (r : Except Exn α) : (lift r : JS A α).acts = [] := rfl
@[simp] theorem lift_result (r : Except Exn α) : (lift r : JS A α).result = r := rfl

@[simp] theorem pure_bind' (a : α) (f : α → JS A β) : (pure a : JS A α) >>= f = f a := rfl
@[simp] theorem throw_bind (e : Exn) (f : α → JS A β) : (throw e : JS A α) >>= f = throw e := rfl
@[simp] theorem lift_ok_bind (a : α) (f : α → JS A β) : (lift (.ok a) : JS A α) >>= f = f a := rfl
@[simp] theorem lift_error_bind (e : Exn) (f : α → JS A β) :
    (lift (.error e) : JS A α) >>= f = throw e := rfl

theorem bind_acts_ok {x : JS A α} {f : α → JS A β} {a : α} (h : x.result = .ok a) :
    (x >>= f).acts = x.acts ++ (f a).acts := by
  show (bind x f).acts = _
  simp [bind, h]

theorem bind_acts_error {x : JS A α} {f : α → JS A β} {e : Exn} (h : x.result = .error e) :
    (x >>= f).acts = x.acts := by
  show (bind x f).acts = _
  simp [bind, h]

theorem bind_result_ok {x : JS A α} {f : α → JS A β} {a : α} (h : x.result = .ok a) :
    (x >>= f).result = (f a).result := by
  show (bind x f).result = _
  simp [bind, h]

theorem bind_result_error {x : JS A α} {f : α → JS A β} {e : Exn} (h : x.result = .error e) :
    (x >>= f).result = .error e := by
  show (bind x f).result = _
  simp [bind, h]

theorem result_bind (x : JS A α) (f : α → JS A β) :
    (x >>= f).result = x.result >>= fun a => (f a).result := by
  cases h : x.result with
  | error e => exact bind_result_error h
  | ok a => exact bind_result_ok h

theorem bind_assoc {γ : Type} (x : JS A α) (f : α → JS A β) (g : β → JS A γ) :
    x >>= f >>= g = x >>= fun a => f a >>= g := by
  show bind (bind x f) g = bind x fun a => bind (f a) g
  cases hx : x.result with
  | error e => simp [bind, hx]
  | ok a =>
      cases hf : (f a).result with
      | error e => simp [bind, hx, hf]
      | ok b => simp [bind, hx, hf]

@[simp] theorem act_bind_acts (a : A) (f : Unit → JS A β) :
    (act a >>= f).acts = a :: (f ()).acts := rfl

@[simp] theorem act_bind_result (a : A) (f : Unit → JS A β) :
    (act a >>= f).result = (f ()).result := rfl

/-- An act of a sequence is an act of the first part or of what follows a
normal return. -/
theorem mem_bind_acts {x : JS A α} {f : α → JS A β} {b : A} :
    b ∈ (x >>= f).acts ↔ b ∈ x.acts ∨ ∃ a, x.result = .ok a ∧ b ∈ (f a).acts := by
  cases h : x.result with
  | error e => simp [bind_acts_error h]
  | ok a => simp [bind_acts_ok h]

/-- An act after code without acts follows its normal return. -/
theorem mem_lift_bind_acts {r : Except Exn α} {f : α → JS A β} {b : A} :
    b ∈ ((lift r : JS A α) >>= f).acts ↔ ∃ a, r = .ok a ∧ b ∈ (f a).acts := by
  simp [mem_bind_acts]

end JS

end SchuleAlsStaat.Js
