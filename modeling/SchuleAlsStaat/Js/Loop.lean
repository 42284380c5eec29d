import Mathlib.Data.List.Basic
import SchuleAlsStaat.Js.Program

/-!
# Loops that may return

A `for` loop over the elements of a list, in a function that may return from inside
the loop.  The result `true` says that it has returned.

Two nested loops over ranges do what one loop over the product does, whose number is
split into quotient and remainder (`forReturn_nested`).  A loop over indices that
returns behind the end of a list visits the elements of the list (`forReturn_visit`).
-/

namespace SchuleAlsStaat.Js.JS

variable {A ι κ : Type}

/-- `for (i of l) { body }`. -/
def forReturn : List ι → (ι → JS A Bool) → JS A Bool
  | [], _ => pure false
  | i :: l, body => do
      let returned ← body i
      if returned then pure true else forReturn l body

theorem forReturn_cons (i : ι) (l : List ι) (body : ι → JS A Bool) :
    forReturn (i :: l) body =
      body i >>= fun returned => if returned then pure true else forReturn l body := rfl

/-- An iteration that goes on. -/
theorem forReturn_of_false {i : ι} {l : List ι} {body : ι → JS A Bool} {acts : List A}
    (h : body i = ⟨acts, .ok false⟩) :
    forReturn (i :: l) body = ⟨acts ++ (forReturn l body).acts, (forReturn l body).result⟩ := by
  rw [forReturn_cons, h]
  rfl

/-- An iteration that returns. -/
theorem forReturn_of_true {i : ι} {l : List ι} {body : ι → JS A Bool} {acts : List A}
    (h : body i = ⟨acts, .ok true⟩) : forReturn (i :: l) body = ⟨acts, .ok true⟩ := by
  rw [forReturn_cons, h]
  show (⟨acts ++ [], .ok true⟩ : JS A Bool) = ⟨acts, .ok true⟩
  rw [List.append_nil]

theorem forReturn_append (l l' : List ι) (body : ι → JS A Bool) :
    forReturn (l ++ l') body =
      forReturn l body >>= fun returned => if returned then pure true else forReturn l' body := by
  induction l with
  | nil => rfl
  | cons i l ih =>
      rw [List.cons_append, forReturn_cons, forReturn_cons, bind_assoc, ih]
      congr 1
      funext returned
      cases returned with
      | true => rfl
      | false => rfl

theorem forReturn_map (f : κ → ι) (l : List κ) (body : ι → JS A Bool) :
    forReturn (l.map f) body = forReturn l fun k => body (f k) := by
  induction l with
  | nil => rfl
  | cons k l ih => rw [List.map_cons, forReturn_cons, forReturn_cons, ih]

theorem forReturn_congr {l : List ι} {body body' : ι → JS A Bool}
    (h : ∀ i ∈ l, body i = body' i) : forReturn l body = forReturn l body' := by
  induction l with
  | nil => rfl
  | cons i l ih =>
      obtain ⟨hi, hl⟩ := List.forall_mem_cons.mp h
      rw [forReturn_cons, forReturn_cons, hi, ih hl]

/-- A loop inside of a loop runs over the lists one after the other. -/
theorem forReturn_flatMap (l : List κ) (f : κ → List ι) (body : ι → JS A Bool) :
    forReturn (l.flatMap f) body = forReturn l fun k => forReturn (f k) body := by
  induction l with
  | nil => rfl
  | cons k l ih => rw [List.flatMap_cons, forReturn_append, forReturn_cons, ih]

/-- The numbers below a product, as quotients and remainders. -/
theorem map_range_mul {a : ℕ} (ha : 0 < a) (b : ℕ) :
    (List.range (b * a)).map (fun k => (k / a, k % a)) =
      (List.range b).flatMap fun y => (List.range a).map fun x => (y, x) := by
  induction b with
  | zero => simp
  | succ b ih =>
      rw [Nat.succ_mul, List.range_add, List.map_append, ih, List.range_succ, List.flatMap_append,
        List.flatMap_singleton, List.map_map]
      congr 1
      refine List.map_congr_left fun x hx => ?_
      obtain ⟨hdiv, hmod⟩ := (Nat.div_mod_unique ha).mpr
        ⟨Nat.add_comm x (a * b), List.mem_range.mp hx⟩
      rw [Function.comp_apply, Nat.mul_comm b a, hdiv, hmod]

theorem forReturn_nested {a : ℕ} (ha : 0 < a) (b : ℕ) (body : ℕ → ℕ → JS A Bool) :
    (forReturn (List.range b) fun y => forReturn (List.range a) fun x => body y x) =
      forReturn (List.range (b * a)) fun k => body (k / a) (k % a) := by
  have hflat := forReturn_flatMap (List.range b) (fun y => (List.range a).map fun x => (y, x))
    fun p => body p.1 p.2
  rw [← map_range_mul ha, forReturn_map] at hflat
  simp only [forReturn_map] at hflat
  exact hflat.symm

/-! ## Elements of a list by their index -/

/-- `if (!(i in list)) return; f(list[i], i)`. -/
def visit {α : Type} (list : List α) (f : α → ℕ → JS A Unit) (i : ℕ) : JS A Bool :=
  match list[i]? with
  | none => pure true
  | some a => do
      f a i
      pure false

variable {α : Type} {list : List α} {f : α → ℕ → JS A Unit}

theorem visit_of_le {i : ℕ} (h : list.length ≤ i) : visit list f i = ⟨[], .ok true⟩ := by
  rw [visit, List.getElem?_eq_none h]
  rfl

theorem visit_of_lt {i : ℕ} (h : i < list.length) (hok : (f list[i] i).result = .ok ()) :
    visit list f i = ⟨(f list[i] i).acts, .ok false⟩ := by
  rw [visit, List.getElem?_eq_getElem h]
  show bind (f list[i] i) (fun _ => pure false) = _
  simp [bind, hok]

/-- A stretch of indices visits the elements there, and returns when it reaches
behind the end of the list. -/
theorem forReturn_visit (hok : ∀ a ∈ list, ∀ i, (f a i).result = .ok ()) {b : ℕ} (n : ℕ)
    (hb : b ≤ list.length) :
    forReturn (List.range' b n) (visit list f) =
      ⟨((list.zipIdx.drop b).take n).flatMap fun p => (f p.1 p.2).acts,
        .ok (decide (list.length < b + n))⟩ := by
  induction n generalizing b with
  | zero =>
      rw [List.range'_zero, List.take_zero, Nat.add_zero, decide_eq_false hb.not_gt]
      rfl
  | succ n ih =>
      rw [List.range'_succ]
      rcases hb.lt_or_eq with h | rfl
      · have hdrop : list.zipIdx.drop b = (list[b], b) :: list.zipIdx.drop (b + 1) := by
          rw [List.drop_eq_getElem_cons (by rwa [List.length_zipIdx]), List.getElem_zipIdx,
            Nat.zero_add]
        rw [forReturn_of_false (visit_of_lt h (hok _ (List.getElem_mem h) b)), ih h, hdrop,
          List.take_succ_cons, List.flatMap_cons, Nat.add_right_comm b 1 n, Nat.add_assoc b n 1]
      · have hdrop : list.zipIdx.drop list.length = [] :=
          List.drop_eq_nil_of_le (List.length_zipIdx ..).le
        rw [forReturn_of_true (visit_of_le le_rfl), hdrop, List.take_nil, List.flatMap_nil,
          decide_eq_true (Nat.lt_add_of_pos_right n.succ_pos)]

end SchuleAlsStaat.Js.JS
