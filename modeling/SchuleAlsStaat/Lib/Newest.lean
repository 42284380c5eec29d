import Mathlib.Data.List.Sort
import Mathlib.Data.List.Infix
import Mathlib.Data.Int.Order.Basic

/-!
# The newest elements of a list

`newest time limit l` sorts a list by time, newest first, and keeps at most
`limit` elements.  Elements of one time stay in the order of the list, so the
order of `l` stands for the way in which ties are resolved.

Selecting before sorting and selecting after it give the same list
(`filter_sort`).  The limit does not commute with a selection:
`filter_newest_eq_iff` says when it does.
-/

namespace Newest

variable {α : Type*} (time : α → ℤ)

/-- `a` may stand before `b`. -/
def Newer (a b : α) : Prop := time b ≤ time a

instance : DecidableRel (Newer time) := fun a b => inferInstanceAs (Decidable (time b ≤ time a))

instance : Std.Total (Newer time) := ⟨fun a b => le_total (time b) (time a)⟩

instance : IsTrans α (Newer time) := ⟨fun _ _ _ hab hbc => le_trans hbc hab⟩

/-- Sorted by time, newest first. -/
def sort (l : List α) : List α := l.insertionSort (Newer time)

/-- The first `limit` elements, or all. -/
def cut (limit : Option ℕ) (l : List α) : List α :=
  match limit with
  | none => l
  | some n => l.take n

/-- The newest elements, at most `limit` of them. -/
def newest (limit : Option ℕ) (l : List α) : List α := cut limit (sort time l)

variable {time} {limit : Option ℕ} {l l' : List α} {p : α → Bool}

/-! ## Sorting -/

theorem pairwise_sort (l : List α) : (sort time l).Pairwise (Newer time) :=
  List.pairwise_insertionSort (Newer time) l

theorem perm_sort (l : List α) : (sort time l).Perm l := List.perm_insertionSort (Newer time) l

/-- Inserting into a sorted list and selecting commute. -/
theorem filter_orderedInsert (a : α) (h : l.Pairwise (Newer time)) :
    (l.orderedInsert (Newer time) a).filter p =
      if p a then (l.filter p).orderedInsert (Newer time) a else l.filter p := by
  induction l with
  | nil => cases hp : p a <;> simp [hp]
  | cons b l ih =>
      obtain ⟨hb, hl⟩ := List.pairwise_cons.mp h
      by_cases hab : Newer time a b
      · rw [List.orderedInsert_cons_of_le _ _ hab]
        cases hpa : p a with
        | false => rw [List.filter_cons_of_neg (by simp [hpa]), if_neg (by simp)]
        | true =>
            rw [List.filter_cons_of_pos hpa, if_pos rfl]
            -- `a` may stand before all that is left of the list
            cases hrest : (b :: l).filter p with
            | nil => rfl
            | cons c cs =>
                have hc : c ∈ b :: l := List.mem_of_mem_filter (p := p) (by rw [hrest]; simp)
                have hac : Newer time a c := by
                  rcases List.mem_cons.mp hc with rfl | hc
                  · exact hab
                  · exact le_trans (hb c hc) hab
                rw [List.orderedInsert_cons_of_le _ _ hac]
      · rw [List.orderedInsert_of_not_le _ _ hab]
        cases hpb : p b with
        | false =>
            rw [List.filter_cons_of_neg (by simp [hpb]), List.filter_cons_of_neg (by simp [hpb])]
            exact ih hl
        | true =>
            rw [List.filter_cons_of_pos hpb, List.filter_cons_of_pos hpb, ih hl]
            cases hpa : p a with
            | false => simp
            | true => rw [if_pos rfl, if_pos rfl, List.orderedInsert_of_not_le _ _ hab]

theorem filter_sort (l : List α) : (sort time l).filter p = sort time (l.filter p) := by
  induction l with
  | nil => rfl
  | cons a l ih =>
      rw [sort, List.insertionSort_cons]
      refine (filter_orderedInsert a (pairwise_sort l)).trans ?_
      rw [ih]
      cases hpa : p a with
      | false => rw [List.filter_cons_of_neg (by simp [hpa]), if_neg (by simp)]
      | true => rw [List.filter_cons_of_pos hpa, if_pos rfl, sort, sort, List.insertionSort_cons]

/-- The part of a sorted list that is newer than a bound comes first. -/
theorem filter_lt_isPrefix (c : ℤ) (h : l.Pairwise (Newer time)) :
    l.filter (fun x => c < time x) <+: l := by
  induction l with
  | nil => exact List.prefix_refl _
  | cons a l ih =>
      obtain ⟨ha, hl⟩ := List.pairwise_cons.mp h
      by_cases hc : c < time a
      · rw [List.filter_cons_of_pos (by simpa using hc)]
        exact List.cons_prefix_cons.mpr ⟨rfl, ih hl⟩
      · have hnil : (a :: l).filter (fun x => c < time x) = [] := by
          rw [List.filter_eq_nil_iff]
          intro b hb
          rcases List.mem_cons.mp hb with rfl | hb
          · simpa using hc
          · have hle : time b ≤ time a := ha b hb
            simpa using hle.trans (not_lt.mp hc)
        rw [hnil]
        exact List.nil_prefix

/-! ## The limit -/

theorem cut_isPrefix (limit : Option ℕ) (l : List α) : cut limit l <+: l := by
  cases limit with
  | none => exact List.prefix_refl l
  | some n => exact List.take_prefix n l

/-- A prefix within the limit is a prefix of what the limit keeps. -/
theorem prefix_cut (h : l' <+: l) (hlen : ∀ n ∈ limit, l'.length ≤ n) : l' <+: cut limit l := by
  cases limit with
  | none => exact h
  | some n =>
      exact List.prefix_take_iff.mpr ⟨h, hlen n rfl⟩

theorem length_cut_le {n : ℕ} (h : limit = some n) : (cut limit l).length ≤ n := by
  rw [h]
  exact List.length_take_le n l

theorem mem_of_mem_newest {x : α} (h : x ∈ newest time limit l) : x ∈ l :=
  (perm_sort l).mem_iff.mp ((cut_isPrefix limit _).subset h)

theorem nodup_newest (h : l.Nodup) : (newest time limit l).Nodup :=
  ((perm_sort l).nodup_iff.mpr h).sublist (cut_isPrefix limit _).sublist

/-- What a selection leaves of the newest elements are the newest selected
ones, as far as they were not cut off. -/
theorem filter_newest_isPrefix : (newest time limit l).filter p <+: newest time limit (l.filter p) := by
  refine prefix_cut ?_ fun n hn => ?_
  · rw [← filter_sort]
    exact (cut_isPrefix limit _).filter p
  · exact (List.length_filter_le _ _).trans (length_cut_le hn)

/-- The limit commutes with a selection when it keeps all elements that are among
the newest selected ones. -/
theorem filter_newest_eq_iff (hd : l.Nodup) :
    (newest time limit l).filter p = newest time limit (l.filter p) ↔
      ∀ x ∈ newest time limit (l.filter p), x ∈ newest time limit l := by
  constructor
  · intro h x hx
    rw [← h] at hx
    exact List.mem_of_mem_filter hx
  · intro h
    have subset : newest time limit (l.filter p) ⊆ (newest time limit l).filter p := by
      intro x hx
      exact List.mem_filter.mpr ⟨h x hx, (List.mem_filter.mp (mem_of_mem_newest hx)).2⟩
    have length := (List.subperm_of_subset (nodup_newest (hd.filter p)) subset).length_le
    exact filter_newest_isPrefix.sublist.eq_of_length_le length

/-! ## Distinct times -/

/-- Ties aside, the order of the list does not matter. -/
theorem newest_perm (hd : (l.map time).Nodup) (h : l'.Perm l) :
    newest time limit l' = newest time limit l := by
  have sorted : sort time l' = sort time l := by
    refine List.Perm.eq_of_pairwise ?_ (pairwise_sort l') (pairwise_sort l)
      ((perm_sort l').trans (h.trans (perm_sort l).symm))
    intro a b ha hb hab hba
    have hal : a ∈ l := h.mem_iff.mp ((perm_sort l').mem_iff.mp ha)
    have hbl : b ∈ l := (perm_sort l).mem_iff.mp hb
    exact List.inj_on_of_nodup_map hd hal hbl (le_antisymm hba hab)
  rw [newest, newest, sorted]

/-- An element is among the `n` newest when there are at most `n` that are not
older. -/
theorem mem_newest_iff (hd : (l.map time).Nodup) {x : α} (hx : x ∈ l) (n : ℕ) :
    x ∈ newest time (some n) l ↔ (l.filter fun y => time x ≤ time y).length ≤ n := by
  have hperm : (sort time l).Perm l := perm_sort l
  obtain ⟨before, after, hsort⟩ := List.append_of_mem (hperm.mem_iff.mpr hx)
  have hnodup : ((before ++ x :: after).map time).Nodup := by
    rw [← hsort]
    exact (hperm.map time).nodup_iff.mpr hd
  have hnewer : (sort time l).Pairwise (Newer time) := pairwise_sort l
  rw [hsort, List.pairwise_append] at hnewer
  obtain ⟨-, htail, hcross⟩ := hnewer
  -- those that are not older are `x` and the ones before it
  have hbefore : (before.filter fun y => time x ≤ time y) = before :=
    List.filter_eq_self.mpr fun y hy => decide_eq_true (hcross y hy x (List.mem_cons_self ..))
  have hafter : (after.filter fun y => time x ≤ time y) = [] := by
    rw [List.filter_eq_nil_iff]
    intro y hy hle
    have heq : time y = time x :=
      le_antisymm ((List.pairwise_cons.mp htail).1 y hy) (by simpa using hle)
    rw [List.map_append, List.map_cons, List.nodup_append] at hnodup
    exact (List.nodup_cons.mp hnodup.2.1).1 (heq ▸ List.mem_map_of_mem hy)
  have hlength : (l.filter fun y => time x ≤ time y).length = before.length + 1 := by
    rw [← (hperm.filter _).length_eq, hsort, List.filter_append, hbefore,
      List.filter_cons_of_pos (by simp), hafter, List.length_append, List.length_singleton]
  rw [hlength, newest, cut, hsort, Nat.succ_le_iff]
  constructor
  · intro hmem
    by_contra hle
    rw [List.take_append_of_le_length (not_lt.mp hle)] at hmem
    exact (List.nodup_append.mp hnodup.of_map).2.2 x (List.mem_of_mem_take hmem) x
      (List.mem_cons_self ..) rfl
  · intro hlt
    obtain ⟨k, rfl⟩ := Nat.exists_eq_add_of_lt hlt
    rw [List.take_append, show before.length + k + 1 - before.length = k + 1 by omega,
      List.take_succ_cons]
    exact List.mem_append_right _ (List.mem_cons_self ..)

end Newest
