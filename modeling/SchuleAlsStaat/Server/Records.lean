import Mathlib.Data.List.MinMax
import SchuleAlsStaat.Server.Grows

/-!
# The student records in a run

What an executed call does to the records: `Alters`.  Whatever requests run at
the same time, no two records share an `_id` or a QR-ID (`Indexed`), and a field
keeps its value as long as no executed call writes it (`Keeps`).
-/

namespace SchuleAlsStaat

/-- A new record has no entries. -/
theorem NewStudent.cast_appear {E : Ext} {id : ObjectId} {info : NewStudent} {st : Student}
    (h : info.cast E id = some st) : st.appear = [] := by
  simp only [NewStudent.cast, Option.bind_eq_bind, Option.bind_eq_some_iff] at h
  obtain ⟨_, -, _, -, _, -, _, -, _, -, _, -, _, -, h⟩ := h
  cases h
  rfl

/-- What `save` writes leaves the entries alone. -/
theorem StudentUpdate.apply_appear {C : Casts} {st st' : Student}
    {u : StudentUpdate} (h : u.apply C st = some st') : st'.appear = st.appear := by
  cases u with
  | profile key value =>
      cases key <;>
        (obtain ⟨v, -, rfl⟩ := Option.map_eq_some_iff.mp h
         rfl)
  | password hash salt =>
      cases h
      rfl

namespace Server

variable {E : Ext} {K : Keys} {s s' : State}

/-! ## Executed calls -/

/-- The records and the next `_id` after a call. -/
inductive Alters (E : Ext) (s : State) : Query → Reply → Students → ObjectId → Prop where
  | read {q : Query} {r : Reply} : Alters E s q r s.students s.nextStudent
  | add {info : NewStudent} {st : Student} {S : Students}
      (hcast : info.cast E s.nextStudent = some st) (hins : s.students.insert st = some S) :
      Alters E s (.addStudent info) (.added st) S (s.nextStudent + 1)
  | appear {qrid : Js.JsVal} {spec : Appear} {st : Student}
      (hst : s.students.findOne E qrid = some st) :
      Alters E s (.addAppear qrid spec) (.appear true)
        (s.students.map fun t =>
          if t._id = st._id then { t with appear := t.appear ++ [spec] } else t) s.nextStudent
  | save {id : ObjectId} {u : StudentUpdate} {S : Students}
      (hS : s.students.update id (u.apply E.toCasts) = some S) :
      Alters E s (.saveStudent id u) .done S s.nextStudent
  | remove {id : ObjectId} :
      Alters E s (.removeStudent id) .done (s.students.remove id) s.nextStudent

theorem alters_execute {q : Query} {r : Reply} {t : State} (h : execute E s q r = some t) :
    Alters E s q r t.students t.nextStudent := by
  rw [execute.eq_def] at h
  split at h
  next => split at h <;> cases h; exact .read
  next => split at h <;> cases h; exact .read
  next info st =>
    obtain ⟨st', hcast, h⟩ := Option.bind_eq_some_iff.mp h
    split at h
    next heq =>
      subst heq
      obtain ⟨S, hins, rfl⟩ := Option.map_eq_some_iff.mp h
      exact .add hcast hins
    next => cases h
  next qrid spec success =>
    split at h
    next st hst =>
      cases h
      exact .appear hst
    next =>
      cases h
      exact .read
    next => cases h
  next => split at h <;> cases h; exact .read
  next => split at h <;> cases h; exact .read
  next id u =>
    cases h
    cases hS : s.students.update id (u.apply E.toCasts) with
    | none => exact .read
    | some S => exact .save hS
  next => cases h; exact .remove
  next => cases h; exact .read
  next => cases h; exact .read
  next => cases h

theorem performAll_nextStudent (w : WorkerId) (now : Time) (acts : List Act) (s : State) :
    (s.performAll w now acts).nextStudent = s.nextStudent := by
  induction acts generalizing s with
  | nil => rfl
  | cons a acts ih => exact (ih (s.perform w now a)).trans (by cases a <;> rfl)

/-- The records stay as they are, or a call is executed. -/
theorem records_step {e : Event} (hs : step E K s e = some s') :
    (s'.students = s.students ∧ s'.nextStudent = s.nextStudent) ∨
      ∃ n r c, e = .callDb n r ∧ s.calls[n]? = some c ∧
        s'.calls = s.calls.set n { c with phase := .replied (some r) } ∧
        Alters E s c.query r s'.students s'.nextStudent := by
  cases step_cases hs with
  | request w env name post =>
      obtain ⟨-, hstudents, -⟩ := State.performAll_frame w env.now
        (prepare_action E K env ⟨s.received.length, none⟩ name post).acts
        { s with received := s.received ++ [⟨name, post⟩] }
      exact .inl ⟨hstudents, performAll_nextStudent ..⟩
  | @callDb n r c S m hc hp hx =>
      have ha := alters_execute hx
      exact .inr ⟨n, r, c, rfl, hc, rfl, ha⟩
  | @callReply n c r env hc hp =>
      obtain ⟨-, hstudents, -⟩ := State.performAll_frame c.worker env.now
        (onReply E env c.client c.query r).acts
        { s with calls := s.calls.set n { c with phase := .done (some r) } }
      exact .inl ⟨hstudents, performAll_nextStudent ..⟩
  | _ => exact .inl ⟨rfl, rfl⟩

/-! ## Indexes -/

/-- The records obey the unique indexes, and the next `_id` is above all of them. -/
structure Indexed (s : State) : Prop where
  unique : s.students.Unique
  fresh : ∀ st ∈ s.students, st._id < s.nextStudent

namespace Indexed

theorem init {S : Students} (h : S.Unique) (L : Ledger) : Indexed (State.init S L) where
  unique := h
  fresh _ hst := Nat.lt_succ_of_le (List.le_max_of_le' 0 (List.mem_map_of_mem hst) le_rfl)

theorem alters (h : Indexed s) {q : Query} {r : Reply} {S : Students} {m : ObjectId}
    (ha : Alters E s q r S m) : S.Unique ∧ ∀ st ∈ S, st._id < m := by
  cases ha with
  | read => exact ⟨h.unique, h.fresh⟩
  | @add info st S hcast hins =>
      obtain ⟨hid, -⟩ := NewStudent.cast_eq_some hcast
      refine ⟨h.unique.insert (fun t ht => ?_) hins, fun t ht => ?_⟩
      · rw [hid]
        exact (h.fresh t ht).ne
      · rw [(Students.insert_eq_some hins).2] at ht
        rcases List.mem_append.mp ht with ht | ht
        · exact (h.fresh t ht).trans (Nat.lt_succ_self _)
        · rw [List.mem_singleton.mp ht, hid]
          exact Nat.lt_succ_self _
  | appear hst =>
      refine ⟨h.unique.map fun t => ?_, fun t ht => ?_⟩
      · split <;> exact ⟨rfl, rfl⟩
      · obtain ⟨t', ht', rfl⟩ := List.mem_map.mp ht
        have hid := h.fresh t' ht'
        split
        · exact hid
        · exact hid
  | @save id u S hS =>
      refine ⟨h.unique.update (fun _ _ => StudentUpdate.apply_id) hS, fun t ht => ?_⟩
      rcases Students.update_eq_some hS with ⟨rfl, -⟩ | ⟨st, hst, hid, st', hst', -, rfl⟩
      · exact h.fresh t ht
      · obtain ⟨t', ht', rfl⟩ := List.mem_map.mp ht
        split
        next => rw [StudentUpdate.apply_id hst']; exact h.fresh st hst
        next => exact h.fresh t' ht'
  | remove => exact ⟨h.unique.remove _, fun t ht => h.fresh t (List.mem_filter.mp ht).1⟩

theorem step (h : Indexed s) {e : Event} (hs : Server.step E K s e = some s') : Indexed s' := by
  rcases records_step hs with ⟨hstudents, hnext⟩ | ⟨n, r, c, -, -, -, ha⟩
  · refine ⟨hstudents ▸ h.unique, fun st hst => ?_⟩
    rw [hnext]
    exact h.fresh st (hstudents ▸ hst)
  · obtain ⟨hunique, hfresh⟩ := h.alters ha
    exact ⟨hunique, hfresh⟩

end Indexed

/-! ## Fields that no call writes -/

/-- No execution of the call changes the field `f` of a record. -/
def Leaves {α : Type} (E : Ext) (f : Student → α) : Query → Prop
  | .saveStudent _ u => ∀ st st', u.apply E.toCasts st = some st' → f st' = f st
  | .addAppear _ spec => ∀ st, f { st with appear := st.appear ++ [spec] } = f st
  | _ => True

/-- The records that were there have the field `f` they had. -/
def Keeps {α : Type} (f : Student → α) (S T : Students) : Prop :=
  ∀ st₀ ∈ S, ∀ st ∈ T, st._id = st₀._id → f st = f st₀

theorem Keeps.alters {α : Type} {f : Student → α} {S T : Students} {q : Query} {r : Reply}
    {m : ObjectId} (h : Keeps f S s.students) (hS : ∀ st₀ ∈ S, st₀._id < s.nextStudent)
    (hq : Leaves E f q) (ha : Alters E s q r T m) : Keeps f S T := by
  intro st₀ hst₀ st hst hid
  cases ha with
  | read => exact h st₀ hst₀ st hst hid
  | @add info st' S hcast hins =>
      rw [(Students.insert_eq_some hins).2] at hst
      rcases List.mem_append.mp hst with hst | hst
      · exact h st₀ hst₀ st hst hid
      · -- a new record has an `_id` that no old one has
        rw [List.mem_singleton.mp hst, (NewStudent.cast_eq_some hcast).1] at hid
        exact absurd hid (hS st₀ hst₀).ne'
  | @appear qrid spec st' hfind =>
      obtain ⟨t, ht, rfl⟩ := List.mem_map.mp hst
      split at hid
      next heq =>
        rw [if_pos heq, hq t]
        exact h st₀ hst₀ t ht hid
      next hne =>
        rw [if_neg hne]
        exact h st₀ hst₀ t ht hid
  | @save id u S hS =>
      rcases Students.update_eq_some hS with ⟨rfl, -⟩ | ⟨t, ht, htid, t', ht', -, rfl⟩
      · exact h st₀ hst₀ st hst hid
      · obtain ⟨t₁, ht₁, rfl⟩ := List.mem_map.mp hst
        split at hid
        next heq =>
          rw [if_pos heq, hq t t' ht']
          exact h st₀ hst₀ t ht ((StudentUpdate.apply_id ht').symm.trans hid)
        next hne =>
          rw [if_neg hne]
          exact h st₀ hst₀ t₁ ht₁ hid
  | remove => exact h st₀ hst₀ st (List.mem_filter.mp hst).1 hid

theorem Alters.next_le {q : Query} {r : Reply} {T : Students} {m : ObjectId}
    (ha : Alters E s q r T m) : s.nextStudent ≤ m := by
  cases ha with
  | add => exact Nat.le_succ _
  | _ => exact le_rfl

/-- The `_id`s after a call that adds no record, or that removes none. -/
theorem Alters.ids {q : Query} {r : Reply} {T : Students} {m : ObjectId}
    (ha : Alters E s q r T m) :
    ((∀ info, q ≠ .addStudent info) → ∀ st ∈ T, ∃ st₀ ∈ s.students, st₀._id = st._id) ∧
      ((∀ id, q ≠ .removeStudent id) → ∀ st₀ ∈ s.students, ∃ st ∈ T, st._id = st₀._id) := by
  cases ha with
  | read => exact ⟨fun _ st hst => ⟨st, hst, rfl⟩, fun _ st hst => ⟨st, hst, rfl⟩⟩
  | @add info st S hcast hins =>
      refine ⟨fun h => absurd rfl (h info), fun _ t ht => ⟨t, ?_, rfl⟩⟩
      rw [(Students.insert_eq_some hins).2]
      exact List.mem_append_left _ ht
  | appear hst =>
      constructor
      · intro _ t ht
        obtain ⟨t', ht', rfl⟩ := List.mem_map.mp ht
        refine ⟨t', ht', ?_⟩
        split <;> rfl
      · intro _ t ht
        refine ⟨_, List.mem_map_of_mem ht, ?_⟩
        split <;> rfl
  | @save id u S hS =>
      rcases Students.update_eq_some hS with ⟨rfl, -⟩ | ⟨st, hst, hid, st', hst', -, rfl⟩
      · exact ⟨fun _ st hst => ⟨st, hst, rfl⟩, fun _ st hst => ⟨st, hst, rfl⟩⟩
      · have hid' : st'._id = id := (StudentUpdate.apply_id hst').trans hid
        constructor
        · intro _ t ht
          obtain ⟨t', ht', rfl⟩ := List.mem_map.mp ht
          refine ⟨t', ht', ?_⟩
          split
          next heq => rw [hid', heq]
          next => rfl
        · intro _ t ht
          refine ⟨_, List.mem_map_of_mem ht, ?_⟩
          split
          next heq => rw [hid', heq]
          next => rfl
  | @remove id =>
      refine ⟨fun _ t ht => ⟨t, (List.mem_filter.mp ht).1, rfl⟩, fun h => absurd rfl (h id)⟩

end Server

end SchuleAlsStaat
