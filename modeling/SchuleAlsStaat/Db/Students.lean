import Mathlib.Data.List.Pairwise
import SchuleAlsStaat.Db.Transactions

/-!
# The students collection

`studentSchema` of `db/students.js`.  The collection is a list in natural
order.  Its `qrid` index is unique, so an insert or an update that would make
two records share a `qrid` fails.  The index takes a missing value for `null`.
-/

namespace SchuleAlsStaat

open Js (Json JsVal)

/-- An element of `appear`: a checkin or a checkout. -/
structure Appear where
  type : String
  time : Time
deriving DecidableEq, Repr

structure Student where
  _id : ObjectId
  qrid : Text
  firstname : Option String
  lastname : Option String
  picname : Option String
  country : Option String
  birth : Option Time
  type : Option String
  special_name : Option String
  appear : List Appear
  pwdhash : Option String
  pwdsalt : Option String
deriving DecidableEq, Repr

/-- The keys that `profile_edit` may change. -/
inductive ProfileKey where
  | firstname
  | lastname
  | qrid
  | picname
  | birth
  | type
  | special_name
  | country
deriving DecidableEq, Repr

/-- The list `allow_edit`. -/
def ProfileKey.ofString : String → Option ProfileKey
  | "firstname" => some .firstname
  | "lastname" => some .lastname
  | "qrid" => some .qrid
  | "picname" => some .picname
  | "birth" => some .birth
  | "type" => some .type
  | "special_name" => some .special_name
  | "country" => some .country
  | _ => none

/-- `st[key]`. -/
def Student.get (st : Student) : ProfileKey → Option String
  | .firstname => st.firstname
  | .lastname => st.lastname
  | .qrid => st.qrid.toOption
  | .picname => st.picname
  | .birth => st.birth.map fun t => toString t
  | .type => st.type
  | .special_name => st.special_name
  | .country => st.country

/-- A change that `save` writes to a record. -/
inductive StudentUpdate where
  | profile (key : ProfileKey) (value : JsVal)
  | password (hash salt : String)

/-- The update applied to a record, if its value can be cast. -/
def StudentUpdate.apply (C : Casts) (st : Student) : StudentUpdate → Option Student
  | .profile .firstname v => (C.castString v).map fun s => { st with firstname := s.toOption }
  | .profile .lastname v => (C.castString v).map fun s => { st with lastname := s.toOption }
  | .profile .qrid v => (C.castString v).map fun s => { st with qrid := s }
  | .profile .picname v => (C.castString v).map fun s => { st with picname := s.toOption }
  | .profile .birth v => (C.castDate v).map fun t => { st with birth := t }
  | .profile .type v => (C.castString v).map fun s => { st with type := s.toOption }
  | .profile .special_name v =>
      (C.castString v).map fun s => { st with special_name := s.toOption }
  | .profile .country v => (C.castString v).map fun s => { st with country := s.toOption }
  | .password hash salt => some { st with pwdhash := some hash, pwdsalt := some salt }

abbrev Students := List Student

namespace Students

/-- No other record has this `qrid`. -/
def free (S : Students) (id : ObjectId) (qrid : Text) : Bool :=
  S.all fun st => st._id = id || st.qrid.toOption ≠ qrid.toOption

/-- An insert, which the unique index may reject. -/
def insert (S : Students) (st : Student) : Option Students :=
  if S.free st._id st.qrid then some (S ++ [st]) else none

/-- The record `id` is replaced by `f` of it.  A record that is gone is left
alone, and the unique index may reject the result. -/
def update (S : Students) (id : ObjectId) (f : Student → Option Student) : Option Students :=
  match S.find? fun st => st._id = id with
  | none => some S
  | some st => (f st).bind fun st' =>
      if S.free id st'.qrid then some (S.map fun t => if t._id = id then st' else t) else none

def remove (S : Students) (id : ObjectId) : Students := S.filter fun st => st._id ≠ id

/-! ## The indexes -/

/-- No two records share an `_id` or a `qrid`. -/
structure Unique (S : Students) : Prop where
  ids : S.Pairwise fun a b => a._id ≠ b._id
  qrids : S.Pairwise fun a b => a.qrid.toOption ≠ b.qrid.toOption

theorem free_iff {S : Students} {id : ObjectId} {qrid : Text} :
    S.free id qrid = true ↔ ∀ st ∈ S, st._id ≠ id → st.qrid.toOption ≠ qrid.toOption := by
  simp only [free, List.all_eq_true, Bool.or_eq_true, decide_eq_true_eq, ne_eq]
  exact forall₂_congr fun st _ => Decidable.or_iff_not_imp_left

theorem insert_eq_some {S T : Students} {st : Student} (h : S.insert st = some T) :
    S.free st._id st.qrid = true ∧ T = S ++ [st] := by
  rw [insert] at h
  split at h
  next hfree =>
    cases h
    exact ⟨hfree, rfl⟩
  next => cases h

theorem update_eq_some {S S' : Students} {id : ObjectId} {f : Student → Option Student}
    (h : S.update id f = some S') :
    (S' = S ∧ ∀ st ∈ S, st._id ≠ id) ∨
      ∃ st ∈ S, st._id = id ∧ ∃ st', f st = some st' ∧
        (∀ t ∈ S, t._id ≠ id → t.qrid.toOption ≠ st'.qrid.toOption) ∧
        S' = S.map fun t => if t._id = id then st' else t := by
  rw [update] at h
  split at h
  next hfind =>
    cases h
    refine .inl ⟨rfl, fun st hst => ?_⟩
    simpa using List.find?_eq_none.mp hfind st hst
  next st hfind =>
    obtain ⟨st', hf, h⟩ := Option.bind_eq_some_iff.mp h
    split at h
    next hfree =>
      cases h
      exact .inr ⟨st, List.mem_of_find?_eq_some hfind, by simpa using List.find?_some hfind,
        st', hf, free_iff.mp hfree, rfl⟩
    next => cases h

namespace Unique

variable {S S' : Students}

/-- Two records of one collection with one `_id` are the same. -/
theorem eq_of_id (h : S.Unique) {a b : Student} (ha : a ∈ S) (hb : b ∈ S)
    (hid : a._id = b._id) : a = b := by
  by_contra hne
  have : Std.Symm fun a b : Student => a._id ≠ b._id := ⟨fun _ _ => Ne.symm⟩
  exact h.ids.forall ha hb hne hid

/-- The same for one `qrid`. -/
theorem eq_of_qrid (h : S.Unique) {a b : Student} (ha : a ∈ S) (hb : b ∈ S)
    (hqrid : a.qrid.toOption = b.qrid.toOption) : a = b := by
  by_contra hne
  have : Std.Symm fun a b : Student => a.qrid.toOption ≠ b.qrid.toOption := ⟨fun _ _ => Ne.symm⟩
  exact h.qrids.forall ha hb hne hqrid

theorem remove (h : S.Unique) (id : ObjectId) : (S.remove id).Unique :=
  ⟨h.ids.filter _, h.qrids.filter _⟩

theorem insert (h : S.Unique) {st : Student} (fresh : ∀ t ∈ S, t._id ≠ st._id)
    (hins : S.insert st = some S') : S'.Unique := by
  obtain ⟨hfree, rfl⟩ := insert_eq_some hins
  constructor
  · rw [List.pairwise_append]
    refine ⟨h.ids, List.pairwise_singleton .., fun a ha b hb => ?_⟩
    rw [List.mem_singleton.mp hb]
    exact fresh a ha
  · rw [List.pairwise_append]
    refine ⟨h.qrids, List.pairwise_singleton .., fun a ha b hb => ?_⟩
    rw [List.mem_singleton.mp hb]
    exact free_iff.mp hfree a ha (fresh a ha)

/-- A change of fields other than `qrid` and `_id`, which no index rejects. -/
theorem map (h : S.Unique) {f : Student → Student}
    (hf : ∀ t, (f t)._id = t._id ∧ (f t).qrid = t.qrid) : Students.Unique (S.map f) := by
  constructor
  · rw [List.pairwise_map]
    exact h.ids.imp fun hne => by rwa [(hf _).1, (hf _).1]
  · rw [List.pairwise_map]
    exact h.qrids.imp fun hne => by rwa [(hf _).2, (hf _).2]

theorem update (h : S.Unique) {id : ObjectId} {f : Student → Option Student}
    (hf : ∀ st st', f st = some st' → st'._id = st._id)
    (hupd : S.update id f = some S') : S'.Unique := by
  rcases update_eq_some hupd with ⟨rfl, -⟩ | ⟨st, hst, hid, st', hst', hfree, rfl⟩
  · exact h
  · have hid' : st'._id = id := (hf st st' hst').trans hid
    constructor
    · rw [List.pairwise_map]
      refine h.ids.imp fun {a b} hne => ?_
      by_cases ha : a._id = id <;> by_cases hb : b._id = id
      · exact absurd (ha.trans hb.symm) hne
      · rw [if_pos ha, if_neg hb, hid']
        exact Ne.symm hb
      · rw [if_neg ha, if_pos hb, hid']
        exact ha
      · rwa [if_neg ha, if_neg hb]
    · rw [List.pairwise_map]
      refine (h.ids.and h.qrids).imp_of_mem fun {a b} hma hmb hne => ?_
      by_cases ha : a._id = id <;> by_cases hb : b._id = id
      · exact absurd (ha.trans hb.symm) hne.1
      · rw [if_pos ha, if_neg hb]
        exact (hfree b hmb hb).symm
      · rw [if_neg ha, if_pos hb]
        exact hfree a hma ha
      · rw [if_neg ha, if_neg hb]
        exact hne.2

end Unique

end Students

/-- A record with a new password. -/
def Student.setPassword (st : Student) (hash salt : String) : Student :=
  { st with pwdhash := some hash, pwdsalt := some salt }

/-- No index rejects a new password. -/
theorem Students.Unique.update_password {S : Students} (h : S.Unique) (id : ObjectId)
    (hash salt : String) (C : Casts) :
    S.update id ((StudentUpdate.password hash salt).apply C) =
      some (S.map fun t => if t._id = id then t.setPassword hash salt else t) := by
  rw [Students.update]
  cases hfind : S.find? fun st => st._id = id with
  | none =>
      have hno : ∀ t ∈ S, t._id ≠ id := fun t ht => by
        simpa using List.find?_eq_none.mp hfind t ht
      have hmap : (S.map fun t => if t._id = id then t.setPassword hash salt else t) =
          S.map fun t => t := List.map_congr_left fun t ht => if_neg (hno t ht)
      rw [hmap, List.map_id']
  | some st =>
      have hst : st ∈ S := List.mem_of_find?_eq_some hfind
      have hid : st._id = id := by simpa using List.find?_some hfind
      have hfree : S.free id st.qrid = true := by
        rw [free_iff]
        intro t ht hne hqrid
        exact hne ((congrArg Student._id (h.eq_of_qrid ht hst hqrid)).trans hid)
      simp only [StudentUpdate.apply, Option.bind_some, hfree, if_true]
      refine congrArg some (List.map_congr_left fun t ht => ?_)
      split
      next heq => rw [h.eq_of_id ht hst (heq.trans hid.symm), Student.setPassword]
      next => rfl

/-- No update changes the `_id`. -/
theorem StudentUpdate.apply_id {C : Casts} {u : StudentUpdate}
    {st st' : Student} (h : u.apply C st = some st') : st'._id = st._id := by
  cases u with
  | profile key value =>
      cases key <;> (obtain ⟨v, -, rfl⟩ := Option.map_eq_some_iff.mp h; rfl)
  | password hash salt =>
      cases h
      rfl

/-- An update of an updated record changes nothing more. -/
theorem StudentUpdate.apply_idem {C : Casts} {u : StudentUpdate}
    {st st' : Student} (h : u.apply C st = some st') :
    u.apply C st' = some st' := by
  cases u with
  | profile key value =>
      cases key <;>
        (obtain ⟨v, hv, rfl⟩ := Option.map_eq_some_iff.mp h
         exact Option.map_eq_some_iff.mpr ⟨v, hv, rfl⟩)
  | password hash salt =>
      cases h
      rfl

end SchuleAlsStaat
