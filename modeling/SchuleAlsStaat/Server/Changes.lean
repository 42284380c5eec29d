import SchuleAlsStaat.Db.Config
import SchuleAlsStaat.Server.Model

/-!
# Changes of the database

The actions `profile_edit`, `student_delete`, `password_change`,
`password_change_master`, `config_set`, `config_del` and `transaction_delete`
each start one write to the database and answer at once.  The write has no
callback.  `handle` runs one such request on a database, for given outcomes of
its lookup and of its write, and `reliable_iff` says when its answer tells what
became of the change.
-/

namespace SchuleAlsStaat

open Js (Exn JsVal JS)

namespace Changes

/-! ## The database -/

/-- The collections that the actions change. -/
structure Collections where
  students : Students
  transactions : List (ObjectId × Booking)
  configs : ConfigLog

/-- The students obey the unique indexes. -/
structure Database extends Collections where
  unique : students.Unique

variable (E : Ext)

/-- A write without a callback at time `now`, which the schema or an index may
reject. -/
def Collections.write (now : Time) (db : Collections) : Query → Option Collections
  | .saveStudent id u => (db.students.update id (u.apply E.toCasts)).map fun S =>
      { db with students := S }
  | .removeStudent id => some { db with students := db.students.remove id }
  | .removeTransaction id => some { db with
      transactions := db.transactions.filter fun tr => tr.1 ≠ id }
  | .setConfig key value => (ConfigEntry.cast E.toCasts key value now).map fun e =>
      { db with configs := db.configs ++ [e] }
  | _ => none

theorem Collections.write_unique {now : Time} {db db' : Collections} {q : Query}
    (hu : db.students.Unique) (h : db.write E now q = some db') : db'.students.Unique := by
  cases q with
  | saveStudent id u =>
      obtain ⟨S, hS, rfl⟩ := Option.map_eq_some_iff.mp h
      exact hu.update (fun _ _ => StudentUpdate.apply_id) hS
  | removeStudent id =>
      cases h
      exact hu.remove id
  | removeTransaction id =>
      cases h
      exact hu
  | setConfig key value =>
      obtain ⟨e, -, rfl⟩ := Option.map_eq_some_iff.mp h
      exact hu
  | _ => cases h

def Database.write (now : Time) (db : Database) (q : Query) : Option Database :=
  match h : db.toCollections.write E now q with
  | none => none
  | some db' => some ⟨db', Collections.write_unique E db.unique h⟩

/-- The database after a write, with the outcome `ok` of the write itself. -/
def Database.commit (now : Time) (ok : Bool) (db : Database) (q : Query) : Database :=
  if ok then (db.write E now q).getD db else db

/-- The outcomes of the calls of a request. -/
structure Outcome where
  lookup : Bool
  write : Bool

/-- What a lookup passes to its callback.  `none` for an error. -/
def Database.lookup (db : Database) (ok : Bool) : Query → Option Reply
  | .student _ qrid _ => if ok then some (.student (db.students.findOne E qrid)) else none
  | .transaction id => if ok then
      some (.transaction ((db.transactions.find? fun tr => tr.1 = id).map Prod.snd)) else none
  | _ => none

/-! ## Requests -/

/-- The actions that change the database and answer "ok". -/
inductive Mutation where
  | profile_edit
  | student_delete
  | password_change
  | password_change_master
  | config_set
  | config_del
  | transaction_delete
deriving DecidableEq, Repr

def Mutation.action : Mutation → ActionName
  | .profile_edit => .profile_edit
  | .student_delete => .student_delete
  | .password_change => .password_change
  | .password_change_master => .password_change_master
  | .config_set => .config_set
  | .config_del => .config_del
  | .transaction_delete => .transaction_delete

variable (env : Env) (client : Client) (payload : JsVal)

/-- The call of the action by `prepare_action`. -/
def request (m : Mutation) : Code :=
  JS.tryCatch (m.action.run E env client payload) fun e => answer client (.error e)

/-- A lookup is followed by its callback. -/
def follow (db : Database) (ok : Bool) : Act → List Act
  | .query client q =>
      if q.hasCallback then match db.lookup E ok q with
        | some r => (onReply E env client q r).acts
        | none => [.answer client (.dbError q.component)]
      else [.query client q]
  | a => [a]

def settle (now : Time) (ok : Bool) : Database × List Answer → Act → Database × List Answer
  | (db, answers), .answer _ m => (db, answers ++ [m])
  | (db, answers), .query _ q => (db.commit E now ok q, answers)
  | s, _ => s

def settleAll (now : Time) (ok : Bool) (db : Database) (acts : List Act) :
    Database × List Answer :=
  acts.foldl (settle E now ok) (db, [])

/-- The database and the answers after a request. -/
def handle (db : Database) (out : Outcome) (m : Mutation) : Database × List Answer :=
  settleAll E env.now out.write db
    ((request E env client payload m).acts.flatMap (follow E env db out.lookup))

/-! ## What an answer says -/

/-- The own property, `undefined` where reading it throws. -/
def get (key : String) (v : JsVal) : JsVal :=
  match v.prop key with
  | .ok v => v
  | .error _ => none

theorem prop_eq_get {v w : JsVal} {key : String} (h : v.prop key = .ok w) (key' : String) :
    v.prop key' = .ok (get key' v) := by
  cases v with
  | none => cases h
  | some v => cases v <;> first | rfl | cases h

/-- The record whose QR-ID the payload holds. -/
def named (db : Database) : Option Student :=
  match payload.prop "qrid" with
  | .ok qrid => db.students.findOne E qrid
  | .error _ => none

/-- The change that a request asks for. -/
def requested (db : Database) : Mutation → Option Query
  | .profile_edit => do
      let st ← named E payload db
      let key ← allowEdit (get "prop" payload)
      return .saveStudent st._id (.profile key (get "value" payload))
  | .student_delete => (db.students.findOne E payload).map fun st => .removeStudent st._id
  | .password_change | .password_change_master => do
      let st ← named E payload db
      let hash ← (generate_pwdhash E env (get "password" payload)).toOption
      return .saveStudent st._id (.password hash env.pwdsalt)
  | .config_set => some (.setConfig (get "key" payload) (get "value" payload))
  | .config_del => some (.setConfig payload (some .null))
  | .transaction_delete => (E.objectId payload).toOption.map .removeTransaction

/-- The change is in the database. -/
def Database.Has (now : Time) (db : Database) : Query → Prop
  | .saveStudent id u =>
      ∃ st ∈ db.students, st._id = id ∧ u.apply E.toCasts st = some st
  | .removeStudent id => ∀ st ∈ db.students, st._id ≠ id
  | .removeTransaction id => ∀ tr ∈ db.transactions, tr.1 ≠ id
  | .setConfig key value => ∃ e ∈ db.configs, ConfigEntry.cast E.toCasts key value now = some e
  | _ => False

/-- The answer refuses the request or reports an error. -/
def refuses : Answer → Bool
  | .text s => s ≠ "ok"
  | .error _ => true
  | .dbError _ => true
  | _ => false

/-- "ok" is answered only if the requested change is in the database, and
otherwise the database is as before and an error is answered. -/
def Reliable (now : Time) (db : Database) (q : Option Query) (r : Database × List Answer) : Prop :=
  ((∃ m ∈ r.2, m.isText "ok") → ∃ c, q = some c ∧ r.1.Has E now c) ∧
    ((¬ ∃ m ∈ r.2, m.isText "ok") → r.1 = db ∧ ∃ m ∈ r.2, refuses m)

/-- The database holds the change already, or it accepts the write. -/
def Accepted (now : Time) (db : Database) (ok : Bool) (q : Query) : Prop :=
  db.Has E now q ∨ ok ∧ (db.write E now q).isSome

/-- The condition under which the answer to a request is reliable. -/
def Fulfilled (db : Database) (out : Outcome) : Mutation → Prop
  | .profile_edit => ∀ st, out.lookup → named E payload db = some st →
      match allowEdit (get "prop" payload) with
      | none => (get "prop" payload).hasStr
      | some key => (get "value" payload).hasStr ∧
          Accepted E env.now db out.write (.saveStudent st._id (.profile key (get "value" payload)))
  | .student_delete => ∀ st, out.lookup → db.students.findOne E payload = some st →
      Accepted E env.now db out.write (.removeStudent st._id)
  | .password_change => ∀ st, out.lookup → named E payload db = some st →
      ∃ b, check_password E st (get "old_password" payload) = .ok b ∧
        (b → ∃ hash, generate_pwdhash E env (get "password" payload) = .ok hash ∧
          Accepted E env.now db out.write (.saveStudent st._id (.password hash env.pwdsalt)))
  | .password_change_master => ∀ st, out.lookup → named E payload db = some st →
      ∃ hash, generate_pwdhash E env (get "password" payload) = .ok hash ∧
        Accepted E env.now db out.write (.saveStudent st._id (.password hash env.pwdsalt))
  | .config_set => ∀ key, payload.prop "key" = .ok key →
      Accepted E env.now db out.write (.setConfig key (get "value" payload))
  | .config_del =>
      if payload.hasStr then Accepted E env.now db out.write (.setConfig payload (some .null))
      else ¬ (out.write ∧ (db.write E env.now (.setConfig payload (some .null))).isSome)
  | .transaction_delete => ∀ id, E.objectId payload = .ok id → out.lookup →
      (∃ tr ∈ db.transactions, tr.1 = id) →
        Accepted E env.now db out.write (.removeTransaction id)

/-! ## Writes -/

section Writes

variable {E} {db db' : Database} {q : Query} {now : Time} {ok : Bool}

theorem Database.write_eq_some (h : db.write E now q = some db') :
    db.toCollections.write E now q = some db'.toCollections := by
  rw [write] at h
  split at h
  next => cases h
  next c hc =>
    cases h
    exact hc

/-- The record that an update is for is in the database. -/
def Database.Knows (db : Database) : Query → Prop
  | .saveStudent id _ => ∃ st ∈ db.students, st._id = id
  | _ => True

/-- An accepted write makes its change. -/
theorem Database.has_of_write (hk : db.Knows q) (h : db.write E now q = some db') :
    db'.Has E now q := by
  have hw := write_eq_some h
  cases q with
  | saveStudent id u =>
      obtain ⟨S, hS, hdb⟩ := Option.map_eq_some_iff.mp hw
      have hdb' : db'.students = S := by rw [← hdb]
      obtain ⟨st, hst, hid⟩ := hk
      rcases Students.update_eq_some hS with ⟨-, hno⟩ | ⟨t, ht, htid, t', ht', -, hmap⟩
      · exact absurd hid (hno st hst)
      · refine ⟨t', ?_, (StudentUpdate.apply_id ht').trans htid, StudentUpdate.apply_idem ht'⟩
        rw [hdb', hmap]
        exact List.mem_map.mpr ⟨t, ht, if_pos htid⟩
  | removeStudent id =>
      have hdb' : db'.students = db.students.remove id := by
        rw [← Option.some.inj hw]
      intro st hst
      rw [hdb'] at hst
      simpa using (List.mem_filter.mp hst).2
  | removeTransaction id =>
      have hdb' : db'.transactions = db.transactions.filter fun tr => tr.1 ≠ id := by
        rw [← Option.some.inj hw]
      intro tr htr
      rw [hdb'] at htr
      simpa using (List.mem_filter.mp htr).2
  | setConfig key value =>
      obtain ⟨e, he, hdb⟩ := Option.map_eq_some_iff.mp hw
      refine ⟨e, ?_, he⟩
      rw [← hdb]
      exact List.mem_append_right _ (List.mem_singleton_self e)
  | _ => cases hw

theorem Database.commit_of_rejected (h : ¬ (ok ∧ (db.write E now q).isSome)) :
    db.commit E now ok q = db := by
  rw [commit]
  split
  next hok =>
    cases hw : db.write E now q with
    | none => rfl
    | some db' => exact absurd ⟨hok, by rw [hw]; rfl⟩ h
  next => rfl

/-- The change is in the database afterwards iff it was there or the write is
accepted. -/
theorem Database.has_commit_iff (hk : db.Knows q) :
    (db.commit E now ok q).Has E now q ↔ Accepted E now db ok q := by
  by_cases h : ok ∧ (db.write E now q).isSome
  · obtain ⟨hok, hsome⟩ := h
    obtain ⟨db', hw⟩ := Option.isSome_iff_exists.mp hsome
    have hcommit : db.commit E now ok q = db' := by
      rw [commit, if_pos hok, hw]
      rfl
    rw [hcommit]
    exact ⟨fun _ => .inr ⟨hok, hsome⟩, fun _ => has_of_write hk hw⟩
  · rw [commit_of_rejected h, Accepted]
    exact ⟨.inl, fun h' => h'.resolve_right h⟩

end Writes

/-! ## Answers -/

section Reliable

variable {E} {db : Database} {q : Option Query} {now : Time} {ok : Bool} {client}

theorem not_ok_of_refuses {m : Answer} (h : refuses m = true) : ¬ m.isText "ok" := by
  cases m <;> simp_all [refuses, Answer.isText]

theorem reliable_refused {m : Answer} (h : refuses m = true) :
    Reliable E now db q (settleAll E now ok db [.answer client m]) := by
  have hacts : settleAll E now ok db [.answer client m] = (db, [m]) := rfl
  rw [hacts]
  constructor
  · rintro ⟨m', hm', hok⟩
    rw [List.mem_singleton.mp hm'] at hok
    exact absurd hok (not_ok_of_refuses h)
  · intro _
    exact ⟨rfl, m, List.mem_singleton_self m, h⟩

/-- A callback that throws before it answers. -/
theorem not_reliable_silent : ¬ Reliable E now db q (settleAll E now ok db []) := by
  intro h
  obtain ⟨-, m, hm, -⟩ := h.2 fun ⟨m, hm, _⟩ => List.not_mem_nil hm
  exact List.not_mem_nil hm

/-- A write that is followed by "ok", and perhaps by other answers. -/
theorem reliable_done_iff {c : Query} {acts : List Act} (hk : db.Knows c)
    (hacts : ∀ a ∈ acts, ∃ m, a = .answer client m) :
    Reliable E now db (some c)
        (settleAll E now ok db (.query client c :: .answer client .ok :: acts)) ↔
      Accepted E now db ok c := by
  have hrun : ∀ ms, ∃ ms', acts.foldl (settle E now ok) (db.commit E now ok c, ms) =
      (db.commit E now ok c, ms ++ ms') := by
    induction acts with
    | nil => exact fun ms => ⟨[], by rw [List.append_nil]; rfl⟩
    | cons a acts ih =>
        intro ms
        obtain ⟨m, rfl⟩ := hacts a (List.mem_cons_self ..)
        obtain ⟨ms', hms'⟩ := ih (fun a ha => hacts a (List.mem_cons_of_mem _ ha)) (ms ++ [m])
        exact ⟨m :: ms', by rw [List.foldl_cons]; exact hms'.trans (by simp)⟩
  obtain ⟨ms, hms⟩ := hrun [.ok]
  have hsettle : settleAll E now ok db (.query client c :: .answer client .ok :: acts) =
      (db.commit E now ok c, [.ok] ++ ms) := hms
  rw [hsettle, ← Database.has_commit_iff hk, Reliable]
  have hok : ∃ m ∈ [Answer.ok] ++ ms, m.isText "ok" :=
    ⟨.ok, List.mem_append_left _ (List.mem_singleton_self _), by decide⟩
  constructor
  · intro h
    obtain ⟨c', hc', hhas⟩ := h.1 hok
    cases hc'
    exact hhas
  · intro h
    exact ⟨fun _ => ⟨c, rfl, h⟩, fun hno => absurd hok hno⟩

end Reliable

/-! ## Requests on a student -/

section Lookup

variable {E env client payload} {db : Database} {out : Outcome} {m : Mutation}

theorem reliable_request {acts : List Act} {q : Option Query}
    (h : (request E env client payload m).acts = acts) :
    Reliable E env.now db q (handle E env client payload db out m) ↔
      Reliable E env.now db q
        (settleAll E env.now out.write db (acts.flatMap (follow E env db out.lookup))) := by
  rw [handle, h]

/-- A request that looks up a student.  Its callback refuses when there is no
such student. -/
theorem reliable_student {component : String} {v : JsVal} (cb : StudentCb) {q : Option Query}
    {text : String}
    (hreq : (request E env client payload m).acts =
      [.query client (.student component v cb)])
    (hnone : (onStudent E env client none cb).acts = [.answer client (.text text)])
    (htext : text ≠ "ok") :
    Reliable E env.now db q (handle E env client payload db out m) ↔
      ∀ st, out.lookup → db.students.findOne E v = some st →
        Reliable E env.now db q
          (settleAll E env.now out.write db (onStudent E env client (some st) cb).acts) := by
  rw [reliable_request hreq, List.flatMap_singleton]
  cases hl : out.lookup with
  | false =>
      have hfollow : follow E env db false (.query client (.student component v cb)) =
          [.answer client (.dbError component)] := rfl
      rw [hfollow]
      exact ⟨fun _ st h => absurd h (by decide), fun _ => reliable_refused rfl⟩
  | true =>
      have hfollow : follow E env db true (.query client (.student component v cb)) =
          (onStudent E env client (db.students.findOne E v) cb).acts := rfl
      rw [hfollow]
      cases hfind : db.students.findOne E v with
      | none =>
          rw [hnone]
          refine ⟨fun _ st _ h => (Option.some_ne_none st h.symm).elim, fun _ => ?_⟩
          exact reliable_refused (by simpa [refuses] using htext)
      | some st =>
          constructor
          · intro h st' _ hst'
            cases hst'
            exact h
          · intro h
            exact h st rfl rfl

/-- The same for a student whose QR-ID the payload holds. -/
theorem reliable_named (cb : StudentCb) {q : Option Query} {text : String}
    (hrun : m.action.run E env client payload = do
      getByQrid client (← JS.lift (payload.prop "qrid")) cb)
    (hnone : (onStudent E env client none cb).acts = [.answer client (.text text)])
    (htext : text ≠ "ok") :
    Reliable E env.now db q (handle E env client payload db out m) ↔
      ∀ st, out.lookup → named E payload db = some st →
        Reliable E env.now db q
          (settleAll E env.now out.write db (onStudent E env client (some st) cb).acts) := by
  rw [named]
  cases hq : payload.prop "qrid" with
  | error e =>
      have hreq : (request E env client payload m).acts = [.answer client (.error e)] := by
        rw [request, hrun, hq]
        exact answer_acts client (.error e)
      rw [reliable_request hreq]
      exact ⟨fun _ st _ h => (Option.some_ne_none st h.symm).elim, fun _ => reliable_refused rfl⟩
  | ok qrid =>
      have hreq : (request E env client payload m).acts =
          [.query client (.student "stdb.getByQrid" qrid cb)] := by
        rw [request, hrun, hq]
        rfl
      exact reliable_student cb hreq hnone htext

end Lookup

/-! ## The actions -/

section Actions

variable {E env client payload} {db : Database} {out : Outcome} {st : Student}

theorem mem_of_findOne {S : Students} {v : JsVal} (h : S.findOne E v = some st) : st ∈ S :=
  List.mem_of_find?_eq_some h

theorem mem_of_named (h : named E payload db = some st) : st ∈ db.students := by
  rw [named] at h
  split at h
  next => exact mem_of_findOne h
  next => cases h

/-- Where a record is named, the properties of the payload can be read. -/
theorem prop_of_named (h : named E payload db = some st) (key : String) :
    payload.prop key = .ok (get key payload) := by
  rw [named] at h
  split at h
  next hq => exact prop_eq_get hq key
  next => cases h

theorem knows_of_named (h : named E payload db = some st) (u : StudentUpdate) :
    db.Knows (.saveStudent st._id u) :=
  ⟨st, mem_of_named h, rfl⟩

theorem requested_profile_edit {key : ProfileKey} (hst : named E payload db = some st)
    (hkey : allowEdit (get "prop" payload) = some key) :
    requested E env payload db .profile_edit =
      some (.saveStudent st._id (.profile key (get "value" payload))) := by
  rw [requested, hst, hkey]
  rfl

theorem profile_edit_iff :
    Reliable E env.now db (requested E env payload db .profile_edit)
        (handle E env client payload db out .profile_edit) ↔
      Fulfilled E env payload db out .profile_edit := by
  rw [reliable_named (.profile_edit payload) rfl rfl (by decide)]
  refine forall₃_congr fun st _ hst => ?_
  rw [onStudent, profile_edit_cb, prop_of_named hst "prop", prop_of_named hst "value"]
  simp only [JS.lift_ok_bind]
  cases hkey : allowEdit (get "prop" payload) with
  | none =>
      cases hstr : (get "prop" payload).toStr with
      | error e =>
          simp only [JS.str, hstr, JS.lift_error_bind, JS.throw_acts, JsVal.hasStr]
          exact ⟨fun h => absurd h not_reliable_silent, fun h => by cases h⟩
      | ok s =>
          simp only [JS.str, hstr, JS.lift_ok_bind, answer_acts, JsVal.hasStr]
          refine ⟨fun _ => rfl, fun _ => reliable_refused ?_⟩
          have hne : "error: not allowed to edit " ++ s ≠ "ok" := by
            intro h
            have hlist := congrArg String.toList h
            rw [String.toList_append] at hlist
            exact absurd (congrArg (·.head?) hlist) (by simp)
          simpa [refuses] using hne
  | some key =>
      rw [requested_profile_edit hst hkey]
      cases hstr : (get "value" payload).toStr with
      | error e =>
          simp only [info, JS.str, hstr, JS.lift_error_bind, JS.throw_bind, JS.throw_acts,
            JsVal.hasStr]
          exact ⟨fun h => absurd h not_reliable_silent, fun h => by cases h.1⟩
      | ok s =>
          simp only [info, JS.str, hstr, JS.lift_ok_bind, JS.pure_bind', query, JS.act_bind_acts,
            answer_acts, JsVal.hasStr]
          rw [reliable_done_iff (knows_of_named hst _) fun a ha => absurd ha List.not_mem_nil]
          exact ⟨fun h => ⟨rfl, h⟩, fun h => h.2⟩

theorem student_delete_iff :
    Reliable E env.now db (requested E env payload db .student_delete)
        (handle E env client payload db out .student_delete) ↔
      Fulfilled E env payload db out .student_delete := by
  rw [reliable_student .student_delete rfl rfl (by decide)]
  refine forall₃_congr fun st _ hst => ?_
  rw [requested, hst]
  exact reliable_done_iff trivial fun a ha => absurd ha List.not_mem_nil

theorem requested_password {hash : String} (hst : named E payload db = some st)
    (hhash : generate_pwdhash E env (get "password" payload) = .ok hash) :
    requested E env payload db .password_change_master =
      some (.saveStudent st._id (.password hash env.pwdsalt)) := by
  rw [requested, hst, hhash]
  rfl

/-- The end of both changes of a password. -/
theorem change_password_iff {code : Code} (hst : named E payload db = some st)
    (hcode : code = do
      change_password E env client st (← JS.lift (payload.prop "password"))
      answer client .ok) :
    Reliable E env.now db (requested E env payload db .password_change_master)
        (settleAll E env.now out.write db code.acts) ↔
      ∃ hash, generate_pwdhash E env (get "password" payload) = .ok hash ∧
        Accepted E env.now db out.write (.saveStudent st._id (.password hash env.pwdsalt)) := by
  rw [hcode, prop_of_named hst "password", JS.lift_ok_bind, change_password]
  cases hhash : generate_pwdhash E env (get "password" payload) with
  | error e =>
      refine ⟨fun h => absurd h not_reliable_silent, ?_⟩
      rintro ⟨hash, h, -⟩
      cases h
  | ok hash =>
      rw [requested_password hst hhash]
      refine (reliable_done_iff (knows_of_named hst _) fun a ha =>
        absurd ha List.not_mem_nil).trans ?_
      constructor
      · intro h
        exact ⟨hash, rfl, h⟩
      · rintro ⟨hash', h, hacc⟩
        cases h
        exact hacc

theorem password_change_master_iff :
    Reliable E env.now db (requested E env payload db .password_change_master)
        (handle E env client payload db out .password_change_master) ↔
      Fulfilled E env payload db out .password_change_master := by
  rw [reliable_named (.password_change_master payload) rfl rfl (by decide)]
  exact forall₃_congr fun st _ hst => change_password_iff hst rfl

theorem password_change_iff :
    Reliable E env.now db (requested E env payload db .password_change)
        (handle E env client payload db out .password_change) ↔
      Fulfilled E env payload db out .password_change := by
  rw [reliable_named (.password_change payload) rfl rfl (by decide)]
  refine forall₃_congr fun st _ hst => ?_
  rw [onStudent, password_change_cb, prop_of_named hst "old_password"]
  simp only [JS.lift_ok_bind]
  cases hcheck : check_password E st (get "old_password" payload) with
  | error e =>
      refine ⟨fun h => absurd h not_reliable_silent, ?_⟩
      rintro ⟨b, h, -⟩
      cases h
  | ok b =>
      cases b with
      | false =>
          refine ⟨fun _ => ⟨false, rfl, fun h => absurd h (by decide)⟩, fun _ => ?_⟩
          exact reliable_refused rfl
      | true =>
          refine (change_password_iff hst rfl).trans ?_
          constructor
          · intro h
            exact ⟨true, rfl, fun _ => h⟩
          · rintro ⟨b, h, hacc⟩
            cases h
            exact hacc rfl

theorem config_set_iff :
    Reliable E env.now db (requested E env payload db .config_set)
        (handle E env client payload db out .config_set) ↔
      Fulfilled E env payload db out .config_set := by
  cases hkey : payload.prop "key" with
  | error e =>
      have hreq : (request E env client payload .config_set).acts = [.answer client (.error e)] := by
        rw [request, Mutation.action, ActionName.run, config_set, hkey]
        exact answer_acts client (.error e)
      rw [reliable_request hreq, Fulfilled, hkey]
      refine ⟨fun _ key h => (by cases h), fun _ => ?_⟩
      exact reliable_refused rfl
  | ok key =>
      -- the message may throw after the answer, and the exception is answered as well
      have hreq : ∃ acts, (∀ a ∈ acts, ∃ m, a = .answer client m) ∧
          (request E env client payload .config_set).acts =
            .query client (.setConfig key (get "value" payload)) :: .answer client .ok :: acts := by
        rw [request, Mutation.action, ActionName.run, config_set, hkey, prop_eq_get hkey "value"]
        simp only [info, JS.str, JS.lift_ok_bind]
        cases key.toStr with
        | error e => exact ⟨[.answer client (.error e)], by simp, rfl⟩
        | ok s =>
            cases (get "value" payload).toStr with
            | error e => exact ⟨[.answer client (.error e)], by simp, rfl⟩
            | ok s' => exact ⟨[], by simp, rfl⟩
      obtain ⟨acts, hanswers, hacts⟩ := hreq
      have hfollow : acts.flatMap (follow E env db out.lookup) = acts := by
        rw [← List.flatMap_singleton' acts, List.flatMap_assoc]
        refine List.flatMap_congr fun a ha => ?_
        obtain ⟨m, rfl⟩ := hanswers a ha
        rfl
      have hget : key = get "key" payload := by rw [get, hkey]
      rw [reliable_request hacts, List.flatMap_cons, List.flatMap_cons, hfollow, requested, ← hget]
      have hk : db.Knows (.setConfig key (get "value" payload)) := trivial
      refine (reliable_done_iff hk hanswers).trans ?_
      rw [Fulfilled, hkey]
      exact ⟨fun h key' hkey' => Except.ok.inj hkey' ▸ h, fun h => h key rfl⟩

/-- A write followed by an error is reliable if it was rejected. -/
theorem reliable_failed_iff {key value : JsVal} {e : Exn} {q : Option Query} :
    Reliable E env.now db q (settleAll E env.now out.write db
        [.query client (.setConfig key value), .answer client (.error e)]) ↔
      ¬ (out.write ∧ (db.write E env.now (.setConfig key value)).isSome) := by
  have hsettle : settleAll E env.now out.write db
      [.query client (.setConfig key value), .answer client (.error e)] =
        (db.commit E env.now out.write (.setConfig key value), [.error e]) := rfl
  rw [hsettle, Reliable]
  have hno : ¬ ∃ m ∈ [Answer.error e], m.isText "ok" := by
    rintro ⟨m, hm, hok⟩
    rw [List.mem_singleton.mp hm] at hok
    cases hok
  constructor
  · rintro ⟨-, h⟩ ⟨hok, hsome⟩
    obtain ⟨hsame, -⟩ := h hno
    obtain ⟨db', hw⟩ := Option.isSome_iff_exists.mp hsome
    rw [Database.commit, if_pos hok, hw, Option.getD_some] at hsame
    obtain ⟨entry, -, hdb⟩ := Option.map_eq_some_iff.mp (Database.write_eq_some hw)
    have hlen := congrArg (fun c : Collections => c.configs.length) hdb
    rw [show db' = db from hsame] at hlen
    simp at hlen
  · intro h
    rw [Database.commit_of_rejected h]
    exact ⟨fun hyes => absurd hyes hno, fun _ => ⟨rfl, _, List.mem_singleton_self _, rfl⟩⟩

theorem config_del_iff :
    Reliable E env.now db (requested E env payload db .config_del)
        (handle E env client payload db out .config_del) ↔
      Fulfilled E env payload db out .config_del := by
  cases hstr : payload.toStr with
  | error e =>
      have hreq : (request E env client payload .config_del).acts =
          [.query client (.setConfig payload (some .null)), .answer client (.error e)] := by
        rw [request, Mutation.action, ActionName.run, config_del, info, JS.str, hstr]
        rfl
      have hno : ¬ payload.hasStr = true := by
        rw [JsVal.hasStr, hstr]
        exact fun h => by cases h
      rw [reliable_request hreq, Fulfilled, if_neg hno]
      exact reliable_failed_iff
  | ok s =>
      have hreq : (request E env client payload .config_del).acts =
          [.query client (.setConfig payload (some .null)), .answer client .ok] := by
        rw [request, Mutation.action, ActionName.run, config_del, info, JS.str, hstr]
        rfl
      have hyes : payload.hasStr = true := by
        rw [JsVal.hasStr, hstr]
        rfl
      rw [reliable_request hreq, Fulfilled, if_pos hyes]
      have hk : db.Knows (.setConfig payload (some .null)) := trivial
      exact reliable_done_iff hk fun a ha => absurd ha List.not_mem_nil

theorem transaction_delete_iff :
    Reliable E env.now db (requested E env payload db .transaction_delete)
        (handle E env client payload db out .transaction_delete) ↔
      Fulfilled E env payload db out .transaction_delete := by
  cases hid : E.objectId payload with
  | error e =>
      have hreq : (request E env client payload .transaction_delete).acts =
          [.answer client (.error e)] := by
        rw [request, Mutation.action, ActionName.run, transaction_delete, hid]
        exact answer_acts client (.error e)
      rw [reliable_request hreq, Fulfilled, hid]
      refine ⟨fun _ id h => (by cases h), fun _ => ?_⟩
      exact reliable_refused rfl
  | ok id =>
      have hreq : (request E env client payload .transaction_delete).acts =
          [.query client (.transaction id)] := by
        rw [request, Mutation.action, ActionName.run, transaction_delete, hid]
        rfl
      rw [reliable_request hreq, List.flatMap_singleton, Fulfilled, hid]
      cases hl : out.lookup with
      | false =>
          have hfollow : follow E env db false (.query client (.transaction id)) =
              [.answer client (.dbError "trdb.getById")] := rfl
          rw [hfollow]
          refine ⟨fun _ _ _ h => (by cases h), fun _ => ?_⟩
          exact reliable_refused rfl
      | true =>
          have hfollow : follow E env db true (.query client (.transaction id)) =
              (transaction_delete_cb client id
                ((db.transactions.find? fun tr => tr.1 = id).map Prod.snd)).acts := rfl
          rw [hfollow]
          cases hfind : db.transactions.find? fun tr => tr.1 = id with
          | none =>
              refine ⟨fun _ id' hid' _ ⟨tr, htr, htid⟩ => ?_, fun _ => reliable_refused rfl⟩
              rw [List.find?_eq_none] at hfind
              exact absurd (htid.trans (Except.ok.inj hid').symm) (by simpa using hfind tr htr)
          | some tr =>
              have htr : tr ∈ db.transactions ∧ tr.1 = id :=
                ⟨List.mem_of_find?_eq_some hfind, by simpa using List.find?_some hfind⟩
              rw [requested, hid]
              have hk : db.Knows (.removeTransaction id) := trivial
              refine (reliable_done_iff hk fun a ha => absurd ha List.not_mem_nil).trans ?_
              constructor
              · intro h id' hid' _ _
                exact Except.ok.inj hid' ▸ h
              · intro h
                exact h id rfl rfl ⟨tr, htr⟩

variable (E env client payload db out) in
/-- The answer to a request tells what became of the change iff `Fulfilled`
holds of it: the change is accepted wherever the code goes on to answer "ok", and the values that
become part of a message have a string form. -/
theorem reliable_iff (m : Mutation) :
    Reliable E env.now db (requested E env payload db m)
        (handle E env client payload db out m) ↔
      Fulfilled E env payload db out m := by
  cases m with
  | profile_edit => exact profile_edit_iff
  | student_delete => exact student_delete_iff
  | password_change => exact password_change_iff
  | password_change_master => exact password_change_master_iff
  | config_set => exact config_set_iff
  | config_del => exact config_del_iff
  | transaction_delete => exact transaction_delete_iff

end Actions

section Sample

/-- Two citizens with the QR-IDs `1` and `2`. -/
def twoStudents : Database where
  students := [someStudent 1, someStudent 2]
  transactions := []
  configs := []
  unique := ⟨by decide +kernel, by decide +kernel⟩

/-- A citizen is to get the QR-ID of another one. -/
def takenQrid : JsVal :=
  some (.obj [("qrid", .str "1"), ("prop", .str "qrid"), ("value", .str "2")])

/-- The edit is answered with "ok", although the unique index rejects it. -/
theorem ok_without_change :
    ¬ ∀ (E : Ext) (env : Env) (client : Client) (payload : JsVal) (db : Database) (out : Outcome)
      (m : Mutation), Reliable E env.now db (requested E env payload db m)
        (handle E env client payload db out m) := by
  intro claim
  have h := claim .simple .start ⟨0, none⟩ takenQrid twoStudents ⟨true, true⟩ .profile_edit
  have hok : (handle .simple .start ⟨0, none⟩ takenQrid twoStudents ⟨true, true⟩
      .profile_edit).2.any (·.isText "ok") = true := by decide +kernel
  have hsame : (handle .simple .start ⟨0, none⟩ takenQrid twoStudents ⟨true, true⟩
      .profile_edit).1.students = [someStudent 1, someStudent 2] := by decide +kernel
  obtain ⟨c, hc, hhas⟩ := h.1 (by simpa using hok)
  have hrequested : requested .simple .start takenQrid twoStudents .profile_edit =
      some (.saveStudent 1 (.profile .qrid (some (.str "2")))) := rfl
  cases hrequested.symm.trans hc
  obtain ⟨st, hst, hid, happly⟩ := hhas
  rw [hsame] at hst
  have hqrid : st.qrid = .str "2" := by
    have h := congrArg (·.map Student.qrid) happly
    exact (Option.some.inj h).symm
  have hno : ∀ st ∈ [someStudent 1, someStudent 2], st._id = 1 → st.qrid ≠ .str "2" := by
    decide +kernel
  exact hno st hst hid hqrid

end Sample

end Changes

end SchuleAlsStaat
