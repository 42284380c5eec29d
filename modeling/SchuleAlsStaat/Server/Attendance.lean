import SchuleAlsStaat.Server.Asking
import SchuleAlsStaat.Server.Authority

/-!
# Checkins and checkouts

`ec_checkin` and `ec_checkout` push an entry to the list `appear` of a record, in one
update of the database.  Whatever requests run at the same time, no entry is lost,
stored twice or made up, and a scan is answered "ok" if and only if its entry is
stored: `Attended`.
-/

namespace SchuleAlsStaat

/-- The type of the entries that an action stores. -/
def ActionName.appearType : ActionName → Option String
  | .ec_checkin => some "checkin"
  | .ec_checkout => some "checkout"
  | _ => none

theorem ActionName.appearType_eq_some {b : ActionName} {type : String}
    (h : b.appearType = some type) :
    b = .ec_checkin ∧ type = "checkin" ∨ b = .ec_checkout ∧ type = "checkout" := by
  cases b with
  | ec_checkin =>
      cases h
      exact .inl ⟨rfl, rfl⟩
  | ec_checkout =>
      cases h
      exact .inr ⟨rfl, rfl⟩
  | _ => cases h

/-- The calls of the two actions push an entry. -/
theorem Query.belongs_scan {b : ActionName} {type : String} (hb : b.appearType = some type)
    {q : Query} (h : q.belongs b = true) : ∃ qrid spec, q = .addAppear qrid spec := by
  rcases ActionName.appearType_eq_some hb with ⟨rfl, -⟩ | ⟨rfl, -⟩
  · cases q with
    | addAppear qrid spec => exact ⟨qrid, spec, rfl⟩
    | student component v cb => cases cb <;> cases h
    | students properties patterns limit cb => cases cb <;> cases h
    | transactions filter limit cb => cases cb <;> cases h
    | saveStudent id u => cases u <;> cases h
    | _ => cases h
  · cases q with
    | addAppear qrid spec => exact ⟨qrid, spec, rfl⟩
    | student component v cb => cases cb <;> cases h
    | students properties patterns limit cb => cases cb <;> cases h
    | transactions filter limit cb => cases cb <;> cases h
    | saveStudent id u => cases u <;> cases h
    | _ => cases h

/-- The call pushes an entry. -/
def Query.pushes : Query → Bool
  | .addAppear _ _ => true
  | _ => false

/-- The call deletes a record. -/
def Query.deletes : Query → Bool
  | .removeStudent _ => true
  | _ => false

/-- A call that pushes an entry is one of the two actions'. -/
theorem Query.pushes_of_belongs {b : ActionName} {q : Query} (h : q.belongs b = true)
    (hq : q.pushes = true) : b = .ec_checkin ∨ b = .ec_checkout := by
  cases q with
  | addAppear qrid spec => exact of_decide_eq_true h
  | _ => cases hq

namespace Server

open Runs (Run exec exists_run_of_exec)
open Calls (Phase mem_of_getElem? forall_mem_set forall_mem_append forall_mem_concat)

variable {E : Ext} {K : Keys} {S : Students} {L : Ledger} {s s' : State}

/-! ## Entries of a collection -/

/-- All entries of all records. -/
def entries (S : Students) : List Appear := S.flatMap Student.appear

/-- Records that are replaced by others with the same entries. -/
theorem entries_map {f : Student → Student} (h : ∀ t ∈ S, (f t).appear = t.appear) :
    entries (S.map f) = entries S := by
  rw [entries, entries, List.flatMap_map]
  exact List.flatMap_congr h

/-- An entry is pushed to one record. -/
theorem entries_push (h : S.Pairwise fun a b => a._id ≠ b._id) {st : Student} (hst : st ∈ S)
    (spec : Appear) :
    (entries (S.map fun t =>
      if t._id = st._id then { t with appear := t.appear ++ [spec] } else t)).Perm
        (spec :: entries S) := by
  induction S with
  | nil => cases hst
  | cons t S ih =>
      obtain ⟨ht, hS⟩ := List.pairwise_cons.mp h
      rcases List.mem_cons.mp hst with rfl | hst
      · have rest : ∀ u ∈ S, (if u._id = st._id then { u with appear := u.appear ++ [spec] }
            else u).appear = u.appear := fun u hu => by rw [if_neg (ht u hu).symm]
        have hrest := entries_map rest
        rw [entries] at hrest ⊢
        rw [List.map_cons, if_pos rfl, List.flatMap_cons, hrest, entries, entries,
          List.flatMap_cons, List.append_assoc]
        exact List.perm_middle
      · have hmap := ih hS hst
        rw [List.map_cons, if_neg (ht st hst)]
        exact (hmap.append_left t.appear).trans List.perm_middle

theorem execute_addAppear {qrid : Js.JsVal} {spec : Appear} {r : Reply} {t : State}
    (h : execute E s (.addAppear qrid spec) r = some t) :
    (∃ st, s.students.findOne E qrid = some st ∧ r = .appear true ∧
        t.students = s.students.map fun u =>
          if u._id = st._id then { u with appear := u.appear ++ [spec] } else u) ∨
      s.students.findOne E qrid = none ∧ r = .appear false ∧ t.students = s.students := by
  cases r with
  | appear success =>
      simp only [execute] at h
      split at h
      next st hst =>
        cases h
        exact .inl ⟨st, hst, rfl, rfl⟩
      next hst =>
        cases h
        exact .inr ⟨hst, rfl, rfl⟩
      next => cases h
  | _ => cases h

/-! ## What a call has stored -/

/-- The entry that a call has stored. -/
def Call.appeared (c : Call) : Option Appear :=
  match c.query, c.phase.outcome with
  | .addAppear _ spec, some (some (.appear true)) => some spec
  | _, _ => none

theorem Call.appeared_eq_some {c : Call} {spec : Appear} (h : c.appeared = some spec) :
    (∃ qrid, c.query = .addAppear qrid spec) ∧ c.phase.outcome = some (some (.appear true)) := by
  rw [Call.appeared] at h
  split at h
  next qrid spec' hq hp =>
    cases h
    exact ⟨⟨qrid, hq⟩, hp⟩
  next => cases h

theorem Call.appeared_eq_none {c : Call} (h : c.phase.outcome ≠ some (some (.appear true))) :
    c.appeared = none := by
  cases ha : c.appeared with
  | none => rfl
  | some spec => exact absurd (appeared_eq_some ha).2 h

/-- Only the outcome of the phase matters. -/
theorem Call.appeared_phase (c : Call) {p : Phase (Option Reply)}
    (h : p.outcome = c.phase.outcome) : { c with phase := p }.appeared = c.appeared := by
  simp only [Call.appeared, h]

/-! ## Requests that scan -/

/-- A query is issued for an accepted request, and an entry has the type of its action. -/
def Scans (E : Ext) (K : Keys) (q : Received) : Act → Prop
  | .query _ query => ∃ b, Dispatched E K q.name q.post b ∧ query.belongs b = true ∧
      ∀ qrid spec, query = .addAppear qrid spec → b.appearType = some spec.type
  | _ => True

/-- The acts of a scan. -/
theorem mem_ec_check {type : String} {env : Env} {client : Client} {payload : Js.JsVal} {a : Act}
    (h : a ∈ (ec_check type env client payload).acts) :
    a = .query client (.addAppear payload { type := type, time := env.now }) :=
  List.mem_singleton.mp h

/-- The callback of a push answers, and does nothing else. -/
theorem onReply_addAppear_acts (env : Env) (client : Client) (qrid : Js.JsVal) (spec : Appear)
    (success : Bool) : (onReply E env client (.addAppear qrid spec) (.appear success)).acts =
      [.answer client (if success then .ok else .text "error: invalid qrid")] := by
  show (onAppear client qrid success).acts = _
  rw [onAppear]
  cases success with
  | true =>
      rw [if_pos rfl, Js.JS.bind_acts_ok (answer_result rfl), answer_acts, info_acts]
      rfl
  | false =>
      rw [if_neg Bool.false_ne_true, answer_acts]
      rfl

theorem mem_onReply_addAppear {env : Env} {client : Client} {qrid : Js.JsVal} {spec : Appear}
    {r : Reply} {a : Act} (h : a ∈ (onReply E env client (.addAppear qrid spec) r).acts) :
    ∃ success, r = .appear success ∧
      a = .answer client (if success then .ok else .text "error: invalid qrid") := by
  cases r with
  | appear success =>
      rw [onReply_addAppear_acts] at h
      exact ⟨success, rfl, List.mem_singleton.mp h⟩
  | _ => cases h

theorem scans_request {env : Env} {client : Client} {name post : String} {a : Act}
    (h : a ∈ (prepare_action E K env client name post).acts) : Scans E K ⟨name, post⟩ a := by
  rcases mem_prepare_action h with ⟨m, -, rfl⟩ | ⟨payload, rfl⟩ | ⟨b, payload, hd, hb⟩
  · trivial
  · trivial
  · cases a with
    | query client' query =>
        have hbelongs : query.belongs b = true := does_run b _ hb
        refine ⟨b, hd, hbelongs, ?_⟩
        rintro qrid spec rfl
        rcases Query.pushes_of_belongs hbelongs rfl with rfl | rfl
        · cases mem_ec_check hb
          rfl
        · cases mem_ec_check hb
          rfl
    | _ => trivial

/-- A callback issues no push, and so it issues nothing for a scan. -/
theorem not_pushes_onReply {env : Env} {client client' : Client} {query query' : Query}
    {r : Reply} {q : Received} (hq : Scans E K q (.query client query))
    (h : .query client' query' ∈ (onReply E env client query r).acts) : query'.pushes = false := by
  obtain ⟨b, -, hbelongs, -⟩ := hq
  have hbelongs' : query'.belongs b = true := does_onReply hbelongs r _ h
  by_contra hne
  have hscan : ∃ type, b.appearType = some type := by
    rcases Query.pushes_of_belongs hbelongs' (Bool.eq_true_of_not_eq_false hne) with rfl | rfl
    · exact ⟨_, rfl⟩
    · exact ⟨_, rfl⟩
  obtain ⟨type, htype⟩ := hscan
  obtain ⟨qrid, spec, rfl⟩ := Query.belongs_scan htype hbelongs
  obtain ⟨success, -, ha⟩ := mem_onReply_addAppear h
  cases ha

theorem scans_reply {env : Env} {client : Client} {query : Query} {r : Reply} {q : Received}
    {a : Act} (hq : Scans E K q (.query client query))
    (h : a ∈ (onReply E env client query r).acts) : Scans E K q a := by
  cases a with
  | query client' query' =>
      have hpushes := not_pushes_onReply hq h
      obtain ⟨b, hd, hbelongs, -⟩ := hq
      refine ⟨b, hd, does_onReply hbelongs r _ h, ?_⟩
      rintro qrid spec rfl
      cases hpushes
  | _ => trivial

theorem scans_step (h : Traced (Scans E K) L s) {e : Event} (hs : step E K s e = some s') :
    Traced (Scans E K) L s' :=
  h.step (fun _ _ _ _ _ _ ha => scans_request ha)
    (fun _ _ _ _ _ _ _ _ _ hq _ ha => scans_reply hq ha) hs

/-! ## Steps -/

/-- No record is deleted. -/
def KeepsRecords (s : State) : Event → Prop
  | .callDb n _ => ∀ c ∈ s.calls[n]?, c.query.deletes = false
  | _ => True

instance (s : State) (e : Event) : Decidable (KeepsRecords s e) :=
  match e with
  | .callDb .. => inferInstanceAs (Decidable (∀ _ ∈ _, _))
  | .request .. | .removeDb .. | .callFail _ | .callReply .. | .sumDb .. | .sumReply ..
  | .pollTimeout _ | .handleDbPollAnswer .. | .bank _ => isTrue trivial

/-- New calls have stored nothing. -/
theorem appeared_performAll (w : WorkerId) (now : Time) (acts : List Act) (s : State) :
    (s.performAll w now acts).calls.filterMap Call.appeared =
      s.calls.filterMap Call.appeared := by
  rw [State.performAll_calls, List.filterMap_append]
  have hnone : (acts.filterMap (startedCall w)).filterMap Call.appeared = [] := by
    rw [List.filterMap_eq_nil_iff]
    intro c hc
    obtain ⟨a, -, ha⟩ := List.mem_filterMap.mp hc
    refine Call.appeared_eq_none ?_
    rw [startedCall_phase ha]
    simp
  rw [hnone, List.append_nil]

/-- A call that pushes nothing and deletes nothing keeps the entries. -/
theorem Alters.entries {q : Query} {r : Reply} {T : Students} {m : ObjectId}
    (ha : Alters E s q r T m) (hindexed : Indexed s) (hq : q.pushes = false)
    (hkeep : q.deletes = false) : (entries T).Perm (entries s.students) := by
  cases ha with
  | read => exact .refl _
  | @add info st S hcast hins =>
      rw [(Students.insert_eq_some hins).2, Server.entries, List.flatMap_append,
        List.flatMap_singleton, NewStudent.cast_appear hcast, List.append_nil]
      exact .refl _
  | appear => cases hq
  | @save id u S hS =>
      rcases Students.update_eq_some hS with ⟨rfl, -⟩ | ⟨st, hst, hid, st', hst', -, rfl⟩
      · exact .refl _
      · rw [entries_map]
        intro t ht
        split
        next heq =>
          rw [hindexed.unique.eq_of_id ht hst (heq.trans hid.symm)]
          exact StudentUpdate.apply_appear hst'
        next => rfl
  | remove => cases hkeep

/-- The entries of the records and of the calls after a call is executed. -/
theorem entries_callDb (hindexed : Indexed s) {c : Call} {n : ℕ} {r : Reply} {t : State}
    (hc : s.calls[n]? = some c) (hp : c.phase = .sent) (hx : execute E s c.query r = some t)
    (hkeep : c.query.deletes = false) :
    ∃ new, (entries t.students).Perm (new ++ entries s.students) ∧
      ((s.calls.set n { c with phase := .replied (some r) }).filterMap Call.appeared).Perm
        (new ++ s.calls.filterMap Call.appeared) := by
  have hsent : c.appeared = none := Call.appeared_eq_none (by rw [hp]; simp)
  cases hq : c.query with
  | addAppear qrid spec =>
      rw [hq] at hx
      rcases execute_addAppear hx with ⟨st, hst, rfl, hstudents⟩ | ⟨-, rfl, hstudents⟩
      · refine ⟨[spec], ?_, Calls.filterMap_set_perm hc hsent ?_⟩
        · rw [hstudents]
          exact entries_push hindexed.unique.ids (List.mem_of_find?_eq_some hst) spec
        · simp [Call.appeared]
      · refine ⟨[], ?_, ?_⟩
        · rw [hstudents]
          exact .refl _
        · rw [Calls.filterMap_set Call.appeared hc]
          · exact .refl _
          · rw [hsent]
            exact Call.appeared_eq_none (by simp)
  | _ =>
      have hother : c.query.pushes = false := by rw [hq]; rfl
      refine ⟨[], (alters_execute hx).entries hindexed hother hkeep, ?_⟩
      rw [Calls.filterMap_set Call.appeared hc]
      · exact .refl _
      · rw [hsent]
        simp [Call.appeared]

/-- Each step adds the same entries to the records and to the calls. -/
theorem entries_step (hindexed : Indexed s) {e : Event} (hok : KeepsRecords s e)
    (hs : step E K s e = some s') :
    ∃ new, (entries s'.students).Perm (new ++ entries s.students) ∧
      (s'.calls.filterMap Call.appeared).Perm (new ++ s.calls.filterMap Call.appeared) := by
  have same : s'.students = s.students →
      s'.calls.filterMap Call.appeared = s.calls.filterMap Call.appeared →
      ∃ new, (entries s'.students).Perm (new ++ entries s.students) ∧
        (s'.calls.filterMap Call.appeared).Perm (new ++ s.calls.filterMap Call.appeared) := by
    intro hstudents hcalls
    exact ⟨[], by rw [hstudents]; exact .refl _, by rw [hcalls]; exact .refl _⟩
  cases step_cases hs with
  | request w env name post =>
      exact same (State.performAll_frame ..).2.1 (appeared_performAll ..)
  | callDb hc hp hx =>
      have hnew := entries_callDb hindexed hc hp hx (hok _ hc)
      exact hnew
  | removeDb hc hp hq hb =>
      refine same rfl ?_
      rw [Calls.filterMap_set Call.appeared hc]
      simp [Call.appeared, hq]
  | callFail hc hp =>
      refine same rfl ?_
      rw [Calls.filterMap_set Call.appeared hc]
      simp [Call.appeared, hp]
  | callReply env hc hp =>
      refine same (State.performAll_frame ..).2.1 ((appeared_performAll ..).trans ?_)
      exact Calls.filterMap_set Call.appeared hc (Call.appeared_phase _ (by rw [hp]; rfl))
  | callError env hc hp =>
      exact same rfl (Calls.filterMap_set Call.appeared hc
        (Call.appeared_phase _ (by rw [hp]; rfl)))
  | callDropped env hc hp =>
      exact same rfl (Calls.filterMap_set Call.appeared hc
        (Call.appeared_phase _ (by rw [hp]; rfl)))
  | _ => exact same rfl rfl

/-- A record of the collection after a call has its entries, or it is new. -/
theorem Alters.appear_grows {q : Query} {r : Reply} {T : Students} {m : ObjectId}
    (ha : Alters E s q r T m) (hindexed : Indexed s) {t : Student} (ht : t ∈ T) :
    (∃ u ∈ s.students, u._id = t._id ∧ u.appear <+: t.appear) ∨ t._id = s.nextStudent := by
  cases ha with
  | read => exact .inl ⟨t, ht, rfl, List.prefix_rfl⟩
  | @add info st S hcast hins =>
      rw [(Students.insert_eq_some hins).2] at ht
      rcases List.mem_append.mp ht with ht | ht
      · exact .inl ⟨t, ht, rfl, List.prefix_rfl⟩
      · rw [List.mem_singleton.mp ht]
        exact .inr (NewStudent.cast_eq_some hcast).1
  | appear hst =>
      obtain ⟨u, hu, rfl⟩ := List.mem_map.mp ht
      refine .inl ⟨u, hu, ?_⟩
      split
      · exact ⟨rfl, List.prefix_append ..⟩
      · exact ⟨rfl, List.prefix_rfl⟩
  | @save id u S hS =>
      rcases Students.update_eq_some hS with ⟨rfl, -⟩ | ⟨st, hst, hid, st', hst', -, rfl⟩
      · exact .inl ⟨t, ht, rfl, List.prefix_rfl⟩
      · obtain ⟨u, hu, rfl⟩ := List.mem_map.mp ht
        refine .inl ⟨u, hu, ?_⟩
        split
        next heq =>
          rw [hindexed.unique.eq_of_id hu hst (heq.trans hid.symm)]
          have happear := StudentUpdate.apply_appear hst'
          exact ⟨(StudentUpdate.apply_id hst').symm, happear.symm ▸ List.prefix_rfl⟩
        next => exact ⟨rfl, List.prefix_rfl⟩
  | remove => exact .inl ⟨t, (List.mem_filter.mp ht).1, rfl, List.prefix_rfl⟩

/-! ## Every scan -/

/-- At most one hash file of the action matches the certificate.  The action runs once for
each that does. -/
def CertOnce (E : Ext) (K : Keys) (name post : String) : Prop :=
  ∀ r fns query cert hash, actions name = some r → r.cert = some fns →
    queryOf K post = .ok query → query.prop "cert" = .ok cert → certHash E cert = .ok hash →
      fns.countP (K.matches hash) ≤ 1

/-- The call belongs to request `r` and pushes an entry. -/
def Call.pushesFor (r : ReqId) (c : Call) : Bool := c.client.req = r && c.query.pushes

/-- The call belongs to request `r` and has stored an entry. -/
def Call.storedFor (r : ReqId) (c : Call) : Bool := c.client.req = r && c.appeared.isSome

/-- The entries of the records are those of `S` and one for each scan that is stored,
and an answer "ok" says that it is. -/
structure Attended (E : Ext) (K : Keys) (S : Students) (s : State) : Prop where
  entries : (entries s.students).Perm (entries S ++ s.calls.filterMap Call.appeared)
  kept : ∀ st₀ ∈ S, ∀ st ∈ s.students, st._id = st₀._id → st₀.appear <+: st.appear
  scanned : ∀ c ∈ s.calls, ∀ spec, c.appeared = some spec → ∃ q b,
    s.received[c.client.req]? = some q ∧ Dispatched E K q.name q.post b ∧
      b.appearType = some spec.type
  once : ∀ r q, s.received[r]? = some q → CertOnce E K q.name q.post →
    s.calls.countP (Call.storedFor r) ≤ 1
  told : ∀ c ∈ s.calls, c.appeared.isSome = true → c.phase.open? = false →
    (c.client, Answer.ok) ∈ s.answers
  ok : ∀ x ∈ s.answers, x.2 = .ok → ∃ q, s.received[x.1.req]? = some q ∧
    (q.name = "ec_checkin" ∨ q.name = "ec_checkout" →
      ∃ c ∈ s.calls, c.client.req = x.1.req ∧ c.appeared.isSome = true)

/-- The invariant of the proof. -/
structure Attending (E : Ext) (K : Keys) (S : Students) (L : Ledger) (s : State) : Prop where
  traced : Traced (Scans E K) L s
  indexed : Indexed s
  bound : ∀ st₀ ∈ S, st₀._id < s.nextStudent
  entries : (Server.entries s.students).Perm
    (Server.entries S ++ s.calls.filterMap Call.appeared)
  kept : ∀ st₀ ∈ S, ∀ st ∈ s.students, st._id = st₀._id → st₀.appear <+: st.appear
  once : ∀ r q, s.received[r]? = some q → CertOnce E K q.name q.post →
    s.calls.countP (Call.pushesFor r) ≤ 1
  told : ∀ c ∈ s.calls, c.appeared.isSome = true → c.phase.open? = false →
    (c.client, Answer.ok) ∈ s.answers
  ok : ∀ x ∈ s.answers, x.2 = .ok → ∃ q, s.received[x.1.req]? = some q ∧
    (q.name = "ec_checkin" ∨ q.name = "ec_checkout" →
      ∃ c ∈ s.calls, c.client.req = x.1.req ∧ c.appeared.isSome = true)

/-- The `n`-th call goes to its next phase. -/
inductive Advances (n : ℕ) : Event → Phase (Option Reply) → Phase (Option Reply) → Prop where
  | replied (e : Event) (r : Option Reply) : Advances n e .sent (.replied r)
  | done (env : Env) (r : Option Reply) : Advances n (.callReply n env) (.replied r) (.done r)

/-- The calls after a step: one of them may go on, and the acts issue new ones. -/
theorem calls_step {e : Event} (hs : step E K s e = some s') :
    ∃ w l, s'.calls = l ++ (s.acts E K e).filterMap (startedCall w) ∧
      (l = s.calls ∨ ∃ n c p, s.calls[n]? = some c ∧ Advances n e c.phase p ∧
        l = s.calls.set n { c with phase := p }) := by
  have quiet : ∀ {n : ℕ} {c : Call} {p : Phase (Option Reply)}, s.acts E K e = [] →
      s.calls[n]? = some c → Advances n e c.phase p → s'.calls = s.calls.set n { c with phase := p } →
        ∃ w l, s'.calls = l ++ (s.acts E K e).filterMap (startedCall w) ∧
          (l = s.calls ∨ ∃ n c p, s.calls[n]? = some c ∧ Advances n e c.phase p ∧
            l = s.calls.set n { c with phase := p }) := by
    intro n c p hacts hc hp heq
    rw [heq, hacts]
    exact ⟨0, _, (List.append_nil _).symm, .inr ⟨n, c, p, hc, hp, rfl⟩⟩
  cases step_cases hs with
  | request w env name post => exact ⟨w, s.calls, State.performAll_calls .., .inl rfl⟩
  | callDb hc hp hx => exact quiet rfl hc (by rw [hp]; exact .replied ..) rfl
  | removeDb hc hp hq hb => exact quiet rfl hc (by rw [hp]; exact .replied ..) rfl
  | callFail hc hp => exact quiet rfl hc (by rw [hp]; exact .replied ..) rfl
  | @callReply n c r env hc hp =>
      refine ⟨c.worker, _, ?_, .inr ⟨n, c, .done (some r), hc, by rw [hp]; exact .done .., rfl⟩⟩
      rw [acts_callReply hc hp]
      exact State.performAll_calls ..
  | callError env hc hp hcb =>
      exact quiet (acts_callReply_none hc hp) hc (by rw [hp]; exact .done ..) rfl
  | callDropped env hc hp hcb =>
      exact quiet (acts_callReply_none hc hp) hc (by rw [hp]; exact .done ..) rfl
  | _ => exact ⟨0, s.calls, (List.append_nil _).symm, .inl rfl⟩

/-- What a call has stored it has stored for ever. -/
theorem appeared_step {e : Event} (hs : step E K s e = some s') {c : Call} (hc : c ∈ s.calls)
    (ha : c.appeared.isSome = true) :
    ∃ c' ∈ s'.calls, c'.client = c.client ∧ c'.appeared.isSome = true := by
  obtain ⟨w, l, hl, rfl | ⟨n, c₀, p, hc₀, hp, rfl⟩⟩ := calls_step hs
  · exact ⟨c, hl ▸ List.mem_append_left _ hc, rfl, ha⟩
  · rw [hl]
    by_cases heq : c = c₀
    · subst heq
      refine ⟨_, List.mem_append_left _ (Calls.mem_set_self _ hc₀), rfl, ?_⟩
      cases hphase : c.phase with
      | sent =>
          rw [Call.appeared_eq_none (by rw [hphase]; simp)] at ha
          cases ha
      | replied r =>
          rw [hphase] at hp
          cases hp
          rw [Call.appeared_phase c (by rw [hphase]; rfl)]
          exact ha
      | done r =>
          rw [hphase] at hp
          cases hp
    · exact ⟨c, List.mem_append_left _ (Calls.mem_set_of_ne _ hc₀ hc heq), rfl, ha⟩

/-- Beside its acts, a step answers errors, balances and lists only. -/
theorem answers_step {e : Event} (hs : step E K s e = some s') :
    s.answers <+: s'.answers ∧ ∀ x ∈ s'.answers, x ∈ s.answers ∨ x.2 ≠ .ok ∨
      ∃ a ∈ s.acts E K e, givenAnswer a = some x := by
  have same : s'.answers = s.answers → s.answers <+: s'.answers ∧ ∀ x ∈ s'.answers,
      x ∈ s.answers ∨ x.2 ≠ .ok ∨ ∃ a ∈ s.acts E K e, givenAnswer a = some x := by
    intro heq
    rw [heq]
    exact ⟨List.prefix_rfl, fun x hx => .inl hx⟩
  have sent : ∀ {client : Client} {m : Answer}, m ≠ .ok →
      s'.answers = s.answers ++ [(client, m)] → s.answers <+: s'.answers ∧ ∀ x ∈ s'.answers,
        x ∈ s.answers ∨ x.2 ≠ .ok ∨ ∃ a ∈ s.acts E K e, givenAnswer a = some x := by
    intro client m hm heq
    rw [heq]
    exact ⟨List.prefix_append .., forall_mem_concat (fun _ hx => .inl hx) (.inr (.inl hm))⟩
  have acted : s'.answers = s.answers ++ (s.acts E K e).filterMap givenAnswer →
      s.answers <+: s'.answers ∧ ∀ x ∈ s'.answers,
        x ∈ s.answers ∨ x.2 ≠ .ok ∨ ∃ a ∈ s.acts E K e, givenAnswer a = some x := by
    intro heq
    rw [heq]
    refine ⟨List.prefix_append .., forall_mem_append (fun _ hx => .inl hx) fun x hx => ?_⟩
    exact .inr (.inr (List.mem_filterMap.mp hx))
  cases step_cases hs with
  | request w env name post => exact acted (State.performAll_answers ..)
  | callReply env hc hp =>
      refine acted ?_
      rw [acts_callReply hc hp]
      exact State.performAll_answers ..
  | callError env hc hp => exact sent (m := .dbError _) (fun h => by cases h) rfl
  | sumError => exact sent (m := .dbError _) (fun h => by cases h) rfl
  | sumComplete => exact sent (m := .balance _) (fun h => by cases h) rfl
  | pollTimeout => exact sent (m := .timeout) (fun h => by cases h) rfl
  | handleDbPollAnswer => exact sent (m := .transactions _) (fun h => by cases h) rfl
  | _ => exact same rfl

/-- The callback of a call answers what its acts say. -/
theorem answers_callReply {n : ℕ} {env : Env} {c : Call} {r : Reply}
    (hs : step E K s (.callReply n env) = some s') (hc : s.calls[n]? = some c)
    (hp : c.phase = .replied (some r)) {x : Client × Answer} :
    x ∈ s'.answers ↔ x ∈ s.answers ∨
      .answer x.1 x.2 ∈ (onReply E env c.client c.query r).acts := by
  have hanswers : s'.answers =
      s.answers ++ (onReply E env c.client c.query r).acts.filterMap givenAnswer := by
    obtain ⟨c', v, hc', hp', hs⟩ := Calls.withReply_eq_some.mp hs
    cases hc.symm.trans hc'
    cases hp.symm.trans hp'
    cases hs
    exact State.performAll_answers ..
  rw [hanswers, List.mem_append, List.mem_filterMap]
  refine or_congr_right ⟨?_, fun h => ⟨_, h, rfl⟩⟩
  rintro ⟨a, ha, hgiven⟩
  cases a <;> cases hgiven
  exact ha

namespace Attending

variable {e : Event}

theorem init (hS : S.Unique) (L : Ledger) : Attending E K S L (State.init S L) where
  traced := .init S L
  indexed := .init hS L
  bound := (Indexed.init hS L).fresh
  entries := by
    show (Server.entries S).Perm (Server.entries S ++ [])
    rw [List.append_nil]
  kept st₀ hst₀ st hst hid := hS.eq_of_id hst hst₀ hid ▸ List.prefix_rfl
  once r q hq := by cases hq
  told c hc := by cases hc
  ok x hx := by cases hx

/-- The calls of an accepted scan push entries. -/
theorem pushes_of_name (h : Attending E K S L s) {c : Call} (hc : c ∈ s.calls) {q : Received}
    (hq : s.received[c.client.req]? = some q)
    (hname : q.name = "ec_checkin" ∨ q.name = "ec_checkout") :
    ∃ qrid spec, c.query = .addAppear qrid spec := by
  obtain ⟨q', hq', b, hd, hbelongs, -⟩ := h.traced.calls c hc
  cases hq.symm.trans hq'
  have hb : ∃ type, b.appearType = some type := by
    rcases hname with hname | hname
    · have hreg := hd.1
      rw [hname] at hreg
      cases hreg
      exact ⟨_, rfl⟩
    · have hreg := hd.1
      rw [hname] at hreg
      cases hreg
      exact ⟨_, rfl⟩
  obtain ⟨type, htype⟩ := hb
  exact Query.belongs_scan htype hbelongs

theorem kept_step (h : Attending E K S L s) (hs : Server.step E K s e = some s') :
    (∀ st₀ ∈ S, st₀._id < s'.nextStudent) ∧
      ∀ st₀ ∈ S, ∀ st ∈ s'.students, st._id = st₀._id → st₀.appear <+: st.appear := by
  rcases records_step hs with ⟨hstudents, hnext⟩ | ⟨n, r, c, -, -, -, ha⟩
  · rw [hstudents, hnext]
    exact ⟨h.bound, h.kept⟩
  · refine ⟨fun st₀ hst₀ => (h.bound st₀ hst₀).trans_le ha.next_le, fun st₀ hst₀ st hst hid => ?_⟩
    rcases ha.appear_grows h.indexed hst with ⟨u, hu, hid', hbefore⟩ | hnew
    · exact (h.kept st₀ hst₀ u hu (hid'.trans hid)).trans hbefore
    · -- the `_id` of a new record is above those of `S`
      exact absurd (hid.symm.trans hnew) (h.bound st₀ hst₀).ne

/-- The pushes of a stretch of code are pushes of its request. -/
theorem pushesFor_started (w : WorkerId) (acts : List Act) {q : ReqId} (hfor : ∀ a ∈ acts, a.For q)
    (r : ReqId) : (acts.filterMap (startedCall w)).countP (Call.pushesFor r) ≤
      if q = r then settled acts else 0 := by
  refine le_trans (List.countP_mono_left fun c _ hc => ?_) (countP_startedCall w hfor r)
  simp only [Call.pushesFor, Bool.and_eq_true, decide_eq_true_eq] at hc ⊢
  refine ⟨hc.1, ?_⟩
  cases hq : c.query with
  | addAppear qrid spec => rfl
  | _ =>
      rw [hq] at hc
      cases hc.2

/-- A request that is not a scan pushes nothing. -/
theorem pushesFor_request (w : WorkerId) (env : Env) (client : Client) {name post : String}
    (hcert : CertOnce E K name post) (r : ReqId) :
    (((prepare_action E K env client name post).acts.filterMap
      (startedCall w)).countP (Call.pushesFor r)) ≤ if client.req = r then 1 else 0 := by
  by_cases hscan : actions name = some (.action .ec_checkin) ∨
      actions name = some (.action .ec_checkout)
  · have hcount := pushesFor_started w (prepare_action E K env client name post).acts
      (fun a ha => for_prepare_action ha) r
    have honce : AnsweredOnce E K env name post := by
      refine ⟨hcert, fun a query payload ha _ _ => ?_⟩
      rcases hscan with hscan | hscan
      · cases hscan.symm.trans ha
        trivial
      · cases hscan.symm.trans ha
        trivial
    have hsettled : settled (prepare_action E K env client name post).acts ≤ 1 :=
      (serves_prepare_action honce).once
    split at hcount
    next heq =>
      rw [if_pos heq]
      exact hcount.trans hsettled
    next hne =>
      rw [if_neg hne]
      exact hcount
  · have hzero : ((prepare_action E K env client name post).acts.filterMap
        (startedCall w)).countP (Call.pushesFor r) = 0 := by
      rw [List.countP_eq_zero]
      intro c hc hpush
      obtain ⟨a, ha, hstart⟩ := List.mem_filterMap.mp hc
      cases a with
      | query client' query =>
          cases hstart
          obtain ⟨b, hd, hbelongs, -⟩ := scans_request ha
          simp only [Call.pushesFor, Bool.and_eq_true] at hpush
          rcases Query.pushes_of_belongs hbelongs hpush.2 with rfl | rfl
          · exact hscan (.inl hd.1)
          · exact hscan (.inr hd.1)
      | _ => cases hstart
    rw [hzero]
    exact Nat.zero_le _

/-- The acts of a callback push nothing. -/
theorem pushesFor_reply (h : Attending E K S L s) {n : ℕ} {env : Env} {w : WorkerId} (r : ReqId) :
    ((s.acts E K (.callReply n env)).filterMap (startedCall w)).countP (Call.pushesFor r) = 0 := by
  rw [List.countP_eq_zero]
  intro c hc hpush
  obtain ⟨a, ha, hstart⟩ := List.mem_filterMap.mp hc
  simp only [Call.pushesFor, Bool.and_eq_true] at hpush
  rw [State.acts] at ha
  split at ha
  next w' client query reply hcall =>
    obtain ⟨q, -, hq⟩ := h.traced.calls _ (mem_of_getElem? hcall)
    cases a with
    | query client' query' =>
        cases hstart
        rw [not_pushes_onReply hq ha] at hpush
        cases hpush.2
    | _ => cases hstart
  next => cases ha

theorem once_step (h : Attending E K S L s) (hs : Server.step E K s e = some s') (r : ReqId)
    (q : Received) (hq : s'.received[r]? = some q) (hcert : CertOnce E K q.name q.post) :
    s'.calls.countP (Call.pushesFor r) ≤ 1 := by
  obtain ⟨w, l, hl, hset⟩ := calls_step hs
  have hold : l.countP (Call.pushesFor r) = s.calls.countP (Call.pushesFor r) := by
    rcases hset with rfl | ⟨n, c, p, hc, -, rfl⟩
    · rfl
    · exact Calls.countP_set_eq hc rfl
  rw [hl, List.countP_append, hold]
  cases e with
  | request w' env name post =>
      cases hs
      rw [(State.performAll_frame ..).1] at hq
      by_cases hr : s.received.length = r
      · subst hr
        rw [List.getElem?_append_right le_rfl, Nat.sub_self] at hq
        cases hq
        have hnew := pushesFor_request w env ⟨s.received.length, none⟩ hcert s.received.length
        rw [if_pos rfl] at hnew
        have hzero : s.calls.countP (Call.pushesFor s.received.length) = 0 := by
          rw [List.countP_eq_zero]
          intro c hc hpush
          simp only [Call.pushesFor, Bool.and_eq_true, decide_eq_true_eq] at hpush
          obtain ⟨q, hq, -⟩ := h.traced.calls c hc
          rw [hpush.1, List.getElem?_eq_none le_rfl] at hq
          cases hq
        rw [hzero, Nat.zero_add]
        exact hnew
      · have hnew := pushesFor_started w
          (prepare_action E K env ⟨s.received.length, none⟩ name post).acts
          (fun a ha => for_prepare_action ha) r
        rw [if_neg hr] at hnew
        have hlt : r < s.received.length := by
          have hle := (List.getElem?_eq_some_iff.mp hq).1
          rw [List.length_append] at hle
          exact Nat.lt_of_le_of_ne (Nat.le_of_lt_succ hle) (Ne.symm hr)
        rw [List.getElem?_append_left hlt] at hq
        exact Nat.add_le_add (h.once r q hq hcert) hnew
  | callReply n env =>
      rw [h.pushesFor_reply, Nat.add_zero]
      refine h.once r q ?_ hcert
      rcases frame_step hs with ⟨hr, -⟩ | ⟨_, _, _, _, he, -⟩ | ⟨_, _, _, _, he, -⟩
      · rwa [hr] at hq
      · cases he
      · cases he
  | _ =>
      refine h.once r q ?_ hcert
      rcases frame_step hs with ⟨hr, -⟩ | ⟨_, _, _, _, he, -⟩ | ⟨_, _, _, _, he, _, _, hr, -⟩
      · rwa [hr] at hq
      · cases he
      · rwa [hr] at hq

/-- The callback of a push that has stored its entry answers "ok". -/
theorem told_step (h : Attending E K S L s) (hs : Server.step E K s e = some s') {c : Call}
    (hc : c ∈ s'.calls) (ha : c.appeared.isSome = true) (hdone : c.phase.open? = false) :
    (c.client, Answer.ok) ∈ s'.answers := by
  obtain ⟨hmono, -⟩ := answers_step hs
  have old : c ∈ s.calls → (c.client, Answer.ok) ∈ s'.answers := fun hc =>
    hmono.subset (h.told c hc ha hdone)
  obtain ⟨w, l, hl, hset⟩ := calls_step hs
  rw [hl] at hc
  rcases List.mem_append.mp hc with hc | hc
  · rcases hset with rfl | ⟨n, c₀, p, hc₀, hp, rfl⟩
    · exact old hc
    · rcases List.mem_or_eq_of_mem_set hc with hc | rfl
      · exact old hc
      · -- the call is done with this step, so it was a push with a reply
        obtain ⟨spec, happeared⟩ := Option.isSome_iff_exists.mp ha
        obtain ⟨⟨qrid, hquery⟩, houtcome⟩ := Call.appeared_eq_some happeared
        generalize hphase : c₀.phase = ph at hp
        cases hp with
        | replied e r => cases hdone
        | done env r =>
            cases houtcome
            refine (answers_callReply hs hc₀ hphase).2 (.inr ?_)
            rw [show c₀.query = .addAppear qrid spec from hquery, onReply_addAppear_acts]
            exact List.mem_singleton.mpr rfl
  · obtain ⟨a, -, hstart⟩ := List.mem_filterMap.mp hc
    rw [startedCall_phase hstart] at hdone
    cases hdone

/-- Only the callback of a push that has stored its entry answers "ok" to a scan. -/
theorem ok_step (h : Attending E K S L s) (hs : Server.step E K s e = some s')
    {x : Client × Answer} (hx : x ∈ s'.answers) (hok : x.2 = .ok) :
    ∃ q, s'.received[x.1.req]? = some q ∧ (q.name = "ec_checkin" ∨ q.name = "ec_checkout" →
      ∃ c ∈ s'.calls, c.client.req = x.1.req ∧ c.appeared.isSome = true) := by
  obtain ⟨-, hnew⟩ := answers_step hs
  rcases hnew x hx with hx | hne | ⟨a, ha, hgiven⟩
  · obtain ⟨q, hq, hstored⟩ := h.ok x hx hok
    refine ⟨q, received_step hs hq, fun hname => ?_⟩
    obtain ⟨c, hc, hreq, hsome⟩ := hstored hname
    obtain ⟨c', hc', hclient, hsome'⟩ := appeared_step hs hc hsome
    exact ⟨c', hc', by rw [hclient, hreq], hsome'⟩
  · exact absurd hok hne
  · cases e with
    | request w env name post =>
        have hfor := for_prepare_action ha
        cases a with
        | answer client m =>
            cases hgiven
            refine ⟨⟨name, post⟩, ?_, fun hname => ?_⟩
            · cases hs
              rw [(State.performAll_frame ..).1]
              show (s.received ++ _)[client.req]? = _
              rw [show client.req = s.received.length from hfor, List.getElem?_append_right le_rfl,
                Nat.sub_self]
              rfl
            · cases hok
              -- the action of a scan only pushes
              rcases mem_prepare_action ha with ⟨m, hm, heq⟩ | ⟨payload, heq⟩ | ⟨b, payload, hd, hb⟩
              · cases heq
                cases hm
              · cases heq
              · rcases hname with hname | hname
                · cases (congrArg actions hname).symm.trans hd.1
                  cases mem_ec_check hb
                · cases (congrArg actions hname).symm.trans hd.1
                  cases mem_ec_check hb
        | _ => cases hgiven
    | callReply n env =>
        rw [State.acts] at ha
        split at ha
        next w client query reply hcall =>
          have hmem := mem_of_getElem? hcall
          obtain ⟨q, hq, -⟩ := h.traced.calls _ hmem
          have hfor : a.For client.req := (serves_onReply E env client query reply).acts a ha
          have hreq : x.1.req = client.req := by
            cases a <;> cases hgiven
            exact hfor
          refine ⟨q, received_step hs (hreq ▸ hq), fun hname => ?_⟩
          obtain ⟨qrid, spec, hquery⟩ := h.pushes_of_name hmem hq hname
          rw [show query = .addAppear qrid spec from hquery] at ha
          obtain ⟨success, rfl, rfl⟩ := mem_onReply_addAppear ha
          cases hgiven
          cases success with
          | true =>
              obtain ⟨c', hc', hclient, hsome⟩ := appeared_step hs hmem (by
                rw [show query = .addAppear qrid spec from hquery]
                rfl)
              exact ⟨c', hc', by rw [hclient], hsome⟩
          | false => exact absurd (Answer.text.inj hok) (by decide)
        next => cases ha
    | _ => cases ha

theorem step (h : Attending E K S L s) (hok : KeepsRecords s e)
    (hs : Server.step E K s e = some s') : Attending E K S L s' := by
  obtain ⟨hbound, hkept⟩ := h.kept_step hs
  obtain ⟨new, hstudents, hcalls⟩ := entries_step h.indexed hok hs
  exact {
    traced := scans_step h.traced hs
    indexed := h.indexed.step hs
    bound := hbound
    kept := hkept
    entries := by
      refine hstudents.trans ((h.entries.append_left new).trans ?_)
      refine List.perm_append_comm.trans ?_
      rw [List.append_assoc]
      exact (List.perm_append_comm.trans hcalls.symm).append_left _
    once := h.once_step hs
    told := fun c hc => h.told_step hs hc
    ok := fun x hx => h.ok_step hs hx }

theorem attended (h : Attending E K S L s) : Attended E K S s where
  entries := h.entries
  kept := h.kept
  scanned c hc spec ha := by
    obtain ⟨⟨qrid, hquery⟩, -⟩ := Call.appeared_eq_some ha
    obtain ⟨q, hq, b, hd, -, htype⟩ := h.traced.calls c hc
    exact ⟨q, b, hq, hd, htype qrid spec hquery⟩
  once r q hq hcert := by
    refine le_trans (List.countP_mono_left fun c _ hc => ?_) (h.once r q hq hcert)
    simp only [Call.storedFor, Call.pushesFor, Bool.and_eq_true] at hc ⊢
    obtain ⟨spec, ha⟩ := Option.isSome_iff_exists.mp hc.2
    obtain ⟨⟨qrid, hquery⟩, -⟩ := Call.appeared_eq_some ha
    exact ⟨hc.1, by rw [hquery]; rfl⟩
  told := h.told
  ok := h.ok

end Attending

/-- In every run in which no record is deleted, the entries of the records are those at
the start and one for each stored scan.  A scan is answered "ok" if it is stored, and
only then. -/
theorem scans_attended (hS : S.Unique)
    (run : Run (step E K) KeepsRecords (State.init S L) s) : Attended E K S s := by
  have h : Attending E K S L s :=
    run.invariant (Attending.init hS L) fun _ _ _ ih hok hs => ih.step hok hs
  exact h.attended

section Sample

/-- Three scans of one citizen at two workers, and one of nobody. -/
def attendanceKeys : Keys := .simple [
  ("scan", "\x7b\"cert\":\"ec_hash.\",\"payload\":\"1\"\x7d"),
  ("nobody", "\x7b\"cert\":\"ec_hash.\",\"payload\":\"8\"\x7d")]

def attendanceEvents : List Event :=
  [.request 0 .start "ec_checkin" (bodyOf "scan"), .request 1 .start "ec_checkout" (bodyOf "scan"),
    .request 0 .start "ec_checkin" (bodyOf "nobody"), .request 1 .start "ec_checkin" (bodyOf "scan"),
    .callDb 1 (.appear true), .callFail 3, .callDb 0 (.appear true), .callDb 2 (.appear false),
    .callReply 0 .start, .callReply 2 .start, .callReply 3 .start]

/-- Two of the scans are stored, in the order in which the database gets them. -/
theorem scans_attended_four : ∃ s, Run (step Ext.simple attendanceKeys) KeepsRecords
    (State.init [someStudent 1] []) s ∧
      (s.answers.map fun x => (x.1.req, x.2.isText "ok")) =
        [(0, true), (2, false), (3, false)] ∧
      (entries s.students).map Appear.type = ["checkout", "checkin"] ∧
      Attended Ext.simple attendanceKeys [someStudent 1] s := by
  have hexec : (exec (step Ext.simple attendanceKeys) KeepsRecords
      (State.init [someStudent 1] []) attendanceEvents).map
        (fun s => (s.answers.map fun x => (x.1.req, x.2.isText "ok"),
          (entries s.students).map Appear.type)) =
            some ([(0, true), (2, false), (3, false)], ["checkout", "checkin"]) := by
    decide +kernel
  have hS : Students.Unique [someStudent 1] :=
    ⟨List.pairwise_singleton .., List.pairwise_singleton ..⟩
  obtain ⟨s, run, h⟩ := exists_run_of_exec attendanceEvents hexec
  exact ⟨s, run, congrArg Prod.fst h, congrArg Prod.snd h, scans_attended hS run⟩

end Sample

end Server

end SchuleAlsStaat
