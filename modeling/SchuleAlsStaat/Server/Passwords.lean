import SchuleAlsStaat.Server.Asking

/-!
# Changes of a password

Requests for `password_change` that run at the same time.  A request looks up the record,
compares the old password with the record that it got, and saves the new one.  The save is
executed later, and other saves may come in between.

Two requests that get the same record both compare with the same password.  Both are
answered "ok", and the second save overwrites the first one.  When every save finds the old
password of its request still in place, the requests that are answered "ok" form a chain.
-/

namespace SchuleAlsStaat

open Js (Exn Json JsVal JS)

/-! ## Acts -/

section Acts

variable {E : Ext} {K : Keys} {env : Env} {client : Client} {payload : JsVal} {a : Act}

theorem mem_password_change (h : a ∈ (password_change client payload).acts) :
    ∃ qrid, a = .query client (.student "stdb.getByQrid" qrid (.password_change payload)) := by
  obtain ⟨qrid, -, h⟩ := JS.mem_lift_bind_acts.mp h
  exact ⟨qrid, List.mem_singleton.mp h⟩

/-- The callback changes the password and answers "ok", or does neither. -/
theorem password_change_cb_acts (st : Option Student) :
    (∀ a ∈ (password_change_cb E env payload client st).acts,
        ∃ m, m.isText "ok" = false ∧ a = .answer client m) ∨
      ∃ st' old new hash, st = some st' ∧ payload.prop "old_password" = .ok old ∧
        check_password E st' old = .ok true ∧ payload.prop "password" = .ok new ∧
          generate_pwdhash E env new = .ok hash ∧
            (password_change_cb E env payload client st).acts =
              [.query client (.saveStudent st'._id (.password hash env.pwdsalt)),
                .answer client .ok] := by
  have refused : ∀ s : String, s ≠ "ok" → ∀ a ∈ (answer client (.text s)).acts,
      ∃ m, m.isText "ok" = false ∧ a = .answer client m := by
    intro s hs a ha
    rw [answer_acts] at ha
    exact ⟨.text s, by simpa [Answer.isText] using hs, List.mem_singleton.mp ha⟩
  have silent : ∀ a ∈ ([] : List Act), ∃ m, m.isText "ok" = false ∧ a = .answer client m :=
    fun a ha => by cases ha
  cases st with
  | none => exact .inl (refused "invalid_qrid" (by decide))
  | some st =>
      rw [password_change_cb]
      cases hold : payload.prop "old_password" with
      | error e => exact .inl silent
      | ok old =>
          rw [JS.lift_ok_bind]
          cases hcheck : check_password E st old with
          | error e => exact .inl silent
          | ok b =>
              rw [JS.lift_ok_bind]
              cases b with
              | false => exact .inl (refused "invalid_password" (by decide))
              | true =>
                  rw [if_pos rfl]
                  cases hnew : payload.prop "password" with
                  | error e => exact .inl silent
                  | ok new =>
                      rw [JS.lift_ok_bind, change_password, JS.bind_assoc]
                      cases hhash : generate_pwdhash E env new with
                      | error e => exact .inl silent
                      | ok hash =>
                          refine .inr ⟨st, old, new, hash, rfl, rfl, hcheck, rfl, hhash, ?_⟩
                          rw [JS.lift_ok_bind, query, JS.act_bind_acts, answer_acts]

end Acts

/-! ## Passwords -/

section Accepts

variable {E : Ext} {st : Student} {p : String}

/-- The record has the password `p`. -/
def Accepts (E : Ext) (st : Student) (p : String) : Prop :=
  ∃ salt, st.pwdsalt = some salt ∧ st.pwdhash = some (E.sha256 (p ++ salt))

/-- A record accepts its password and no other one. -/
theorem Accepts.check_password_iff (h : Accepts E st p) (sha : Function.Injective E.sha256)
    (pwd : JsVal) : check_password E st pwd = .ok true ↔ pwd.toStr = .ok p := by
  obtain ⟨salt, hsalt, hhash⟩ := h
  rw [check_password, hsalt, hhash]
  cases pwd.toStr with
  | error e => simp
  | ok q =>
      have hinj : E.sha256 (p ++ salt) = E.sha256 (q ++ salt) ↔ q = p := by
        rw [sha.eq_iff, String.append_left_inj]
        exact eq_comm
      show Except.ok (decide (some (E.sha256 (p ++ salt)) = some (E.sha256 (q ++ salt)))) =
        .ok true ↔ _
      simp [hinj]

end Accepts

/-- The old and the new password of a request, as they are hashed. -/
def passwords (K : Keys) (post : String) : Except Exn (String × String) := do
  let payload ← payloadOf K post
  let old ← (← payload.prop "old_password").toStr
  let new ← (← payload.prop "password").toStr
  return (old, new)

theorem passwords_eq {K : Keys} {post : String} {payload old new : JsVal} {p q : String}
    (hpayload : payloadOf K post = .ok payload) (hold : payload.prop "old_password" = .ok old)
    (hnew : payload.prop "password" = .ok new) (hp : old.toStr = .ok p) (hq : new.toStr = .ok q) :
    passwords K post = .ok (p, q) := by
  simp only [passwords, hpayload, hold, hnew, hp, hq, bind, Except.bind]
  rfl

/-- A password that passes a check has a string form. -/
theorem exists_toStr_of_check {E : Ext} {st : Student} {pwd : JsVal}
    (h : check_password E st pwd = .ok true) : ∃ p, pwd.toStr = .ok p := by
  cases hp : pwd.toStr with
  | ok p => exact ⟨p, rfl⟩
  | error e =>
      rw [check_password] at h
      split at h
      · rw [hp] at h
        cases h
      · split at h
        · cases h
        · rw [hp] at h
          cases h

/-! ## Chains -/

/-- The requests change the password `p` to `q`: the old password of each is the new
one of the request before it. -/
def ChangesTo {α : Type*} (f : α → Option (String × String)) : String → List α → String → Prop
  | p, [], q => p = q
  | p, r :: l, q => ∃ new, f r = some (p, new) ∧ ChangesTo f new l q

section ChangesTo

variable {α : Type*} {f g : α → Option (String × String)} {p q : String} {l : List α}

theorem ChangesTo.concat (h : ChangesTo f p l q) {r : α} {new : String} (hr : f r = some (q, new)) :
    ChangesTo f p (l ++ [r]) new := by
  induction l generalizing p with
  | nil =>
      cases h
      exact ⟨new, hr, rfl⟩
  | cons a l ih =>
      obtain ⟨next, ha, hl⟩ := h
      exact ⟨next, ha, ih hl⟩

theorem ChangesTo.mono (h : ChangesTo f p l q) (hfg : ∀ r v, f r = some v → g r = some v) :
    ChangesTo g p l q := by
  induction l generalizing p with
  | nil => exact h
  | cons a l ih =>
      obtain ⟨next, ha, hl⟩ := h
      exact ⟨next, hfg a _ ha, ih hl⟩

end ChangesTo

namespace Server

open Runs (Run exec exists_run_of_exec)
open Calls (Phase countP_set forall_mem_concat forall_mem_set mem_of_getElem?)

/-! ## What is answered -/

/-- The lookup of the call got the record `id`. -/
def Call.found (id : ObjectId) (c : Call) : Bool :=
  match c.query, c.phase with
  | .student _ _ _, .done (some (.student (some st))) => st._id = id
  | _, _ => false

/-- The call saves the record `id`. -/
def Call.saves (id : ObjectId) (c : Call) : Bool :=
  match c.query with
  | .saveStudent id' _ => id' = id
  | _ => false

/-- The request is about the record `id`. -/
def State.concerns (s : State) (id : ObjectId) (r : ReqId) : Bool :=
  s.calls.any fun c => c.client.req = r && c.found id

/-- The requests about the record `id` that are answered "ok". -/
def okRequests (s : State) (id : ObjectId) : List ReqId :=
  s.answers.filterMap fun x =>
    if x.2.isText "ok" && s.concerns id x.1.req then some x.1.req else none

/-- The old and the new password of request `r`. -/
def passwordsOf (K : Keys) (received : List Received) (r : ReqId) : Option (String × String) :=
  received[r]?.bind fun q => (passwords K q.post).toOption

/-- In some order the requests about the record `id` that are answered "ok" change the
password `p` to the one that the record accepts. -/
def Chained (E : Ext) (K : Keys) (id : ObjectId) (p : String) (s : State) : Prop :=
  ∃ order last, order.Perm (okRequests s id) ∧ ChangesTo (passwordsOf K s.received) p order last ∧
    ∃ st ∈ s.students, st._id = id ∧
      ∀ pwd, check_password E st pwd = .ok true ↔ pwd.toStr = .ok last

/-- The saves of the record `id` are all executed. -/
def Saved (id : ObjectId) (s : State) : Prop :=
  ∀ c ∈ s.calls, c.saves id = true → c.phase.outcome.isSome = true

/-- No save fails. -/
def SavesSucceed (s : State) : Event → Prop
  | .callFail n => ∀ c ∈ s.calls[n]?, c.query.hasCallback = true
  | _ => True

/-- The check of the old password of request `r`. -/
def recheck (E : Ext) (K : Keys) (received : List Received) (st : Student) (r : ReqId) :
    Except Exn Bool :=
  match received[r]? with
  | some q => do check_password E st (← (← payloadOf K q.post).prop "old_password")
  | none => .ok false

/-- When a save of the record `id` is executed, the record still accepts the old password
of its request. -/
def StillAccepts (E : Ext) (K : Keys) (id : ObjectId) (s : State) : Event → Prop
  | .callDb n _ => ∀ c ∈ s.calls[n]?, c.saves id = true → ∀ st ∈ s.students, st._id = id →
      passes (recheck E K s.received st c.client.req) = true
  | _ => True

/-! ## Requests and callbacks -/

section Acts

variable {E : Ext} {K : Keys} {env : Env} {client : Client} {a : Act} {q : Received}

/-- The act is a part of the change that `q` asks for. -/
def Changes (E : Ext) (K : Keys) (q : Received) : Act → Prop
  | .invoke _ _ => True
  | .answer _ _ => True
  | .query _ (.student _ _ (.password_change payload)) => payloadOf K q.post = .ok payload
  | .query _ (.saveStudent _ (.password hash salt)) =>
      ∃ old new, passwords K q.post = .ok (old, new) ∧ hash = E.sha256 (new ++ salt)
  | _ => False

theorem Changes.asks (h : Changes E K q a) : a.Asks := by
  cases a with
  | query client query =>
      intro id hid
      rw [hid] at h
      exact h.elim
  | getBalance | intent | spawn | poll => exact h.elim
  | _ => trivial

/-- A request is answered an error or leads to a lookup. -/
theorem mem_request_change {post : String}
    (h : a ∈ (prepare_action E K env client "password_change" post).acts) :
    (∃ m, m.isError = true ∧ a = .answer client m) ∨
      (∃ payload, a = .invoke "password_change" payload) ∨
      ∃ v payload, payloadOf K post = .ok payload ∧
        a = .query client (.student "stdb.getByQrid" v (.password_change payload)) := by
  rcases mem_prepare_action_payload h with h | h | ⟨b, payload, ⟨hb, -⟩, hpayload, h⟩
  · exact .inl h
  · exact .inr (.inl h)
  · have hname : actions "password_change" = some (.action .password_change) := rfl
    cases hname.symm.trans hb
    obtain ⟨v, rfl⟩ := mem_password_change h
    exact .inr (.inr ⟨v, payload, hpayload, rfl⟩)

theorem changes_request {post : String}
    (h : a ∈ (prepare_action E K env client "password_change" post).acts) :
    Changes E K ⟨"password_change", post⟩ a := by
  rcases mem_request_change h with ⟨m, -, rfl⟩ | ⟨payload, rfl⟩ | ⟨v, payload, hpayload, rfl⟩
  · trivial
  · trivial
  · exact hpayload

/-- The callback of a lookup saves the record and answers "ok", or does neither. -/
theorem onReply_change {query : Query} {r : Reply} (hq : Changes E K q (.query client query)) :
    (∀ a ∈ (onReply E env client query r).acts,
        ∃ m, m.isText "ok" = false ∧ a = .answer client m) ∨
      ∃ component v cb st hash, query = .student component v cb ∧ r = .student (some st) ∧
        Changes E K q (.query client (.saveStudent st._id (.password hash env.pwdsalt))) ∧
          (onReply E env client query r).acts =
            [.query client (.saveStudent st._id (.password hash env.pwdsalt)),
              .answer client .ok] := by
  have silent : ∀ a ∈ ([] : List Act), ∃ m, m.isText "ok" = false ∧ a = .answer client m :=
    fun a ha => by cases ha
  cases query with
  | student component v cb =>
      cases r with
      | student st =>
          cases cb with
          | password_change payload =>
              rcases @password_change_cb_acts E env client payload st with h |
                ⟨st', old, new, hash, rfl, hold, hcheck, hnew, hhash, hacts⟩
              · exact .inl h
              · refine .inr ⟨component, v, _, st', hash, rfl, rfl, ?_, hacts⟩
                obtain ⟨p, hp⟩ := exists_toStr_of_check hcheck
                rw [generate_pwdhash] at hhash
                cases hstr : new.toStr with
                | error e =>
                    rw [hstr] at hhash
                    cases hhash
                | ok p' =>
                    rw [hstr] at hhash
                    cases hhash
                    exact ⟨p, p', passwords_eq hq hold hnew hp hstr, rfl⟩
          | _ => exact hq.elim
      | _ => exact .inl silent
  | saveStudent =>
      rw [onReply_acts_of_not_hasCallback E env client rfl]
      exact .inl silent
  | _ => exact hq.elim

theorem changes_reply {query : Query} {r : Reply} (hq : Changes E K q (.query client query))
    (h : a ∈ (onReply E env client query r).acts) : Changes E K q a := by
  rcases @onReply_change E K env client q query r hq with hall |
    ⟨component, v, cb, st, hash, -, -, hsave, hacts⟩
  · obtain ⟨m, -, rfl⟩ := hall a h
    trivial
  · rw [hacts] at h
    rcases List.mem_cons.mp h with rfl | h
    · exact hsave
    · rw [List.mem_singleton.mp h]
      trivial

end Acts

/-! ## The invariant -/

section Invariant

variable {E : Ext} {K : Keys} {id : ObjectId} {p : String} {S : Students} {L : Ledger}
  {s s' : State}

/-- The request of a call that saves the record `id`. -/
def Call.issued (id : ObjectId) (c : Call) : Option ReqId :=
  if c.saves id then some c.client.req else none

/-- The same, once the save is executed. -/
def Call.executed (id : ObjectId) (c : Call) : Option ReqId :=
  if c.saves id && c.phase.outcome.isSome then some c.client.req else none

/-- The saves of the record `id` that are executed form a chain, and a request is answered
"ok" when it issues its save. -/
structure Changing (E : Ext) (K : Keys) (id : ObjectId) (p : String) (s : State) : Prop where
  unique : s.students.Unique
  single : ∀ r, (s.calls.countP fun c => c.client.req = r && c.query.hasCallback) ≤
    if r < s.received.length then 1 else 0
  issued : okRequests s id = s.calls.filterMap (Call.issued id)
  chain : ∃ order last, order.Perm (s.calls.filterMap (Call.executed id)) ∧
    ChangesTo (passwordsOf K s.received) p order last ∧
      ∃ st ∈ s.students, st._id = id ∧ Accepts E st last

theorem State.concerns_iff {r : ReqId} : s.concerns id r = true ↔
    0 < s.calls.countP fun c => c.client.req = r && c.found id := by
  rw [State.concerns, List.any_eq_true, List.countP_pos_iff]

/-- Whom a request is about does not change with the calls of other requests. -/
theorem concerns_set {n : ℕ} {c c' : Call} (hc : s.calls[n]? = some c) {r : ReqId}
    (hr : (c'.client.req = r && c'.found id) = (c.client.req = r && c.found id)) :
    State.concerns { s with calls := s.calls.set n c' } id r = s.concerns id r := by
  rw [Bool.eq_iff_iff, State.concerns_iff, State.concerns_iff]
  show 0 < (s.calls.set n c').countP (fun c : Call => c.client.req = r && c.found id) ↔ _
  rw [Calls.countP_set_eq (p := fun c : Call => c.client.req = r && c.found id) hc hr]

theorem Call.found_of_open {c : Call} (h : c.phase.open? = true) : c.found id = false := by
  rw [Call.found]
  split
  next hp =>
    rw [hp] at h
    cases h
  next => rfl

theorem Call.hasCallback_of_found {c : Call} (h : c.found id = true) :
    c.query.hasCallback = true := by
  rw [Call.found] at h
  split at h
  next hq _ => rw [hq]; rfl
  next => cases h

theorem okRequests_congr (ha : s'.answers = s.answers)
    (hc : ∀ x ∈ s.answers, s'.concerns id x.1.req = s.concerns id x.1.req) :
    okRequests s' id = okRequests s id := by
  rw [okRequests, okRequests, ha]
  exact List.filterMap_congr fun x hx => by rw [hc x hx]

namespace Changing

theorem init (h : S.Unique) {st : Student} (hst : st ∈ S) (hid : st._id = id)
    (hp : Accepts E st p) (L : Ledger) : Changing E K id p (State.init S L) where
  unique := h
  single _ := Nat.zero_le _
  issued := rfl
  chain := ⟨[], p, .nil, rfl, st, hst, hid, hp⟩

theorem passwordsOf_concat (received : List Received) (q : Received) (r : ReqId)
    (v : String × String) (h : passwordsOf K received r = some v) :
    passwordsOf K (received ++ [q]) r = some v := by
  obtain ⟨q', hq, hv⟩ := Option.bind_eq_some_iff.mp h
  exact Option.bind_eq_some_iff.mpr ⟨q', Calls.getElem?_append_of_some hq [q], hv⟩

section SetCall

variable (h : Changing E K id p s) {n : ℕ} {c d : Call} (hc : s.calls[n]? = some c)
  (hclient : d.client = c.client) (hquery : d.query = c.query)

include h hc hclient hquery

theorem single_set (r : ReqId) :
    ((s.calls.set n d).countP fun c => c.client.req = r && c.query.hasCallback) ≤
      if r < s.received.length then 1 else 0 := by
  have hcount := Calls.countP_set_eq (b := d)
    (p := fun c : Call => c.client.req = r && c.query.hasCallback) hc (by rw [hclient, hquery])
  exact hcount.trans_le (h.single r)

theorem issued_set (hanswers : s'.answers = s.answers) (hcalls : s'.calls = s.calls.set n d)
    (hfound : ∀ x ∈ s.answers, (d.client.req = x.1.req && d.found id) =
      (c.client.req = x.1.req && c.found id)) :
    okRequests s' id = s'.calls.filterMap (Call.issued id) := by
  have hsame : okRequests s' id = okRequests s id := by
    refine okRequests_congr hanswers fun x hx => ?_
    have hset := concerns_set hc (hfound x hx)
    rwa [State.concerns, ← hcalls] at hset
  have hsaves : d.saves id = c.saves id := by rw [Call.saves, Call.saves, hquery]
  have hissued : d.issued id = c.issued id := by rw [Call.issued, Call.issued, hsaves, hclient]
  rw [hsame, h.issued, hcalls, Calls.filterMap_set (Call.issued id) hc hissued]

/-- A call changes its phase, but is not executed. -/
theorem setCall (hexecuted : d.executed id = c.executed id)
    (hfound : ∀ x ∈ s.answers, (d.client.req = x.1.req && d.found id) =
      (c.client.req = x.1.req && c.found id)) :
    Changing E K id p { s with calls := s.calls.set n d } where
  unique := h.unique
  single := h.single_set hc hclient hquery
  issued := h.issued_set hc hclient hquery rfl rfl hfound
  chain := by
    obtain ⟨order, last, hperm, hchain, hst⟩ := h.chain
    refine ⟨order, last, ?_, hchain, hst⟩
    show order.Perm ((s.calls.set n d).filterMap (Call.executed id))
    rwa [Calls.filterMap_set (Call.executed id) hc hexecuted]

end SetCall

/-- New calls are issued, and answers are given. -/
theorem grow (h : Changing E K id p s) {l : List Call} {m : List (Client × Answer)}
    (hreceived : ∀ r v, passwordsOf K s.received r = some v →
      passwordsOf K s'.received r = some v)
    (hstudents : s'.students = s.students) (hcalls : s'.calls = s.calls ++ l)
    (hanswers : s'.answers = s.answers ++ m) (hsent : ∀ c ∈ l, c.phase = .sent)
    (hsingle : ∀ r, (s'.calls.countP fun c => c.client.req = r && c.query.hasCallback) ≤
      if r < s'.received.length then 1 else 0)
    (hok : (m.filterMap fun x =>
      if x.2.isText "ok" && s.concerns id x.1.req then some x.1.req else none) =
        l.filterMap (Call.issued id)) : Changing E K id p s' where
  unique := by rw [hstudents]; exact h.unique
  single := hsingle
  issued := by
    have hconcerns : ∀ r, s'.concerns id r = s.concerns id r := by
      intro r
      have hnone : (l.any fun c => c.client.req = r && c.found id) = false := by
        rw [List.any_eq_false]
        intro c hc
        have hopen : c.phase.open? = true := by rw [hsent c hc]; rfl
        have hfound : c.found id = false := Call.found_of_open hopen
        simp [hfound]
      rw [State.concerns, hcalls, List.any_append, hnone, Bool.or_false, State.concerns]
    have hsame : okRequests s' id = okRequests s id ++ m.filterMap fun x =>
        if x.2.isText "ok" && s.concerns id x.1.req then some x.1.req else none := by
      simp only [okRequests, hconcerns, hanswers, List.filterMap_append]
    rw [hsame, hok, h.issued, hcalls, List.filterMap_append]
  chain := by
    obtain ⟨order, last, hperm, hchain, hst⟩ := h.chain
    have hnone : l.filterMap (Call.executed id) = [] := by
      rw [List.filterMap_eq_nil_iff]
      intro c hc
      rw [Call.executed, hsent c hc]
      simp
    refine ⟨order, last, ?_, hchain.mono hreceived, by rwa [hstudents]⟩
    rwa [hcalls, List.filterMap_append, hnone, List.append_nil]

/-- An answer that is not "ok". -/
theorem send (h : Changing E K id p s) (client : Client) {m : Answer}
    (hm : m.isText "ok" = false) : Changing E K id p (s.send client m) := by
  refine h.grow (l := []) (m := [(client, m)]) (fun _ _ h => h) rfl (List.append_nil _).symm rfl
    (fun c hc => by cases hc) h.single ?_
  simp [hm]

/-- Answers that are not "ok". -/
theorem refuse (h : Changing E K id p s) {client : Client} {acts : List Act}
    (hacts : ∀ a ∈ acts, ∃ m, m.isText "ok" = false ∧ a = .answer client m) (w : WorkerId)
    (now : Time) : Changing E K id p (s.performAll w now acts) := by
  induction acts generalizing s with
  | nil => exact h
  | cons a acts ih =>
      obtain ⟨m, hm, rfl⟩ := hacts a (List.mem_cons_self ..)
      exact ih (h.send client hm) fun b hb => hacts b (List.mem_cons_of_mem _ hb)

/-- A save is issued, and its request is answered "ok". -/
theorem answerOk (h : Changing E K id p s) {client : Client} {id' : ObjectId}
    {u : StudentUpdate} (hconcerns : s.concerns id client.req = decide (id' = id)) (w : WorkerId)
    (now : Time) :
    Changing E K id p
      (s.performAll w now [.query client (.saveStudent id' u), .answer client .ok]) := by
  refine h.grow (l := [⟨w, client, .saveStudent id' u, .sent⟩]) (m := [(client, .ok)])
    (fun _ _ h => h) rfl rfl rfl (fun c hc => ?_) (fun r => ?_) ?_
  · rw [List.mem_singleton.mp hc]
  · show (s.calls ++ [_]).countP (fun c : Call => c.client.req = r && c.query.hasCallback) ≤ _
    have hcb : (Query.saveStudent id' u).hasCallback = false := rfl
    rw [List.countP_append, List.countP_singleton, hcb, Bool.and_false]
    exact h.single r
  · simp only [List.filterMap_cons, List.filterMap_nil, Call.issued, Call.saves, hconcerns]
    rfl

/-- A call whose query is not a lookup, or whose callback has not run, finds nothing. -/
theorem found_eq {c c' : Call} (hc : c.found id = false) (hc' : c'.found id = false) (r : ReqId) :
    (c'.client.req = r && c'.found id) = (c.client.req = r && c.found id) := by
  rw [hc, hc', Bool.and_false, Bool.and_false]

/-- The check that is made again accepts one password only. -/
theorem old_eq_of_recheck {received : List Received} {r : ReqId} {q : Received} {st : Student}
    {old new last : String} (hq : received[r]? = some q)
    (hpasswords : passwords K q.post = .ok (old, new))
    (hcheck : recheck E K received st r = .ok true) (haccepts : Accepts E st last)
    (sha : Function.Injective E.sha256) : old = last := by
  rw [recheck, hq] at hcheck
  rw [passwords] at hpasswords
  cases hpayload : payloadOf K q.post with
  | error e =>
      rw [hpayload] at hpasswords
      cases hpasswords
  | ok payload =>
      cases hold : payload.prop "old_password" with
      | error e =>
          simp only [hpayload, hold, bind, Except.bind] at hpasswords
          cases hpasswords
      | ok pwd =>
          simp only [hpayload, hold, bind, Except.bind] at hpasswords hcheck
          have hstr := (haccepts.check_password_iff sha pwd).mp hcheck
          rw [hstr] at hpasswords
          dsimp only at hpasswords
          split at hpasswords
          · cases hpasswords
          · split at hpasswords
            · cases hpasswords
            · cases hpasswords
              rfl

/-- A save is executed, and its old password is still in place. -/
theorem save (h : Changing E K id p s) {n : ℕ} {c : Call} {id' : ObjectId} {hash salt : String}
    (hc : s.calls[n]? = some c) (hp : c.phase = .sent)
    (hquery : c.query = .saveStudent id' (.password hash salt))
    (hfrom : From (Changes E K) s.received c.client (.query c.client c.query))
    (hstill : c.saves id = true → ∀ st ∈ s.students, st._id = id →
      passes (recheck E K s.received st c.client.req) = true)
    (sha : Function.Injective E.sha256) :
    Changing E K id p { s with
      students := s.students.map fun t => if t._id = id' then t.setPassword hash salt else t
      calls := s.calls.set n { c with phase := .replied (some .done) } } := by
  obtain ⟨order, last, hperm, hchain, st, hst, hid, haccepts⟩ := h.chain
  have hopen : c.phase.open? = true := by rw [hp]; rfl
  refine ⟨h.unique.map fun t => ?_, h.single_set hc rfl rfl,
    h.issued_set (d := { c with phase := .replied (some .done) }) hc rfl rfl rfl rfl
      fun x _ => ?_, ?_⟩
  · split <;> exact ⟨rfl, rfl⟩
  · exact found_eq (Call.found_of_open hopen) (Call.found_of_open rfl) x.1.req
  · by_cases heq : id' = id
    · subst heq
      have hsaves : c.saves id' = true := by simp [Call.saves, hquery]
      obtain ⟨q, hq, hb⟩ := hfrom
      rw [hquery] at hb
      obtain ⟨old, new, hpasswords, rfl⟩ := hb
      have hold : old = last :=
        old_eq_of_recheck hq hpasswords (passes_eq_true.mp (hstill hsaves st hst hid)) haccepts sha
      have hof : passwordsOf K s.received c.client.req = some (last, new) := by
        rw [passwordsOf, hq, Option.bind_some, hpasswords, hold]
        rfl
      refine ⟨order ++ [c.client.req], new, ?_, hchain.concat hof, st.setPassword _ salt, ?_, hid,
        salt, rfl, rfl⟩
      · have hbefore : c.executed id' = none := by simp [Call.executed, hp]
        have hafter : Call.executed id' { c with phase := .replied (some .done) } =
            some c.client.req := by
          rw [Call.executed]
          simp only [Phase.outcome_replied, Option.isSome_some, Bool.and_true]
          exact if_pos hsaves
        have hperm' := Calls.filterMap_set_perm hc hbefore hafter
        exact (List.perm_append_singleton _ order).trans ((hperm.cons _).trans hperm'.symm)
      · exact List.mem_map.mpr ⟨st, hst, if_pos hid⟩
    · have hother : ∀ c' : Call, c'.query = c.query → c'.executed id = none := by
        intro c' hc'
        simp [Call.executed, Call.saves, hc', hquery, heq]
      refine ⟨order, last, ?_, hchain, st, List.mem_map.mpr ⟨st, hst, if_neg ?_⟩, hid, haccepts⟩
      · have hsame := Calls.filterMap_set (b := { c with phase := .replied (some .done) })
          (Call.executed id) hc
          ((hother { c with phase := .replied (some .done) } rfl).trans (hother c rfl).symm)
        exact hperm.trans (.of_eq hsame.symm)
      · rw [hid]
        exact Ne.symm heq

end Changing

theorem handled_password_change : Handled E K "password_change" (Changes E K) where
  request := changes_request
  reply := changes_reply
  asks := Changes.asks
  once env post := .of_action env post rfl (fun fns h => by cases h) fun _ => trivial

/-- A request that arrives issues a lookup or is answered an error. -/
theorem Changing.request (h : Changing E K id p s) (w : WorkerId) (env : Env) (post : String) :
    Changing E K id p
      (State.performAll w env.now { s with
        received := s.received ++ [⟨"password_change", post⟩] }
        (prepare_action E K env ⟨s.received.length, none⟩ "password_change" post).acts) := by
  have serves : Serves (Act.For (⟨s.received.length, none⟩ : Client).req)
      (prepare_action E K env ⟨s.received.length, none⟩ "password_change" post) :=
    serves_prepare_action (handled_password_change.once env post)
  obtain ⟨hreceived, hstudents, -⟩ := State.performAll_frame w env.now
    (prepare_action E K env ⟨s.received.length, none⟩ "password_change" post).acts
    { s with received := s.received ++ [⟨"password_change", post⟩] }
  have hcalls := State.performAll_calls w env.now
    { s with received := s.received ++ [⟨"password_change", post⟩] }
    (prepare_action E K env ⟨s.received.length, none⟩ "password_change" post).acts
  have hanswers := State.performAll_answers w env.now
    { s with received := s.received ++ [⟨"password_change", post⟩] }
    (prepare_action E K env ⟨s.received.length, none⟩ "password_change" post).acts
  refine h.grow (fun r v hv => ?_) hstudents hcalls hanswers (fun c hc => ?_) (fun r => ?_) ?_
  · rw [hreceived]
    exact passwordsOf_concat s.received _ r v hv
  · obtain ⟨a, -, hstarted⟩ := List.mem_filterMap.mp hc
    exact startedCall_phase hstarted
  · have hold := h.single r
    have hnew := countP_startedCall w serves.acts r
    have hone := serves.once
    rw [hcalls, hreceived, List.countP_append, List.length_append, List.length_singleton,
      AtMostOne.bound_succ]
    refine Nat.add_le_add hold (hnew.trans ?_)
    split
    · exact hone
    · exact le_rfl
  · -- an error is not "ok", and a lookup saves nothing
    have hsaves : ((prepare_action E K env ⟨s.received.length, none⟩ "password_change"
        post).acts.filterMap (startedCall w)).filterMap (Call.issued id) = [] := by
      rw [List.filterMap_filterMap, List.filterMap_eq_nil_iff]
      intro a ha
      rcases mem_request_change ha with ⟨m, -, rfl⟩ | ⟨payload, rfl⟩ | ⟨v, payload, -, rfl⟩ <;> rfl
    rw [hsaves, List.filterMap_eq_nil_iff]
    intro x hx
    obtain ⟨a, ha, hgiven⟩ := List.mem_filterMap.mp hx
    rcases mem_request_change ha with ⟨m, hm, rfl⟩ | ⟨payload, rfl⟩ | ⟨v, payload, -, rfl⟩
    · cases hgiven
      simp [Answer.isText_ok_of_isError hm]
    · cases hgiven
    · cases hgiven

/-- The invariant of runs of changes. -/
structure Changed (E : Ext) (K : Keys) (L : Ledger) (id : ObjectId) (p : String) (s : State) : Prop
    extends Underway (Changes E K) L s where
  changing : Changing E K id p s

namespace Changed

/-- A call of a change looks up a record or saves a password. -/
theorem call (h : Changed E K L id p s) {n : ℕ} {c : Call} (hc : s.calls[n]? = some c) :
    (∃ component v cb, c.query = .student component v cb) ∨
      ∃ id' hash salt, c.query = .saveStudent id' (.password hash salt) := by
  obtain ⟨q, -, hq⟩ := h.traced.calls c (mem_of_getElem? hc)
  cases hquery : c.query with
  | student component v cb => exact .inl ⟨component, v, cb, rfl⟩
  | saveStudent id' u =>
      rw [hquery] at hq
      cases u with
      | profile => exact hq.elim
      | password hash salt => exact .inr ⟨id', hash, salt, rfl⟩
  | _ =>
      rw [hquery] at hq
      exact hq.elim

theorem executed_lookup {i : ObjectId} {c : Call} {component : String} {qrid : JsVal}
    {cb : StudentCb} (hquery : c.query = .student component qrid cb) : c.executed i = none := by
  simp [Call.executed, Call.saves, hquery]

/-- A lookup replies. -/
theorem lookupReplied (h : Changed E K L id p s) {n : ℕ} {c : Call} (v : Option Reply)
    {component : String} {qrid : JsVal} {cb : StudentCb} (hc : s.calls[n]? = some c)
    (hquery : c.query = .student component qrid cb) (hp : c.phase = .sent) :
    Changing E K id p { s with calls := s.calls.set n { c with phase := .replied v } } := by
  have hexecuted := executed_lookup (i := id) (c := { c with phase := .replied v }) hquery
  refine h.changing.setCall hc rfl rfl (hexecuted.trans (executed_lookup hquery).symm)
    fun x _ => Changing.found_eq ?_ ?_ x.1.req
  · exact Call.found_of_open (by rw [hp]; rfl)
  · exact Call.found_of_open rfl

/-- A save is done. -/
theorem saveDone (h : Changed E K L id p s) {n : ℕ} {c : Call} {v : Option Reply}
    {id' : ObjectId} {u : StudentUpdate} (hc : s.calls[n]? = some c)
    (hquery : c.query = .saveStudent id' u) (hp : c.phase = .replied v) :
    Changing E K id p { s with calls := s.calls.set n { c with phase := .done v } } := by
  have hfound : ∀ d : Call, d.query = c.query → d.found id = false := by
    intro d hd
    rw [Call.found, hd, hquery]
  refine h.changing.setCall hc rfl rfl ?_ fun x _ =>
    Changing.found_eq (hfound c rfl) (hfound { c with phase := .done v } rfl) x.1.req
  have houtcome : c.phase.outcome = some v := by rw [hp]; rfl
  rw [Call.executed, Call.executed, houtcome]
  rfl

/-- The callback of a lookup runs, and its request is not answered yet. -/
theorem lookupDone (h : Changed E K L id p s) {n : ℕ} {c : Call} {v : Option Reply}
    {component : String} {qrid : JsVal} {cb : StudentCb} (hc : s.calls[n]? = some c)
    (hquery : c.query = .student component qrid cb) (hp : c.phase = .replied v) :
    Changing E K id p { s with calls := s.calls.set n { c with phase := .done v } } := by
  have hzero := h.answersFor_eq_zero (mem_of_getElem? hc) (by rw [hquery]; rfl) (by rw [hp]; rfl)
  rw [answersFor, List.countP_eq_zero] at hzero
  have hexecuted := executed_lookup (i := id) (c := { c with phase := .done v }) hquery
  refine h.changing.setCall hc rfl rfl (hexecuted.trans (executed_lookup hquery).symm)
    fun x hx => ?_
  have hne : c.client.req ≠ x.1.req := fun heq => hzero x hx (decide_eq_true heq.symm)
  simp [hne]

/-- The callback of a lookup. -/
theorem lookupReply (h : Changed E K L id p s) {n : ℕ} {c : Call} {r : Reply}
    {component : String} {qrid : JsVal} {cb : StudentCb} (hc : s.calls[n]? = some c)
    (hquery : c.query = .student component qrid cb) (hp : c.phase = .replied (some r))
    (env : Env) :
    Changing E K id p
      (State.performAll c.worker env.now
        { s with calls := s.calls.set n { c with phase := .done (some r) } }
        (onReply E env c.client c.query r).acts) := by
  have hdone := h.lookupDone hc hquery hp
  obtain ⟨q, hq, hchanges⟩ := h.traced.calls c (mem_of_getElem? hc)
  rcases @onReply_change E K env c.client q c.query r hchanges with hall |
    ⟨component', v, cb', st, hash, hquery', rfl, -, hacts⟩
  · exact hdone.refuse hall c.worker env.now
  · rw [hacts]
    refine hdone.answerOk ?_ c.worker env.now
    -- the request is about the record that its only lookup has found
    have hmem : { c with phase := .done (some (.student (some st))) } ∈
        s.calls.set n { c with phase := .done (some (.student (some st))) } :=
      Calls.mem_set_self _ hc
    have hfound : Call.found id { c with phase := .done (some (.student (some st))) } =
        decide (st._id = id) := by
      rw [Call.found, hquery]
    rw [Bool.eq_iff_iff, State.concerns, List.any_eq_true]
    constructor
    · rintro ⟨d, hd, hdfound⟩
      obtain ⟨hreq, hdfound⟩ := Bool.and_eq_true_iff.mp hdfound
      have hone := (hdone.single c.client.req).trans (show _ ≤ 1 by split <;> decide)
      have heq := Calls.eq_of_countP_le_one hone hd hmem
        (by rw [hreq, Call.hasCallback_of_found hdfound]; rfl)
        (by rw [hquery]; simp [Query.hasCallback])
      rwa [← hfound, ← heq]
    · intro hid
      exact ⟨_, hmem, by rw [hfound, hid]; simp⟩

/-- A step whose saves find their old passwords in place. -/
theorem changing_step (h : Changed E K L id p s) (sha : Function.Injective E.sha256) {e : Event}
    (hok : Only "password_change" e) (hsaves : SavesSucceed s e)
    (hstill : StillAccepts E K id s e) (hs : Server.step E K s e = some s') :
    Changing E K id p s' := by
  cases h.asking.step_cases hs with
  | stay => exact h.changing
  | request w env name post =>
      cases hok
      exact h.changing.request w env post
  | @callDb n r c T m hc hp hx =>
      obtain ⟨component, v, cb, hquery⟩ | ⟨id', hash, salt, hquery⟩ := h.call hc
      · rw [hquery] at hx
        obtain ⟨heq, -⟩ := execute_student hx
        obtain rfl : T = s.students := congrArg State.students heq
        obtain rfl : m = s.nextStudent := congrArg State.nextStudent heq
        exact h.lookupReplied (some r) hc hquery hp
      · rw [hquery] at hx
        obtain ⟨rfl, heq⟩ := execute_saveStudent hx
        rw [h.changing.unique.update_password, Option.getD_some] at heq
        obtain rfl : T = _ := congrArg State.students heq
        obtain rfl : m = s.nextStudent := congrArg State.nextStudent heq
        exact h.changing.save hc hp hquery (h.traced.calls c (mem_of_getElem? hc))
          (hstill c hc) sha
  | @callFail n c hc hp =>
      obtain ⟨component, v, cb, hquery⟩ | ⟨id', hash, salt, hquery⟩ := h.call hc
      · exact h.lookupReplied none hc hquery hp
      · have hcb := hsaves c hc
        rw [hquery] at hcb
        cases hcb
  | @callReply n c r env hc hp =>
      obtain ⟨component, v, cb, hquery⟩ | ⟨id', hash, salt, hquery⟩ := h.call hc
      · exact h.lookupReply hc hquery hp env
      · have hacts : (onReply E env c.client c.query r).acts = [] :=
          onReply_acts_of_not_hasCallback E env c.client (by rw [hquery]; rfl) r
        rw [hacts]
        exact h.saveDone hc hquery hp
  | @callError n c env hc hp hcb =>
      obtain ⟨component, v, cb, hquery⟩ | ⟨id', hash, salt, hquery⟩ := h.call hc
      · exact (h.lookupDone hc hquery hp).send c.client rfl
      · rw [hquery] at hcb
        cases hcb
  | @callDropped n c env hc hp hcb =>
      obtain ⟨component, v, cb, hquery⟩ | ⟨id', hash, salt, hquery⟩ := h.call hc
      · rw [hquery] at hcb
        cases hcb
      · exact h.saveDone hc hquery hp

theorem step (h : Changed E K L id p s) (sha : Function.Injective E.sha256) {e : Event}
    (hok : Only "password_change" e) (hsaves : SavesSucceed s e)
    (hstill : StillAccepts E K id s e) (hs : Server.step E K s e = some s') :
    Changed E K L id p s' :=
  ⟨h.toUnderway.step handled_password_change hok hs, h.changing_step sha hok hsaves hstill hs⟩

/-- When all saves are executed, the requests that are answered "ok" are those of the
chain. -/
theorem chained (h : Changed E K L id p s) (sha : Function.Injective E.sha256)
    (saved : Saved id s) : Chained E K id p s := by
  obtain ⟨order, last, hperm, hchain, st, hst, hid, haccepts⟩ := h.changing.chain
  have hsame : s.calls.filterMap (Call.executed id) = s.calls.filterMap (Call.issued id) := by
    refine List.filterMap_congr fun c hc => ?_
    rw [Call.executed, Call.issued]
    cases hsaves : c.saves id with
    | false => rfl
    | true => rw [saved c hc hsaves, Bool.and_true]
  rw [hsame, ← h.changing.issued] at hperm
  exact ⟨order, last, hperm, hchain, st, hst, hid, haccepts.check_password_iff sha⟩

end Changed

end Invariant

/-! ## Runs -/

/-- Changes of passwords of which every save of the record `id` finds the old password of
its request in place. -/
def InPlace (E : Ext) (K : Keys) (id : ObjectId) (s : State) (e : Event) : Prop :=
  (Only "password_change" e ∧ SavesSucceed s e) ∧ StillAccepts E K id s e

/-- When every save finds its old password in place, the requests that are answered "ok"
form a chain from the initial password to the one that is accepted in the end. -/
theorem password_changes_chain {E : Ext} {K : Keys} {S : Students} {L : Ledger} {s : State}
    {id : ObjectId} {p : String} {st : Student} (sha : Function.Injective E.sha256)
    (unique : S.Unique) (mem : st ∈ S) (hid : st._id = id) (initial : Accepts E st p)
    (run : Run (step E K) (InPlace E K id) (State.init S L) s) (saved : Saved id s) :
    Chained E K id p s := by
  have start : Changed E K L id p (State.init S L) := ⟨.init S L, .init unique mem hid initial L⟩
  have h : Changed E K L id p s := run.invariant start fun _ _ _ ih hok hs =>
    ih.step sha hok.1.1 hok.1.2 hok.2 hs
  exact h.chained sha saved

section Sample

instance (s : State) (e : Event) : Decidable (SavesSucceed s e) :=
  match e with
  | .callFail _ => inferInstanceAs (Decidable (∀ _ ∈ _, _))
  | .request .. | .callDb .. | .removeDb .. | .callReply .. | .sumDb .. | .sumReply ..
  | .pollTimeout _ | .handleDbPollAnswer .. | .bank _ => isTrue trivial

instance (E : Ext) (K : Keys) (id : ObjectId) (s : State) (e : Event) :
    Decidable (StillAccepts E K id s e) :=
  match e with
  | .callDb .. => inferInstanceAs (Decidable (∀ _ ∈ _, _))
  | .request .. | .removeDb .. | .callFail _ | .callReply .. | .sumDb .. | .sumReply ..
  | .pollTimeout _ | .handleDbPollAnswer .. | .bank _ => isTrue trivial

instance (E : Ext) (K : Keys) (id : ObjectId) (s : State) (e : Event) :
    Decidable (InPlace E K id s e) :=
  inferInstanceAs (Decidable (_ ∧ _))

instance (id : ObjectId) (s : State) : Decidable (Saved id s) :=
  inferInstanceAs (Decidable (∀ c ∈ s.calls, c.saves id = true → c.phase.outcome.isSome = true))

/-- Queries that change the password of a citizen, by the name of the new one. -/
def changeKeys : Keys := .simple [
  ("a", "\x7b\"payload\":\x7b\"qrid\":\"1\",\"old_password\":\"pw\",\"password\":\"a\"\x7d\x7d"),
  ("b", "\x7b\"payload\":\x7b\"qrid\":\"1\",\"old_password\":\"pw\",\"password\":\"b\"\x7d\x7d"),
  ("c", "\x7b\"payload\":\x7b\"qrid\":\"1\",\"old_password\":\"a\",\"password\":\"c\"\x7d\x7d")]

theorem sha256_simple : Function.Injective Ext.simple.sha256 :=
  fun _ _ h => (String.append_right_inj "sha256:").mp h

theorem unique_someStudent : Students.Unique [someStudent 1] :=
  ⟨List.pairwise_singleton .., List.pairwise_singleton ..⟩

/-- The second request looks up the record when the first one has saved it. -/
def changeEvents : List Event :=
  [.request 0 .start "password_change" (bodyOf "a"), .callDb 0 (.student (some (someStudent 1))),
    .callReply 0 .start, .request 1 .start "password_change" (bodyOf "c"), .callDb 1 .done,
    .callDb 2 (.student (some ((someStudent 1).setPassword "sha256:asalt" "salt"))),
    .callReply 2 .start, .callDb 3 .done]

theorem password_changes_chain_two : ∃ s, Run (step Ext.simple changeKeys)
    (InPlace Ext.simple changeKeys 1) (State.init [someStudent 1] []) s ∧
      okRequests s 1 = [0, 1] ∧ Chained Ext.simple changeKeys 1 "pw" s := by
  have hexec : (exec (step Ext.simple changeKeys) (InPlace Ext.simple changeKeys 1)
      (State.init [someStudent 1] []) changeEvents).map
        (fun s => (okRequests s 1, decide (Saved 1 s))) = some ([0, 1], true) := by decide +kernel
  obtain ⟨s, run, h⟩ := exists_run_of_exec changeEvents hexec
  obtain ⟨hok, hsaved⟩ := Prod.ext_iff.mp h
  exact ⟨s, run, hok, password_changes_chain sha256_simple unique_someStudent
    (List.mem_singleton_self _) rfl ⟨"salt", rfl, rfl⟩ run (of_decide_eq_true hsaved)⟩

/-- Two requests look up the record before either of them saves it. -/
def raceEvents : List Event :=
  [.request 0 .start "password_change" (bodyOf "a"),
    .request 1 .start "password_change" (bodyOf "b"),
    .callDb 0 (.student (some (someStudent 1))), .callDb 1 (.student (some (someStudent 1))),
    .callReply 0 .start, .callReply 1 .start, .callDb 2 .done, .callDb 3 .done]

/-- Two requests change the password "pw", and both are answered "ok". -/
theorem both_change_password : ¬ ∀ (E : Ext) (K : Keys) (S : Students) (L : Ledger) (s : State)
    (id : ObjectId) (p : String) (st : Student), Function.Injective E.sha256 → S.Unique →
      st ∈ S → st._id = id → Accepts E st p →
        Run (step E K) (fun s e => Only "password_change" e ∧ SavesSucceed s e)
          (State.init S L) s → Saved id s → Chained E K id p s := by
  intro claim
  have hexec : (exec (step Ext.simple changeKeys)
      (fun s e => Only "password_change" e ∧ SavesSucceed s e) (State.init [someStudent 1] [])
      raceEvents).map (fun s => (okRequests s 1, decide (Saved 1 s),
        [0, 1].map (passwordsOf changeKeys s.received))) =
          some ([0, 1], true, [some ("pw", "a"), some ("pw", "b")]) := by decide +kernel
  obtain ⟨s, run, h⟩ := exists_run_of_exec raceEvents hexec
  obtain ⟨hok, h⟩ := Prod.ext_iff.mp h
  obtain ⟨hsaved, h⟩ := Prod.ext_iff.mp h
  obtain ⟨ha, hb⟩ : passwordsOf changeKeys s.received 0 = some ("pw", "a") ∧
      passwordsOf changeKeys s.received 1 = some ("pw", "b") := by simpa using h
  obtain ⟨order, last, hperm, hchain, -⟩ := claim Ext.simple changeKeys [someStudent 1] [] s 1 "pw"
    (someStudent 1) sha256_simple unique_someStudent (List.mem_singleton_self _) rfl
    ⟨"salt", rfl, rfl⟩ run (of_decide_eq_true hsaved)
  rw [show okRequests s 1 = [0, 1] from hok] at hperm
  have hold : ∀ r ∈ order, ∃ new, passwordsOf changeKeys s.received r = some ("pw", new) ∧
      new ≠ "pw" := by
    intro r hr
    have hmem := hperm.mem_iff.mp hr
    simp only [List.mem_cons, List.not_mem_nil, or_false] at hmem
    obtain rfl | rfl := hmem
    · exact ⟨"a", ha, by decide⟩
    · exact ⟨"b", hb, by decide⟩
  -- the second request of the chain would have to start with the password of the first one
  match order, hperm.length_eq with
  | [r, r'], _ =>
      obtain ⟨new, hr, new', hr', -⟩ := hchain
      obtain ⟨v, hv, hne⟩ := hold r (by simp)
      obtain ⟨v', hv', -⟩ := hold r' (by simp)
      cases hr.symm.trans hv
      cases hr'.symm.trans hv'
      exact hne rfl

end Sample

end Server

end SchuleAlsStaat
