import SchuleAlsStaat.Actions.Duties
import SchuleAlsStaat.Pending.Model

/-!
# The server

All workers and the database they share.  A request runs its action up to the
first database calls, and each callback runs up to the next ones.  What such a
stretch of code does is a list of acts, and `perform` carries them out.  A
transaction goes on in the system of pending transactions, which is a part of
the state.

As there, the database executes a call at any time and the callback runs at
any later time.  The configuration may change in between, so it comes with the
event, like the clock and the random numbers.
-/

namespace SchuleAlsStaat

open Js (JsVal)
open Calls (Phase withSent withReply withSent_eq_some withReply_eq_some)

/-! ## What the database does -/

/-- `findOne({qrid : v})`. -/
def Students.findOne (E : Ext) (S : Students) (v : JsVal) : Option Student :=
  S.find? fun st => E.matchesQrid v st.qrid

/-- The cast of a new record to `studentSchema`. -/
def NewStudent.cast (E : Ext) (id : ObjectId) (info : NewStudent) : Option Student := do
  return {
    _id := id
    qrid := ← E.castString info.qrid
    firstname := (← E.castString info.firstname).toOption
    lastname := (← E.castString info.lastname).toOption
    picname := (← E.castString info.picname).toOption
    country := (← E.castString info.country).toOption
    birth := ← E.castDate (some (.str info.birth))
    type := some info.type
    special_name := (← E.castString info.special_name).toOption
    appear := []
    pwdhash := some info.pwdhash
    pwdsalt := some info.pwdsalt }

/-- A new record gets its `_id` and the QR-ID it is given. -/
theorem NewStudent.cast_eq_some {E : Ext} {id : ObjectId} {info : NewStudent} {st : Student}
    (h : info.cast E id = some st) : st._id = id ∧ E.castString info.qrid = some st.qrid := by
  simp only [NewStudent.cast, Option.bind_eq_bind, Option.bind_eq_some_iff] at h
  obtain ⟨qrid, hqrid, _, -, _, -, _, -, _, -, _, -, _, -, h⟩ := h
  cases h
  exact ⟨rfl, hqrid⟩

namespace Server

/-! ## State -/

/-- A request as it arrives. -/
structure Received where
  name : String
  post : String
deriving DecidableEq, Repr

/-- A call to the database that an action or a callback has issued.  The reply
is `none` for an error. -/
structure Call where
  worker : WorkerId
  client : Client
  query : Query
  phase : Phase (Option Reply)

/-- `getBalance` for an answer. -/
structure GetBalance where
  client : Client
  id : ObjectId
  sums : Aggregations

/-- An element of the array `polls` of a worker.  It is not active after
`delete`. -/
structure Poll where
  worker : WorkerId
  client : Client
  date : ℚ
  qrid : JsVal
  active : Bool

structure State where
  /-- The requests so far, in the order of arrival. -/
  received : List Received
  students : Students
  /-- The next `_id` of a student. -/
  nextStudent : ObjectId
  bank : Pending.State
  calls : List Call
  balances : List GetBalance
  polls : List Poll
  /-- The answers of actions.  Those of pending transactions are in `bank`. -/
  answers : List (Client × Answer)

/-- The state when the workers start on given collections. -/
def State.init (S : Students) (L : Ledger) : State where
  received := []
  students := S
  nextStudent := (S.map Student._id).foldr max 0 + 1
  bank := Pending.State.init L
  calls := []
  balances := []
  polls := []
  answers := []

/-! ## Acts -/

/-- An act of worker `w` at time `now`. -/
def State.perform (w : WorkerId) (now : Time) (s : State) : Act → State
  | .invoke _ _ => s
  | .answer client m => { s with answers := s.answers ++ [(client, m)] }
  | .query client q => { s with calls := s.calls ++ [⟨w, client, q, .sent⟩] }
  | .getBalance client id => { s with balances := s.balances ++ [⟨client, id, .start⟩] }
  | .intent client sender entry => { s with bank := s.bank.intent w now sender entry client }
  | .spawn client entry => { s with bank := s.bank.transaction_write none entry client }
  | .poll client date qrid => { s with polls := s.polls ++ [⟨w, client, date, qrid, true⟩] }

def State.performAll (w : WorkerId) (now : Time) (s : State) (acts : List Act) : State :=
  acts.foldl (State.perform w now) s

/-- Acts add calls and change nothing about the requests and the students. -/
theorem State.performAll_frame (w : WorkerId) (now : Time) (acts : List Act) (s : State) :
    (s.performAll w now acts).received = s.received ∧
      (s.performAll w now acts).students = s.students ∧
      ∀ c ∈ (s.performAll w now acts).calls, c ∈ s.calls ∨
        ∃ client q, Act.query client q ∈ acts ∧ c = ⟨w, client, q, .sent⟩ := by
  induction acts generalizing s with
  | nil => exact ⟨rfl, rfl, fun _ hc => .inl hc⟩
  | cons a acts ih =>
      obtain ⟨hr, hs, hcalls⟩ := ih (s.perform w now a)
      have first : (s.perform w now a).received = s.received ∧
          (s.perform w now a).students = s.students ∧
          ∀ c ∈ (s.perform w now a).calls, c ∈ s.calls ∨
            ∃ client q, a = .query client q ∧ c = ⟨w, client, q, .sent⟩ := by
        cases a with
        | query client q =>
            refine ⟨rfl, rfl, fun c hc => ?_⟩
            exact (List.mem_append.mp hc).imp_right fun hc =>
              ⟨client, q, rfl, List.mem_singleton.mp hc⟩
        | _ => exact ⟨rfl, rfl, fun _ hc => .inl hc⟩
      refine ⟨hr.trans first.1, hs.trans first.2.1, fun c hc => ?_⟩
      rcases hcalls c hc with hc | ⟨client, q, hq, rfl⟩
      · exact (first.2.2 c hc).imp_right fun ⟨client, q, ha, hc⟩ =>
          ⟨client, q, ha ▸ List.mem_cons_self .., hc⟩
      · exact .inr ⟨client, q, List.mem_cons_of_mem _ hq, rfl⟩

/-- The poll that an act of worker `w` starts. -/
def startedPoll (w : WorkerId) : Act → Option Poll
  | .poll client date qrid => some ⟨w, client, date, qrid, true⟩
  | _ => none

def startedBalance : Act → Option GetBalance
  | .getBalance client id => some ⟨client, id, .start⟩
  | _ => none

def givenAnswer : Act → Option (Client × Answer)
  | .answer client m => some (client, m)
  | _ => none

section Perform

variable (w : WorkerId) (now : Time) (s : State) (acts : List Act)

/-- A list of the state to which every act adds at most one element. -/
theorem State.performAll_append {β : Type} (f : State → List β) (g : Act → Option β)
    (h : ∀ s a, f (s.perform w now a) = f s ++ (g a).toList) :
    f (s.performAll w now acts) = f s ++ acts.filterMap g := by
  induction acts generalizing s with
  | nil => exact (List.append_nil _).symm
  | cons a acts ih =>
      show f ((s.perform w now a).performAll w now acts) = _
      rw [ih, h, List.append_assoc, List.filterMap_cons]
      cases g a <;> rfl

theorem State.performAll_polls :
    (s.performAll w now acts).polls = s.polls ++ acts.filterMap (startedPoll w) :=
  performAll_append w now s acts State.polls (startedPoll w) fun s a => by
    cases a <;> simp [perform, startedPoll]

theorem State.performAll_balances :
    (s.performAll w now acts).balances = s.balances ++ acts.filterMap startedBalance :=
  performAll_append w now s acts State.balances startedBalance fun s a => by
    cases a <;> simp [perform, startedBalance]

theorem State.performAll_answers :
    (s.performAll w now acts).answers = s.answers ++ acts.filterMap givenAnswer :=
  performAll_append w now s acts State.answers givenAnswer fun s a => by
    cases a <;> simp [perform, givenAnswer]

theorem State.performAll_transactions :
    (s.performAll w now acts).bank.transactions = s.bank.transactions := by
  induction acts generalizing s with
  | nil => rfl
  | cons a acts ih => exact (ih (s.perform w now a)).trans (by cases a <;> rfl)

end Perform

/-! ## Executing a call -/

variable (E : Ext) (K : Keys)

/-- The database executes a query and replies.  What searches return is not
determined further than that it is in the collection. -/
def execute (s : State) : Query → Reply → Option State
  | .student _ qrid _, .student st => if s.students.findOne E qrid = st then some s else none
  | .students _ _ _ _, .students l => if ∀ st ∈ l, st ∈ s.students then some s else none
  | .addStudent info, .added st => (info.cast E s.nextStudent).bind fun st' =>
      if st = st' then (s.students.insert st).map fun S =>
        { s with students := S, nextStudent := s.nextStudent + 1 }
      else none
  | .addAppear qrid spec, .appear success =>
      match s.students.findOne E qrid, success with
      | some st, true => some { s with students := s.students.map fun t =>
          if t._id = st._id then { t with appear := t.appear ++ [spec] } else t }
      | none, false => some s
      | _, _ => none
  | .transactions _ _ _, .transactions l =>
      if ∀ b ∈ l, b ∈ s.bank.transactions then some s else none
  | .transaction _, .transaction tr =>
      if ∀ b ∈ tr, b ∈ s.bank.transactions then some s else none
  | .saveStudent id u, .done => some { s with
      students := (s.students.update id (u.apply E.toCasts)).getD s.students }
  | .removeStudent id, .done => some { s with students := s.students.remove id }
  | .removeTransaction _, .done => some s  -- it is gone already
  | .setConfig _ _, .done => some s
  | _, _ => none

variable {E} in
/-- A query changes at most the students. -/
theorem execute_frame {s s' : State} {q : Query} {r : Reply} (h : execute E s q r = some s') :
    ∃ S n, s' = { s with students := S, nextStudent := n } := by
  rw [execute.eq_def] at h
  split at h
  next => split at h <;> cases h; exact ⟨_, _, rfl⟩
  next => split at h <;> cases h; exact ⟨_, _, rfl⟩
  next =>
    obtain ⟨st', -, h⟩ := Option.bind_eq_some_iff.mp h
    split at h
    next =>
      obtain ⟨S, -, rfl⟩ := Option.map_eq_some_iff.mp h
      exact ⟨_, _, rfl⟩
    next => cases h
  next => split at h <;> cases h <;> exact ⟨_, _, rfl⟩
  next => split at h <;> cases h; exact ⟨_, _, rfl⟩
  next => split at h <;> cases h; exact ⟨_, _, rfl⟩
  next => cases h; exact ⟨_, _, rfl⟩
  next => cases h; exact ⟨_, _, rfl⟩
  next => cases h; exact ⟨_, _, rfl⟩
  next => cases h; exact ⟨_, _, rfl⟩
  next => cases h

section Execute

variable {E} {s t : State} {r : Reply}

theorem execute_student {component : String} {v : JsVal} {cb : StudentCb}
    (h : execute E s (.student component v cb) r = some t) :
    t = s ∧ r = .student (s.students.findOne E v) := by
  cases r with
  | student st =>
      simp only [execute] at h
      split at h
      next hst =>
        cases h
        exact ⟨rfl, hst ▸ rfl⟩
      next => cases h
  | _ => cases h

theorem execute_addStudent {info : NewStudent} (h : execute E s (.addStudent info) r = some t) :
    ∃ st S, r = .added st ∧ info.cast E s.nextStudent = some st ∧ s.students.insert st = some S ∧
      t = { s with students := S, nextStudent := s.nextStudent + 1 } := by
  cases r with
  | added st =>
      simp only [execute] at h
      obtain ⟨st', hcast, h⟩ := Option.bind_eq_some_iff.mp h
      split at h
      next heq =>
        subst heq
        obtain ⟨S, hins, rfl⟩ := Option.map_eq_some_iff.mp h
        exact ⟨st, S, rfl, hcast, hins, rfl⟩
      next => cases h
  | _ => cases h

theorem execute_saveStudent {id : ObjectId} {u : StudentUpdate}
    (h : execute E s (.saveStudent id u) r = some t) : r = .done ∧ t = { s with
      students := (s.students.update id (u.apply E.toCasts)).getD s.students } := by
  cases r with
  | done =>
      cases h
      exact ⟨rfl, rfl⟩
  | _ => cases h

end Execute

/-! ## Steps -/

inductive Event where
  /-- A request arrives at a worker. -/
  | request (w : WorkerId) (env : Env) (name post : String)
  | callDb (n : ℕ) (r : Reply)
  /-- The `k`-th transaction is removed. -/
  | removeDb (n k : ℕ)
  | callFail (n : ℕ)
  | callReply (n : ℕ) (env : Env)
  | sumDb (n : ℕ) (a : Aggregation) (ok : Bool)
  | sumReply (n : ℕ) (a : Aggregation)
  | pollTimeout (n : ℕ)
  /-- The regular search found transactions for a poll. -/
  | handleDbPollAnswer (n : ℕ) (trgroup : List TransactionView)
  /-- A step of the pending transactions. -/
  | bank (e : Pending.Event)

/-- The surroundings of the code that runs in the step. -/
def Event.env : Event → Option Env
  | .request _ env _ _ => some env
  | .callReply _ env => some env
  | _ => none

/-- The steps that the pending transactions take by themselves. -/
def internal : Pending.Event → Bool
  | .intent _ _ _ _ _ => false
  | .spawn _ _ => false
  | .delete _ => false
  | _ => true

def State.send (s : State) (client : Client) (m : Answer) : State :=
  { s with answers := s.answers ++ [(client, m)] }

/-- `polls[idx].answer(m); delete polls[idx]`, if there is an element. -/
def State.answerPoll (s : State) (n : ℕ) (m : Answer) : Option State :=
  s.polls[n]?.bind fun p =>
    if p.active then some { s.send p.client m with polls := s.polls.set n { p with active := false } }
    else none

theorem State.answerPoll_eq_some {s s' : State} {n : ℕ} {m : Answer}
    (h : s.answerPoll n m = some s') :
    ∃ p, s.polls[n]? = some p ∧ p.active = true ∧
      s' = { s.send p.client m with polls := s.polls.set n { p with active := false } } := by
  rw [State.answerPoll] at h
  obtain ⟨p, hp, h⟩ := Option.bind_eq_some_iff.mp h
  split at h
  next hactive =>
    cases h
    exact ⟨p, hp, hactive, rfl⟩
  next => cases h

/-- One step of the server, if the event is enabled. -/
def step (s : State) : Event → Option State
  | .request w env name post =>
      let client : Client := ⟨s.received.length, none⟩
      some (({ s with received := s.received ++ [⟨name, post⟩] } : State).performAll w env.now
        (prepare_action E K env client name post).acts)
  | .callDb n r => withSent Call.phase s.calls n fun c =>
      (execute E s c.query r).map fun s' =>
        { s' with calls := s'.calls.set n { c with phase := .replied (some r) } }
  | .removeDb n k => withSent Call.phase s.calls n fun c => match c.query with
      | .removeTransaction _ => (Pending.step s.bank (.delete k)).map fun bank => { s with
          bank := bank
          calls := s.calls.set n { c with phase := .replied (some .done) } }
      | _ => none
  | .callFail n => withSent Call.phase s.calls n fun c => some { s with
      calls := s.calls.set n { c with phase := .replied none } }
  | .callReply n env => withReply Call.phase s.calls n fun c r =>
      let s : State := { s with calls := s.calls.set n { c with phase := .done r } }
      some (match r with
        | some r => s.performAll c.worker env.now (onReply E env c.client c.query r).acts
        | none => if c.query.hasCallback then s.send c.client (.dbError c.query.component) else s)
  | .sumDb n a ok => withSent (fun c => c.sums.get a) s.balances n fun c => some { s with
      balances := s.balances.set n { c with
        sums := c.sums.set
          (.replied (if ok then some (a.run s.bank.transactions c.id) else none)) a } }
  | .sumReply n a => withReply (fun c => c.sums.get a) s.balances n fun c r =>
      let sums := c.sums.set (.done r) a
      let s : State := { s with balances := s.balances.set n { c with sums := sums } }
      some (match r, sums.aggregationComplete with
        | none, _ => s.send c.client (.dbError a.component)
        | some _, none => s
        | some _, some bal => s.send c.client (.balance bal))
  | .pollTimeout n => s.answerPoll n .timeout
  | .handleDbPollAnswer n trgroup => s.answerPoll n (.transactions trgroup)
  | .bank e => if internal e then (Pending.step s.bank e).map fun bank => { s with bank := bank }
      else none

/-! ## What a step does -/

/-- What a step does, case by case. -/
inductive Step (s : State) : Event → State → Prop where
  | request (w : WorkerId) (env : Env) (name post : String) :
      Step s (.request w env name post)
        (({ s with received := s.received ++ [⟨name, post⟩] } : State).performAll w env.now
          (prepare_action E K env ⟨s.received.length, none⟩ name post).acts)
  | callDb {n : ℕ} {r : Reply} {c : Call} {S : Students} {m : ObjectId}
      (hc : s.calls[n]? = some c) (hp : c.phase = .sent)
      (hx : execute E s c.query r = some { s with students := S, nextStudent := m }) :
      Step s (.callDb n r) { s with
        students := S
        nextStudent := m
        calls := s.calls.set n { c with phase := .replied (some r) } }
  | removeDb {n k : ℕ} {c : Call} {id : ObjectId} {bank : Pending.State}
      (hc : s.calls[n]? = some c) (hp : c.phase = .sent) (hq : c.query = .removeTransaction id)
      (hb : Pending.step s.bank (.delete k) = some bank) :
      Step s (.removeDb n k) { s with
        bank := bank
        calls := s.calls.set n { c with phase := .replied (some .done) } }
  | callFail {n : ℕ} {c : Call} (hc : s.calls[n]? = some c) (hp : c.phase = .sent) :
      Step s (.callFail n) { s with calls := s.calls.set n { c with phase := .replied none } }
  | callReply {n : ℕ} {c : Call} {r : Reply} (env : Env) (hc : s.calls[n]? = some c)
      (hp : c.phase = .replied (some r)) :
      Step s (.callReply n env)
        (({ s with calls := s.calls.set n { c with phase := .done (some r) } } : State).performAll
          c.worker env.now (onReply E env c.client c.query r).acts)
  | callError {n : ℕ} {c : Call} (env : Env) (hc : s.calls[n]? = some c)
      (hp : c.phase = .replied none) (hcb : c.query.hasCallback = true) :
      Step s (.callReply n env)
        (({ s with calls := s.calls.set n { c with phase := .done none } } : State).send c.client
          (.dbError c.query.component))
  | callDropped {n : ℕ} {c : Call} (env : Env) (hc : s.calls[n]? = some c)
      (hp : c.phase = .replied none) (hcb : c.query.hasCallback = false) :
      Step s (.callReply n env) { s with calls := s.calls.set n { c with phase := .done none } }
  | sumDb {n : ℕ} {a : Aggregation} {c : GetBalance} (ok : Bool)
      (hc : s.balances[n]? = some c) (hp : c.sums.get a = .sent) :
      Step s (.sumDb n a ok) { s with
        balances := s.balances.set n { c with
          sums := c.sums.set
            (.replied (if ok then some (a.run s.bank.transactions c.id) else none)) a } }
  | sumError {n : ℕ} {a : Aggregation} {c : GetBalance} (hc : s.balances[n]? = some c)
      (hp : c.sums.get a = .replied none) :
      Step s (.sumReply n a)
        (({ s with
          balances := s.balances.set n { c with sums := c.sums.set (.done none) a } } : State).send
            c.client (.dbError a.component))
  | sumWaits {n : ℕ} {a : Aggregation} {c : GetBalance} {x : ℚ} (hc : s.balances[n]? = some c)
      (hp : c.sums.get a = .replied (some x))
      (hb : (c.sums.set (.done (some x)) a).aggregationComplete = none) :
      Step s (.sumReply n a) { s with
        balances := s.balances.set n { c with sums := c.sums.set (.done (some x)) a } }
  | sumComplete {n : ℕ} {a : Aggregation} {c : GetBalance} {x bal : ℚ}
      (hc : s.balances[n]? = some c) (hp : c.sums.get a = .replied (some x))
      (hb : (c.sums.set (.done (some x)) a).aggregationComplete = some bal) :
      Step s (.sumReply n a)
        (({ s with
          balances := s.balances.set n { c with
            sums := c.sums.set (.done (some x)) a } } : State).send c.client (.balance bal))
  | pollTimeout {n : ℕ} {p : Poll} (hp : s.polls[n]? = some p) (ha : p.active = true) :
      Step s (.pollTimeout n)
        { s.send p.client .timeout with polls := s.polls.set n { p with active := false } }
  | handleDbPollAnswer {n : ℕ} {p : Poll} (trgroup : List TransactionView)
      (hp : s.polls[n]? = some p) (ha : p.active = true) :
      Step s (.handleDbPollAnswer n trgroup)
        { s.send p.client (.transactions trgroup) with
          polls := s.polls.set n { p with active := false } }
  | bank {e : Pending.Event} {bank : Pending.State} (hi : internal e = true)
      (hb : Pending.step s.bank e = some bank) : Step s (.bank e) { s with bank := bank }

variable {E K} {s s' : State}

theorem step_cases {e : Event} (hs : step E K s e = some s') : Step E K s e s' := by
  cases e with
  | request w env name post =>
      cases hs
      exact .request w env name post
  | callDb n r =>
      obtain ⟨c, hc, hp, hs⟩ := withSent_eq_some.mp hs
      obtain ⟨t, hx, rfl⟩ := Option.map_eq_some_iff.mp hs
      obtain ⟨S, m, rfl⟩ := execute_frame hx
      exact .callDb hc hp hx
  | removeDb n k =>
      obtain ⟨c, hc, hp, hs⟩ := withSent_eq_some.mp hs
      split at hs
      next id hq =>
        obtain ⟨bank, hb, rfl⟩ := Option.map_eq_some_iff.mp hs
        exact .removeDb hc hp hq hb
      next => cases hs
  | callFail n =>
      obtain ⟨c, hc, hp, hs⟩ := withSent_eq_some.mp hs
      cases hs
      exact .callFail hc hp
  | callReply n env =>
      obtain ⟨c, v, hc, hp, hs⟩ := withReply_eq_some.mp hs
      cases hs
      cases v with
      | some r => exact .callReply env hc hp
      | none =>
          dsimp only
          split
          next hcb => exact .callError env hc hp hcb
          next hcb => exact .callDropped env hc hp (Bool.eq_false_of_not_eq_true hcb)
  | sumDb n a ok =>
      obtain ⟨c, hc, hp, hs⟩ := withSent_eq_some.mp hs
      cases hs
      exact .sumDb ok hc hp
  | sumReply n a =>
      obtain ⟨c, v, hc, hp, hs⟩ := withReply_eq_some.mp hs
      rw [Option.some.injEq] at hs
      split at hs
      next =>
        subst hs
        exact .sumError hc hp
      next hb =>
        subst hs
        exact .sumWaits hc hp hb
      next hb =>
        subst hs
        exact .sumComplete hc hp hb
  | pollTimeout n =>
      obtain ⟨p, hp, ha, rfl⟩ := State.answerPoll_eq_some hs
      exact .pollTimeout hp ha
  | handleDbPollAnswer n trgroup =>
      obtain ⟨p, hp, ha, rfl⟩ := State.answerPoll_eq_some hs
      exact .handleDbPollAnswer trgroup hp ha
  | bank e =>
      simp only [step] at hs
      split at hs
      next hi =>
        obtain ⟨bank, hb, rfl⟩ := Option.map_eq_some_iff.mp hs
        exact .bank hi hb
      next => cases hs

end Server

end SchuleAlsStaat
