import SchuleAlsStaat.Api.Dispatch

/-!
# The duty to answer

An act *settles* its request when it answers or passes the duty to answer on:
to the callback of a query, to a balance, to a poll or to a transaction.  An
action settles its request at most once, and if it throws then not at all, so
that the error that is answered instead is the only answer.  A callback
settles its request at most once.

`Serves` collects what the acts of a stretch of code have in common and how
often they settle their request.  It has one rule for each construct of the
code, and the lemmas about the actions follow their definitions.
-/

namespace SchuleAlsStaat

open Js (Exn JsVal JS)

/-! ## Acts of a request -/

/-- The act answers, or somebody else will answer because of it. -/
def Act.settles : Act → Bool
  | .invoke _ _ => false
  | .query _ q => q.hasCallback
  | _ => true

/-- How often the acts settle their request. -/
def settled (acts : List Act) : ℕ := acts.countP Act.settles

/-- The act is for request `r`. -/
def Act.For (r : ReqId) : Act → Prop
  | .invoke _ _ => True
  | .answer client _ => client.req = r
  | .query client _ => client.req = r
  | .getBalance client _ => client.req = r
  | .intent client _ _ => client.req = r
  | .spawn client _ => client.req = r
  | .poll client _ _ => client.req = r

/-- The callback is a part of `transaction` or leads to it. -/
def StudentCb.moves : StudentCb → Bool
  | .transaction_normal _ => true
  | .transaction_taxinc _ => true
  | .transaction_sender _ _ => true
  | .transaction_recipient _ _ _ => true
  | _ => false

/-- The query looks up an account of a transaction. -/
def Query.moves : Query → Bool
  | .student _ _ cb => cb.moves
  | _ => false

/-- The act has nothing to do with a transaction. -/
def Act.Plain : Act → Prop
  | .query _ q => q.moves = false
  | .intent _ _ _ => False
  | .spawn _ _ => False
  | _ => True

/-- The act has nothing to do with a transaction and starts no poll. -/
def Act.Idle : Act → Prop
  | .query _ q => q.moves = false
  | .intent _ _ _ => False
  | .spawn _ _ => False
  | .poll _ _ _ => False
  | _ => True

/-- An act for request `r` that has nothing to do with a transaction. -/
def Act.PlainFor (r : ReqId) (a : Act) : Prop := a.For r ∧ a.Plain

/-- An act for request `r` that starts no poll either. -/
def Act.IdleFor (r : ReqId) (a : Act) : Prop := a.For r ∧ a.Idle

theorem Act.IdleFor.plainFor {r : ReqId} {a : Act} (h : a.IdleFor r) : a.PlainFor r := by
  refine ⟨h.1, ?_⟩
  cases a with
  | intent | spawn | poll => exact h.2.elim
  | _ => exact h.2

/-- The callback starts a poll. -/
def Query.polls : Query → Bool
  | .student _ _ (.transactions_poll _) => true
  | _ => false

/-! ## Rules -/

variable {α β : Type} {P Q : Act → Prop}

/-- The acts have `P` and settle their request at most once. -/
structure Serves (P : Act → Prop) (x : JS Act α) : Prop where
  acts : ∀ a ∈ x.acts, P a
  once : settled x.acts ≤ 1

/-- Code that does not settle its request when it throws. -/
structure ServesOrThrows (P : Act → Prop) (x : JS Act α) : Prop extends Serves P x where
  unsettled : ∀ e, x.result = .error e → settled x.acts = 0

namespace Serves

theorem mono {x : JS Act α} (h : Serves P x) (hPQ : ∀ a, P a → Q a) : Serves Q x :=
  ⟨fun a ha => hPQ a (h.acts a ha), h.once⟩

theorem pure (a : α) : Serves P (pure a : JS Act α) := ⟨by simp, by simp [settled]⟩

theorem throw (e : Exn) : Serves P (JS.throw e : JS Act α) := ⟨by simp, by simp [settled]⟩

theorem lift_bind {r : Except Exn α} {f : α → JS Act β} (h : ∀ a, r = .ok a → Serves P (f a)) :
    Serves P (JS.lift r >>= f) := by
  cases r with
  | error e => exact throw e
  | ok a => exact h a rfl

theorem act {a : Act} (h : P a) : Serves P (JS.act a) :=
  ⟨by simpa using h, by simp only [JS.act_acts, settled]; exact List.countP_le_length⟩

theorem answer {client : Client} {m : Answer} (h : P (.answer client m)) :
    Serves P (answer client m) :=
  ⟨by simpa using h, by rw [answer_acts]; exact List.countP_le_length⟩

/-- An act that does not settle the request comes first. -/
theorem act_bind {a : Act} {f : Unit → JS Act β} (h : P a) (hs : a.settles = false)
    (hf : Serves P (f ())) : Serves P (JS.act a >>= f) := by
  refine ⟨?_, ?_⟩
  · rw [JS.act_bind_acts]
    exact List.forall_mem_cons.mpr ⟨h, hf.acts⟩
  · rw [JS.act_bind_acts, settled, List.countP_cons_of_neg (by simp [hs])]
    exact hf.once

/-- What comes after the answer performs no acts. -/
theorem bind_silent {x : JS Act α} {f : α → JS Act β} (h : Serves P x)
    (hf : ∀ a, (f a).acts = []) : Serves P (x >>= f) := by
  have hacts : (x >>= f).acts = x.acts := by
    cases hx : x.result with
    | error e => exact JS.bind_acts_error hx
    | ok a => rw [JS.bind_acts_ok hx, hf, List.append_nil]
  exact ⟨hacts ▸ h.acts, hacts ▸ h.once⟩

end Serves

namespace ServesOrThrows

theorem mono {x : JS Act α} (h : ServesOrThrows P x) (hPQ : ∀ a, P a → Q a) :
    ServesOrThrows Q x :=
  ⟨h.toServes.mono hPQ, h.unsettled⟩

theorem throw (e : Exn) : ServesOrThrows P (JS.throw e : JS Act α) :=
  ⟨.throw e, by simp [settled]⟩

theorem lift_bind {r : Except Exn α} {f : α → JS Act β}
    (h : ∀ a, r = .ok a → ServesOrThrows P (f a)) : ServesOrThrows P (JS.lift r >>= f) := by
  cases r with
  | error e => exact throw e
  | ok a => exact h a rfl

theorem act {a : Act} (h : P a) : ServesOrThrows P (JS.act a) :=
  ⟨.act h, fun _ he => by cases he⟩

theorem answer {client : Client} {m : Answer} (h : P (.answer client m))
    (hm : m.serializable = true) : ServesOrThrows P (answer client m) :=
  ⟨.answer h, fun _ he => by cases (answer_result hm).symm.trans he⟩

theorem act_bind {a : Act} {f : Unit → JS Act β} (h : P a) (hs : a.settles = false)
    (hf : ServesOrThrows P (f ())) : ServesOrThrows P (JS.act a >>= f) := by
  refine ⟨.act_bind h hs hf.toServes, fun e he => ?_⟩
  rw [JS.act_bind_acts, settled, List.countP_cons_of_neg (by simp [hs])]
  exact hf.unsettled e he

/-- What comes after the answer returns. -/
theorem bind_return {x : JS Act α} {f : α → JS Act β} (h : ServesOrThrows P x)
    (hf : ∀ a, ∃ b, f a = pure b) : ServesOrThrows P (x >>= f) := by
  refine ⟨h.toServes.bind_silent fun a => ?_, fun e he => ?_⟩
  · obtain ⟨b, hb⟩ := hf a
    rw [hb]
    rfl
  · cases hx : x.result with
    | error e' =>
        rw [JS.bind_acts_error hx]
        exact h.unsettled e' hx
    | ok a =>
        obtain ⟨b, hb⟩ := hf a
        rw [JS.bind_result_ok hx, hb] at he
        cases he

/-- An error that is caught is answered. -/
theorem tryCatch {x : JS Act α} {h : Exn → JS Act α} (hx : ServesOrThrows P x)
    (hh : ∀ e, Serves P (h e)) : Serves P (JS.tryCatch x h) := by
  rw [JS.tryCatch]
  split
  next => exact hx.toServes
  next e he =>
    refine ⟨Calls.forall_mem_append hx.acts (hh e).acts, ?_⟩
    have h0 : settled x.acts = 0 := hx.unsettled e he
    have h1 : settled (h e).acts ≤ 1 := (hh e).once
    show settled (x.acts ++ (h e).acts) ≤ 1
    rw [settled, List.countP_append]
    rw [settled] at h0 h1
    omega

end ServesOrThrows

theorem info_bind (v : JsVal) (f : Unit → JS Act β) :
    info v >>= f = JS.lift v.toStr >>= fun _ => f () := by
  rw [info, JS.str, JS.bind_assoc]
  rfl

@[simp] theorem info_acts (v : JsVal) : (info v).acts = [] := by
  rw [info, JS.str]
  cases v.toStr <;> rfl

theorem info_eq_pure {v : JsVal} (h : v.hasStr = true) : info v = pure () := by
  rw [JsVal.hasStr] at h
  rw [info, JS.str]
  cases hv : v.toStr with
  | error e =>
      rw [hv] at h
      cases h
  | ok s => rfl

/-! ## Callbacks -/

section Callbacks

variable (E : Ext) (env : Env) (payload : JsVal) (client : Client)

theorem serves_get_balance_cb (st : Option Student) :
    Serves (Act.IdleFor client.req) (get_balance_cb E payload client st) := by
  cases st with
  | none => exact .answer ⟨rfl, trivial⟩
  | some st =>
      rw [get_balance_cb]
      refine .lift_bind fun pwd _ => .lift_bind fun ok _ => ?_
      split
      · exact .answer ⟨rfl, trivial⟩
      · exact .act ⟨rfl, trivial⟩

theorem serves_get_balance_master_cb (st : Option Student) :
    Serves (Act.IdleFor client.req) (get_balance_master_cb client st) := by
  cases st with
  | none => exact .answer ⟨rfl, trivial⟩
  | some st => exact .act ⟨rfl, trivial⟩

variable {client} in
theorem ServesOrThrows.getTransactions {filter : Filter} {limit : JsVal} {cb : TransactionsCb} :
    ServesOrThrows (Act.IdleFor client.req) (getTransactions client filter limit cb) := by
  rw [SchuleAlsStaat.getTransactions]
  split
  · exact .lift_bind fun _ _ => .act ⟨rfl, rfl⟩
  · exact .act ⟨rfl, rfl⟩

theorem serves_get_last_transactions_cb (st : Option Student) :
    Serves (Act.IdleFor client.req) (get_last_transactions_cb E payload client st) := by
  cases st with
  | none => exact .answer ⟨rfl, trivial⟩
  | some st =>
      rw [get_last_transactions_cb]
      refine .lift_bind fun pwd _ => .lift_bind fun ok _ => ?_
      split
      · exact .answer ⟨rfl, trivial⟩
      · exact .lift_bind fun _ _ => ServesOrThrows.getTransactions.toServes

theorem serves_onTransactions (cb : TransactionsCb) (tr : List Booking) :
    Serves (Act.IdleFor client.req) (onTransactions client cb tr) := by
  cases cb with
  | get_last_transactions st amount => exact ServesOrThrows.getTransactions.toServes
  | taxes st tr' => exact .answer ⟨rfl, trivial⟩
  | find_transactions payload =>
      rw [onTransactions]
      refine .lift_bind fun amount _ => .lift_bind fun q _ => ?_
      cases q with
      | fin q => exact .answer ⟨rfl, trivial⟩
      | nan => exact .answer ⟨rfl, trivial⟩

theorem serves_transaction_delete_cb (id : ObjectId) (tr : Option Booking) :
    Serves (Act.IdleFor client.req) (transaction_delete_cb client id tr) := by
  cases tr with
  | none => exact .answer ⟨rfl, trivial⟩
  | some b => exact .act_bind ⟨rfl, rfl⟩ rfl (.answer ⟨rfl, trivial⟩)

theorem serves_onStudents (cb : StudentsCb) (list : List Student) :
    Serves (Act.IdleFor client.req) (onStudents client cb list) := by
  cases cb with
  | students_get => exact .answer ⟨rfl, trivial⟩
  | student_identify =>
      rw [onStudents.eq_def]
      split <;> exact .answer ⟨rfl, trivial⟩

theorem serves_ec_student_get_cb (st : Option Student) :
    Serves (Act.IdleFor client.req) (ec_student_get_cb client st) := by
  cases st <;> exact .answer ⟨rfl, trivial⟩

theorem serves_onAppear (success : Bool) :
    Serves (Act.IdleFor client.req) (onAppear client payload success) := by
  rw [onAppear]
  split
  · exact .bind_silent (.answer ⟨rfl, trivial⟩) fun _ => info_acts payload
  · exact .answer ⟨rfl, trivial⟩

theorem serves_profile_edit_cb (st : Option Student) :
    Serves (Act.IdleFor client.req) (profile_edit_cb payload client st) := by
  cases st with
  | none => exact .answer ⟨rfl, trivial⟩
  | some st =>
      rw [profile_edit_cb]
      refine .lift_bind fun prop _ => ?_
      split
      · exact .lift_bind fun _ _ => .answer ⟨rfl, trivial⟩
      · refine .lift_bind fun value _ => ?_
        rw [info_bind]
        exact .lift_bind fun _ _ => .act_bind ⟨rfl, rfl⟩ rfl (.answer ⟨rfl, trivial⟩)

theorem serves_student_delete_cb (st : Option Student) :
    Serves (Act.IdleFor client.req) (student_delete_cb client st) := by
  cases st with
  | none => exact .answer ⟨rfl, trivial⟩
  | some st => exact .act_bind ⟨rfl, rfl⟩ rfl (.answer ⟨rfl, trivial⟩)

/-- The new password is saved before the answer. -/
theorem serves_change_password (st : Student) (new_password : JsVal) (m : Answer) :
    Serves (Act.IdleFor client.req) (do
      change_password E env client st new_password
      answer client m) := by
  rw [change_password, JS.bind_assoc]
  exact .lift_bind fun _ _ => .act_bind ⟨rfl, rfl⟩ rfl (.answer ⟨rfl, trivial⟩)

theorem serves_password_change_cb (st : Option Student) :
    Serves (Act.IdleFor client.req) (password_change_cb E env payload client st) := by
  cases st with
  | none => exact .answer ⟨rfl, trivial⟩
  | some st =>
      rw [password_change_cb]
      refine .lift_bind fun pwd _ => .lift_bind fun ok _ => ?_
      split
      · exact .lift_bind fun _ _ => serves_change_password E env client st _ _
      · exact .answer ⟨rfl, trivial⟩

theorem serves_password_change_master_cb (st : Option Student) :
    Serves (Act.IdleFor client.req) (password_change_master_cb E env payload client st) := by
  cases st with
  | none => exact .answer ⟨rfl, trivial⟩
  | some st =>
      rw [password_change_master_cb]
      exact .lift_bind fun _ _ => serves_change_password E env client st _ _

variable {E env payload client} in
theorem ServesOrThrows.addRegistered {qrid : JsVal} :
    ServesOrThrows (Act.IdleFor client.req) (addRegistered E env client payload qrid) := by
  rw [SchuleAlsStaat.addRegistered]
  refine .lift_bind fun _ _ => .lift_bind fun _ _ => .lift_bind fun _ _ => .lift_bind fun _ _ =>
    .lift_bind fun _ _ => .lift_bind fun _ _ => .lift_bind fun _ _ => .lift_bind fun _ _ =>
    .lift_bind fun _ _ => ?_
  exact .act ⟨rfl, rfl⟩

variable {E env payload client} in
theorem ServesOrThrows.chooseQrid :
    ServesOrThrows (Act.IdleFor client.req) (chooseQrid E env client payload) := by
  rw [SchuleAlsStaat.chooseQrid]
  refine .lift_bind fun qrid _ => ?_
  split
  · exact .addRegistered
  · exact .act ⟨rfl, rfl⟩

theorem serves_regStudent_cb (qrid : String) (st : Option Student) :
    Serves (Act.IdleFor client.req) (regStudent_cb E env payload qrid client st) := by
  cases st with
  | none => exact ServesOrThrows.addRegistered.toServes
  | some st => exact ServesOrThrows.chooseQrid.toServes

theorem serves_register_student_cb (st : Option Student) :
    Serves (Act.IdleFor client.req) (register_student_cb E env payload client st) := by
  cases st with
  | none => exact ServesOrThrows.chooseQrid.toServes
  | some st =>
      rw [register_student_cb]
      exact .lift_bind fun _ _ => .lift_bind fun _ _ => .answer ⟨rfl, trivial⟩

theorem serves_transactions_poll_cb (st : Option Student) :
    Serves (Act.PlainFor client.req) (transactions_poll_cb E payload client st) := by
  cases st with
  | none => exact .answer ⟨rfl, trivial⟩
  | some st =>
      rw [transactions_poll_cb]
      refine .lift_bind fun pwd _ => .lift_bind fun ok _ => ?_
      split
      · exact .answer ⟨rfl, trivial⟩
      · refine .lift_bind fun date _ => ?_
        split
        · exact .answer ⟨rfl, trivial⟩
        · refine .lift_bind fun qrid _ => ?_
          rw [info_bind]
          exact .lift_bind fun _ _ => .act ⟨rfl, trivial⟩

/-! ### Transactions -/

theorem serves_onRecipient (t : Transfer) (taxinc : Student) (sender recipient : Party) :
    Serves (Act.For client.req) (onRecipient E env client t taxinc sender recipient) := by
  rw [onRecipient]
  refine .lift_bind fun percent _ => ?_
  cases sender with
  | magic_account => exact .act rfl
  | account st => exact .act rfl

theorem serves_onSender (t : Transfer) (taxinc : Student) (sender : Party) :
    Serves (Act.For client.req) (onSender E env client t taxinc sender) := by
  rw [onSender]
  split
  · exact serves_onRecipient E env client t taxinc sender .magic_account
  · exact .act rfl

variable {env} in
theorem ServesOrThrows.transaction {sender_qrid recipient_qrid amount_sent amount_received tax
    comment : JsVal} : ServesOrThrows (Act.For client.req) (transaction env client sender_qrid
      recipient_qrid amount_sent amount_received tax comment) := by
  rw [SchuleAlsStaat.transaction]
  refine .lift_bind fun spawn _ => .lift_bind fun destroy _ => ?_
  split
  · exact .answer rfl rfl
  · exact .act rfl

theorem serves_transaction_normal_cb (args : NormalArgs) (st : Option Student) :
    Serves (Act.For client.req) (transaction_normal_cb E env client args st) := by
  cases st with
  | none => exact .answer rfl
  | some st =>
      rw [transaction_normal_cb]
      refine .lift_bind fun ok _ => ?_
      split
      · exact .answer rfl
      · exact (ServesOrThrows.transaction { client with auth := some st._id }).toServes

theorem serves_transaction_taxinc_cb (t : Transfer) (st : Option Student) :
    Serves (Act.For client.req) (transaction_taxinc_cb E env client t st) := by
  cases st with
  | none => exact .answer rfl
  | some taxinc =>
      rw [transaction_taxinc_cb]
      split
      · exact serves_onSender E env client t taxinc .magic_account
      · exact .act rfl

theorem serves_transaction_sender_cb (t : Transfer) (taxinc : Student) (st : Option Student) :
    Serves (Act.For client.req) (transaction_sender_cb E env client t taxinc st) := by
  cases st with
  | none => exact .answer rfl
  | some st => exact serves_onSender E env client t taxinc (.account st)

theorem serves_transaction_recipient_cb (t : Transfer) (taxinc : Student) (sender : Party)
    (st : Option Student) :
    Serves (Act.For client.req) (transaction_recipient_cb E env client t taxinc sender st) := by
  cases st with
  | none => exact .answer rfl
  | some st => exact serves_onRecipient E env client t taxinc sender (.account st)

/-! ### All callbacks -/

theorem Serves.ofPlain {α : Type} {r : ReqId} {x : JS Act α} (h : Serves (Act.PlainFor r) x) :
    Serves (Act.For r) x :=
  h.mono fun _ ha => ha.1

/-- A callback that has nothing to do with a transaction or a poll. -/
theorem idle_onReply {q : Query} (h : q.moves = false) (hp : q.polls = false) (r : Reply) :
    Serves (Act.IdleFor client.req) (onReply E env client q r) := by
  have silent : Serves (Act.IdleFor client.req) (pure () : Code) := .pure ()
  cases q with
  | student component qrid cb =>
      cases r with
      | student st =>
          cases cb with
          | get_balance payload => exact serves_get_balance_cb E payload client st
          | get_balance_master => exact serves_get_balance_master_cb client st
          | get_last_transactions payload => exact serves_get_last_transactions_cb E payload client st
          | transactions_poll payload => cases hp
          | profile_edit payload => exact serves_profile_edit_cb payload client st
          | student_delete => exact serves_student_delete_cb client st
          | password_change payload => exact serves_password_change_cb E env payload client st
          | password_change_master payload =>
              exact serves_password_change_master_cb E env payload client st
          | ec_student_get => exact serves_ec_student_get_cb client st
          | register_student payload => exact serves_register_student_cb E env payload client st
          | regStudent payload qrid => exact serves_regStudent_cb E env payload client qrid st
          | transaction_normal args => cases h
          | transaction_taxinc t => cases h
          | transaction_sender t taxinc => cases h
          | transaction_recipient t taxinc sender => cases h
      | _ => exact silent
  | students properties patterns limit cb =>
      cases r with
      | students l => exact serves_onStudents client cb l
      | _ => exact silent
  | addStudent info =>
      cases r with
      | added st => exact .answer ⟨rfl, trivial⟩
      | _ => exact silent
  | addAppear qrid spec =>
      cases r with
      | appear success => exact serves_onAppear qrid client success
      | _ => exact silent
  | transactions filter limit cb =>
      cases r with
      | transactions l => exact serves_onTransactions client cb l
      | _ => exact silent
  | transaction id =>
      cases r with
      | transaction tr => exact serves_transaction_delete_cb client id tr
      | _ => exact silent
  | _ => exact silent

/-- A callback that has nothing to do with a transaction. -/
theorem plain_onReply {q : Query} (h : q.moves = false) (r : Reply) :
    Serves (Act.PlainFor client.req) (onReply E env client q r) := by
  cases hp : q.polls with
  | false => exact (idle_onReply E env client h hp r).mono fun _ ha => ha.plainFor
  | true =>
      cases q with
      | student component qrid cb =>
          cases cb with
          | transactions_poll payload =>
              cases r with
              | student st => exact serves_transactions_poll_cb E payload client st
              | _ => exact .pure ()
          | _ => cases hp
      | _ => cases hp

/-- The callbacks of a transaction are those of its lookups. -/
theorem mem_onReply_moves {q : Query} {r : Reply} {a : Act} (hm : q.moves = true)
    (h : a ∈ (onReply E env client q r).acts) :
    ∃ component qrid cb st, q = .student component qrid cb ∧ r = .student st ∧
      a ∈ (onStudent E env client st cb).acts := by
  cases q with
  | student component qrid cb =>
      cases r with
      | student st => exact ⟨component, qrid, cb, st, rfl, rfl, h⟩
      | _ => cases h
  | _ => cases hm

/-- A call without a callback leads to nothing. -/
theorem onReply_acts_of_not_hasCallback {q : Query} (h : q.hasCallback = false) (r : Reply) :
    (onReply E env client q r).acts = [] := by
  cases q with
  | saveStudent | removeStudent | removeTransaction | setConfig => cases r <;> rfl
  | _ => cases h

/-- Every callback settles its request at most once. -/
theorem serves_onReply (q : Query) (r : Reply) :
    Serves (Act.For client.req) (onReply E env client q r) := by
  cases hq : q.moves with
  | false => exact (plain_onReply E env client hq r).ofPlain
  | true =>
      cases q with
      | student component qrid cb =>
          cases r with
          | student st =>
              cases cb with
              | transaction_normal args => exact serves_transaction_normal_cb E env client args st
              | transaction_taxinc t => exact serves_transaction_taxinc_cb E env client t st
              | transaction_sender t taxinc =>
                  exact serves_transaction_sender_cb E env client t taxinc st
              | transaction_recipient t taxinc sender =>
                  exact serves_transaction_recipient_cb E env client t taxinc sender st
              | _ => cases hq
          | _ => exact .pure ()
      | _ => cases hq

end Callbacks

/-! ## Actions -/

section Actions

variable (E : Ext) (env : Env) (client : Client) (payload : JsVal)

/-- An action that moves money. -/
theorem serves_money (a : MoneyAction) :
    ServesOrThrows (Act.For client.req) (a.run env client payload) := by
  have normal : ∀ tax, ServesOrThrows (Act.For client.req)
      (transaction_normal env client payload tax) := by
    intro tax
    rw [transaction_normal]
    refine .lift_bind fun args _ => ?_
    rw [normal]
    refine .lift_bind fun long _ => ?_
    split
    · exact .answer rfl rfl
    · refine .lift_bind fun sent _ => ?_
      split
      · exact .answer rfl rfl
      · refine .lift_bind fun received _ => ?_
        split
        · exact .answer rfl rfl
        · exact .act rfl
  cases a with
  | transaction => exact normal _
  | transaction_taxfree => exact normal _
  | spawn_money =>
      rw [MoneyAction.run, SchuleAlsStaat.spawn_money]
      exact .lift_bind fun _ _ => .lift_bind fun _ _ => .lift_bind fun _ _ => .transaction client
  | destroy_money =>
      rw [MoneyAction.run, SchuleAlsStaat.destroy_money]
      exact .lift_bind fun _ _ => .lift_bind fun _ _ => .lift_bind fun _ _ => .transaction client
  | master_transaction =>
      rw [MoneyAction.run, SchuleAlsStaat.master_transaction]
      refine .lift_bind fun tax _ => .lift_bind fun percent _ => ?_
      split
      · exact .answer rfl rfl
      · exact .lift_bind fun _ _ => .lift_bind fun _ _ => .lift_bind fun _ _ =>
          .lift_bind fun _ _ => .lift_bind fun _ _ => .transaction client

/-- What keeps an action from answering twice: a configuration option that is
asked for exists, and one that is set can be logged. -/
def ActionName.Answerable (env : Env) (payload : JsVal) : ActionName → Prop
  | .config_get => ∀ key, payload.toStr = .ok key → configGet env.options key ≠ none
  | .config_set => ∀ key value, payload.prop "key" = .ok key → payload.prop "value" = .ok value →
      key.hasStr = true ∧ value.hasStr = true
  | _ => True

/-- The action moves money. -/
def ActionName.moves : ActionName → Bool
  | .money _ => true
  | _ => false

theorem serves_config_set (h : ActionName.config_set.Answerable env payload) :
    ServesOrThrows (Act.IdleFor client.req) (config_set client payload) := by
  rw [config_set]
  refine .lift_bind fun key hk => .lift_bind fun value hv => .act_bind ⟨rfl, rfl⟩ rfl ?_
  obtain ⟨hkey, hvalue⟩ := h key value hk hv
  refine .bind_return (.answer ⟨rfl, trivial⟩ rfl) fun _ => ⟨(), ?_⟩
  rw [info_eq_pure hkey, info_eq_pure hvalue]
  rfl

theorem serves_register_student :
    ServesOrThrows (Act.IdleFor client.req) (register_student E env client payload) := by
  rw [register_student]
  refine .lift_bind fun type _ => .lift_bind fun bday _ => .lift_bind fun qrid _ => ?_
  split
  · exact .act ⟨rfl, rfl⟩
  · exact .chooseQrid

theorem serves_student_identify :
    ServesOrThrows (Act.IdleFor client.req) (student_identify E client payload) := by
  rw [student_identify]
  refine .lift_bind fun given _ => ?_
  split
  · exact .answer ⟨rfl, trivial⟩ rfl
  · exact .lift_bind fun _ _ => .act ⟨rfl, rfl⟩

theorem serves_students_get :
    ServesOrThrows (Act.IdleFor client.req) (students_get client payload) := by
  rw [students_get]
  refine .lift_bind fun _ _ => .lift_bind fun _ _ => .lift_bind fun limit _ => ?_
  split
  · exact .lift_bind fun _ _ => .act ⟨rfl, rfl⟩
  · exact .act ⟨rfl, rfl⟩

theorem serves_config_get (h : ActionName.config_get.Answerable env payload) :
    ServesOrThrows (Act.IdleFor client.req) (config_get env client payload) := by
  rw [config_get]
  refine .lift_bind fun key hk => .answer ⟨rfl, trivial⟩ ?_
  rw [Answer.serializable.eq_def]
  split
  next heq => exact absurd (Answer.value.inj heq) (h key hk)
  next => rfl

theorem serves_config_del :
    ServesOrThrows (Act.IdleFor client.req) (config_del client payload) := by
  rw [config_del]
  refine .act_bind ⟨rfl, rfl⟩ rfl ?_
  rw [info_bind]
  exact .lift_bind fun _ _ => .answer ⟨rfl, trivial⟩ rfl

/-- An action that does not move money. -/
theorem serves_plain {a : ActionName} (hm : a.moves = false) (h : a.Answerable env payload) :
    ServesOrThrows (Act.IdleFor client.req) (a.run E env client payload) := by
  cases a with
  | test => exact .answer ⟨rfl, trivial⟩ rfl
  | config_get => exact serves_config_get env client payload h
  | config_set => exact serves_config_set env client payload h
  | config_del => exact serves_config_del client payload
  | config_getall => exact .answer ⟨rfl, trivial⟩ rfl
  | transactions_poll => exact .lift_bind fun _ _ => .act ⟨rfl, rfl⟩
  | students_get => exact serves_students_get client payload
  | profile_edit => exact .lift_bind fun _ _ => .act ⟨rfl, rfl⟩
  | student_delete => exact .act ⟨rfl, rfl⟩
  | student_identify => exact serves_student_identify E client payload
  | password_change => exact .lift_bind fun _ _ => .act ⟨rfl, rfl⟩
  | password_change_master => exact .lift_bind fun _ _ => .act ⟨rfl, rfl⟩
  | ec_student_get => exact .act ⟨rfl, rfl⟩
  | ec_checkin => exact .act ⟨rfl, rfl⟩
  | ec_checkout => exact .act ⟨rfl, rfl⟩
  | register_student => exact serves_register_student E env client payload
  | get_balance => exact .lift_bind fun _ _ => .act ⟨rfl, rfl⟩
  | get_balance_master => exact .act ⟨rfl, rfl⟩
  | get_last_transactions => exact .lift_bind fun _ _ => .act ⟨rfl, rfl⟩
  | find_transactions => exact .lift_bind fun _ _ => .lift_bind fun _ _ => .getTransactions
  | transaction_delete => exact .lift_bind fun _ _ => .act ⟨rfl, rfl⟩
  | money a => cases hm

theorem serves_action {a : ActionName} (h : a.Answerable env payload) :
    ServesOrThrows (Act.For client.req) (a.run E env client payload) := by
  cases hm : a.moves with
  | false => exact (serves_plain E env client payload hm h).mono fun _ ha => ha.1
  | true =>
      cases a with
      | money a => exact serves_money env client payload a
      | _ => cases hm

/-- The acts of an action that does not move money, also if it throws. -/
theorem idle_run {a : ActionName} (hm : a.moves = false) :
    ∀ b ∈ (a.run E env client payload).acts, b.IdleFor client.req := by
  intro b hb
  cases a with
  | config_get =>
      obtain ⟨key, -, hb⟩ := JS.mem_lift_bind_acts.mp hb
      rw [answer_acts] at hb
      exact List.mem_singleton.mp hb ▸ ⟨rfl, trivial⟩
  | config_set =>
      obtain ⟨key, -, hb⟩ := JS.mem_lift_bind_acts.mp hb
      obtain ⟨value, -, hb⟩ := JS.mem_lift_bind_acts.mp hb
      rcases List.mem_cons.mp hb with rfl | hb
      · exact ⟨rfl, rfl⟩
      · rcases JS.mem_bind_acts.mp hb with hb | ⟨-, -, hb⟩
        · rw [answer_acts] at hb
          exact List.mem_singleton.mp hb ▸ ⟨rfl, trivial⟩
        · rw [info_bind] at hb
          obtain ⟨-, -, hb⟩ := JS.mem_lift_bind_acts.mp hb
          rw [info_acts] at hb
          cases hb
  | money a => cases hm
  | _ => exact (serves_plain E env client payload hm trivial).acts b hb

theorem plain_run {a : ActionName} (hm : a.moves = false) :
    ∀ b ∈ (a.run E env client payload).acts, b.PlainFor client.req :=
  fun b hb => (idle_run E env client payload hm b hb).plainFor

/-- Every act of an action is for its request. -/
theorem for_run (a : ActionName) : ∀ b ∈ (a.run E env client payload).acts, b.For client.req := by
  intro b hb
  cases hm : a.moves with
  | false => exact (plain_run E env client payload hm b hb).1
  | true =>
      cases a with
      | money a => exact (serves_money env client payload a).acts b hb
      | _ => cases hm

end Actions

/-! ## Requests -/

section Request

variable {E : Ext} {K : Keys} {env : Env} {client : Client} {name post : String}

/-- `cb` is called at most once for every hash file that matches, and not at
all if none does. -/
theorem settled_compareHashes {cb : Code} (hcb : settled cb.acts ≤ 1) (hash : String)
    (hashfiles : List String) :
    settled (compareHashes K hash cb hashfiles).acts ≤ hashfiles.countP (K.matches hash) ∧
      ((compareHashes K hash cb hashfiles).result = .ok false →
        settled (compareHashes K hash cb hashfiles).acts = 0) := by
  induction hashfiles with
  | nil => simp [compareHashes, settled]
  | cons fn hashfiles ih =>
      obtain ⟨hcount, hfalse⟩ := ih
      rw [compareHashes, List.countP_cons, Keys.matches]
      cases hread : K.readFile fn with
      | error e => simp [settled]
      | ok cmp_hash =>
          simp only [JS.lift_ok_bind, decide_eq_true_eq]
          split
          next =>
            cases hres : cb.result with
            | error e =>
                rw [JS.bind_acts_error hres, JS.bind_result_error hres]
                exact ⟨by omega, fun h => by cases h⟩
            | ok u =>
                rw [JS.bind_acts_ok hres, JS.bind_result_ok hres, bind_true_acts]
                refine ⟨?_, fun h => ?_⟩
                · rw [settled] at hcb hcount ⊢
                  rw [List.countP_append]
                  omega
                · cases hrest : (compareHashes K hash cb hashfiles).result with
                  | error e =>
                      rw [JS.bind_result_error hrest] at h
                      cases h
                  | ok b =>
                      rw [JS.bind_result_ok hrest] at h
                      cases h
          next => exact ⟨by omega, hfalse⟩

theorem serves_check {P : Act → Prop} {cb cb_false : Code} {hashfiles : Option (List String)}
    {cert : JsVal} (hcb : Serves P cb) (hfalse : Serves P cb_false)
    (hone : ∀ fns hash, hashfiles = some fns → certHash E cert = .ok hash →
      fns.countP (K.matches hash) ≤ 1) : Serves P (check E K hashfiles cert cb cb_false) := by
  refine ⟨fun a ha => (mem_check ha).elim (hfalse.acts a) fun h => hcb.acts a h.1, ?_⟩
  cases hashfiles with
  | none => exact hcb.once
  | some fns =>
      rw [check]
      split
      next =>
        cases hhash : certHash E cert with
        | error e => simp [settled]
        | ok hash =>
            rw [JS.lift_ok_bind]
            obtain ⟨hcount, hnone⟩ := settled_compareHashes (K := K) hcb.once hash fns
            have hle := hone fns hash rfl hhash
            cases hres : (compareHashes K hash cb fns).result with
            | error e =>
                rw [JS.bind_acts_error hres]
                omega
            | ok b =>
                rw [JS.bind_acts_ok hres]
                cases b with
                | true =>
                    rw [settled, List.countP_append]
                    rw [settled] at hcount
                    exact (Nat.add_le_add_right hcount 0).trans hle
                | false =>
                    have h0 := hnone hres
                    have h1 := hfalse.once
                    show settled (_ ++ cb_false.acts) ≤ 1
                    rw [settled] at h0 h1 ⊢
                    rw [List.countP_append]
                    omega
      next => exact hfalse.once

theorem serves_runAction {query : JsVal} {r : Registration}
    (h : ∀ a payload, r = .action a → query.prop "payload" = .ok payload →
      a.Answerable env payload) :
    Serves (Act.For client.req) (runAction E env client name query r) := by
  cases r with
  | action a =>
      rw [runAction]
      exact ServesOrThrows.tryCatch
        (.lift_bind fun payload hp => .act_bind trivial rfl
          (serves_action E env client payload (h a payload rfl hp)))
        fun e => .answer rfl
  | inherited => exact .answer rfl

/-- Every act of a request is for it. -/
theorem for_prepare_action {a : Act} (h : a ∈ (prepare_action E K env client name post).acts) :
    a.For client.req := by
  rcases mem_prepare_action h with ⟨m, -, rfl⟩ | ⟨payload, rfl⟩ | ⟨b, payload, -, hb⟩
  · rfl
  · trivial
  · exact for_run E env client payload b a hb

/-- What keeps a request from being answered twice: at most one hash file of
its action matches its certificate, and the action keeps to one answer. -/
structure AnsweredOnce (E : Ext) (K : Keys) (env : Env) (name post : String) : Prop where
  cert : ∀ r fns query cert hash, actions name = some r → r.cert = some fns →
    queryOf K post = .ok query → query.prop "cert" = .ok cert → certHash E cert = .ok hash →
      fns.countP (K.matches hash) ≤ 1
  action : ∀ a query payload, actions name = some (.action a) → queryOf K post = .ok query →
    query.prop "payload" = .ok payload → a.Answerable env payload

/-- One hash file suffices for the action, and it always keeps to one answer. -/
theorem AnsweredOnce.of_action (env : Env) (post : String) {b : ActionName}
    (hname : actions name = some (.action b)) (hcert : ∀ fns, b.cert = some fns → fns.length ≤ 1)
    (h : ∀ payload, b.Answerable env payload) : AnsweredOnce E K env name post where
  cert r fns query cert hash hr hfns _ _ _ := by
    cases hname.symm.trans hr
    exact List.countP_le_length.trans (hcert fns hfns)
  action a query payload ha _ _ := by
    cases hname.symm.trans ha
    exact h payload

/-- A request is settled at most once before its first callback. -/
theorem serves_prepare_action (h : AnsweredOnce E K env name post) :
    Serves (Act.For client.req) (prepare_action E K env client name post) := by
  cases hr : actions name with
  | none =>
      rw [prepare_action, hr]
      exact .act rfl
  | some r =>
      cases hp : decodePost K post with
      | error e =>
          rw [prepare_action, hr]
          simp only [hp]
          exact .act rfl
      | ok p =>
          have hqo := queryOf_eq hp
          cases hq : decodeQuery K p.1 p.2 with
          | error e =>
              rw [prepare_action_undecryptable E env client hr hp hq]
              exact ⟨fun a ha => List.mem_singleton.mp ha ▸ rfl, List.countP_le_length⟩
          | ok query =>
              rw [prepare_action_decoded E env client hr hp hq]
              refine .lift_bind fun cert hcert => serves_check ?_ (.answer rfl) ?_
              · exact serves_runAction fun a payload ha hpay =>
                  h.action a query payload (ha ▸ hr) (hqo.trans hq) hpay
              · exact fun fns hash hf hh => h.cert r fns query cert hash hr hf (hqo.trans hq) hcert hh

end Request

end SchuleAlsStaat
