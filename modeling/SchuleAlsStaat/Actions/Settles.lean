import SchuleAlsStaat.Actions.Duties

/-!
# No duty is dropped

Code that returns has answered, or it has passed the duty to answer on: `Settles`.
`Serves` bounds how often a stretch of code settles its request from above, and this
bounds it from below.  It holds for every action and for every callback on a reply of
its kind.
-/

namespace SchuleAlsStaat

open Js (Exn JsVal JS)

/-- Code that returns has settled its request. -/
def Settles {α : Type} (x : JS Act α) : Prop := ∀ a, x.result = .ok a → 1 ≤ settled x.acts

theorem settled_append (l l' : List Act) : settled (l ++ l') = settled l + settled l' :=
  List.countP_append

namespace Settles

variable {α β : Type}

theorem act {a : Act} (h : a.settles = true) : Settles (JS.act a) := fun _ _ => by
  rw [JS.act_acts, settled, List.countP_singleton, if_pos h]

theorem answer {client : Client} {m : Answer} : Settles (answer client m) := fun _ _ => by
  rw [answer_acts, settled, List.countP_singleton]
  rfl

/-- The first part settles the request. -/
theorem before {x : JS Act α} {f : α → JS Act β} (h : Settles x) : Settles (x >>= f) := by
  intro b hb
  cases hx : x.result with
  | error e =>
      rw [JS.bind_result_error hx] at hb
      cases hb
  | ok a =>
      rw [JS.bind_acts_ok hx, settled_append]
      exact (h a hx).trans (Nat.le_add_right ..)

/-- The rest settles the request. -/
theorem after {x : JS Act α} {f : α → JS Act β} (h : ∀ a, Settles (f a)) : Settles (x >>= f) := by
  intro b hb
  cases hx : x.result with
  | error e =>
      rw [JS.bind_result_error hx] at hb
      cases hb
  | ok a =>
      rw [JS.bind_result_ok hx] at hb
      rw [JS.bind_acts_ok hx, settled_append]
      exact (h a b hb).trans (Nat.le_add_left ..)

theorem ite {c : Prop} [Decidable c] {x y : JS Act α} (hx : Settles x) (hy : Settles y) :
    Settles (if c then x else y) := by
  split
  · exact hx
  · exact hy

/-- What is caught settles the request as well. -/
theorem tryCatch {x : JS Act α} {h : Exn → JS Act α} (hx : Settles x) (hh : ∀ e, Settles (h e)) :
    Settles (JS.tryCatch x h) := by
  intro a ha
  rw [JS.tryCatch] at ha ⊢
  split at ha
  next hres => exact hx _ hres
  next e hres =>
    show 1 ≤ settled (x.acts ++ (h e).acts)
    rw [settled_append]
    exact (hh e a ha).trans (Nat.le_add_left ..)

end Settles

/-! ## Actions -/

section Actions

variable {E : Ext} {env : Env} {client : Client}

theorem settles_getTransactions {filter : Filter} {limit : JsVal} {cb : TransactionsCb} :
    Settles (getTransactions client filter limit cb) := by
  rw [getTransactions]
  split
  · exact .after fun _ => .act rfl
  · exact .act rfl

theorem settles_transaction {sender_qrid recipient_qrid amount_sent amount_received tax
    comment : JsVal} :
    Settles (transaction env client sender_qrid recipient_qrid amount_sent amount_received
      tax comment) := by
  refine .after fun _ => .after fun _ => ?_
  split
  · exact .answer
  · exact .act rfl

theorem settles_transaction_normal {payload tax : JsVal} :
    Settles (transaction_normal env client payload tax) := by
  refine .after fun args => ?_
  rw [normal]
  refine .after fun _ => .ite .answer ?_
  refine .after fun _ => .ite .answer ?_
  exact .after fun _ => .ite .answer (.act rfl)

theorem settles_onRecipient {t : Transfer} {taxinc : Student} {sender recipient : Party} :
    Settles (onRecipient E env client t taxinc sender recipient) := by
  refine .after fun _ => ?_
  cases sender with
  | magic_account => exact .act rfl
  | account st => exact .act rfl

theorem settles_onSender {t : Transfer} {taxinc : Student} {sender : Party} :
    Settles (onSender E env client t taxinc sender) := by
  rw [onSender]
  exact .ite settles_onRecipient (.act rfl)

theorem settles_addRegistered {payload qrid : JsVal} :
    Settles (addRegistered E env client payload qrid) := by
  refine .after fun _ => .after fun _ => .after fun _ => .after fun _ => .after fun _ => ?_
  exact .after fun _ => .after fun _ => .after fun _ => .after fun _ => .act rfl

theorem settles_chooseQrid {payload : JsVal} : Settles (chooseQrid E env client payload) :=
  .after fun _ => .ite settles_addRegistered (.act rfl)

theorem settles_money (a : MoneyAction) {payload : JsVal} :
    Settles (a.run env client payload) := by
  cases a with
  | transaction => exact settles_transaction_normal
  | transaction_taxfree => exact settles_transaction_normal
  | spawn_money => exact .after fun _ => .after fun _ => .after fun _ => settles_transaction
  | destroy_money => exact .after fun _ => .after fun _ => .after fun _ => settles_transaction
  | master_transaction =>
      refine .after fun _ => .after fun _ => .ite .answer ?_
      refine .after fun _ => .after fun _ => .after fun _ => .after fun _ => ?_
      exact .after fun _ => settles_transaction

/-- An action that returns has settled its request. -/
theorem settles_run (b : ActionName) {payload : JsVal} :
    Settles (b.run E env client payload) := by
  cases b with
  | test => exact .answer
  | config_get => exact .after fun _ => .answer
  | config_set =>
      exact .after fun _ => .after fun _ => .after fun _ => .before .answer
  | config_del => exact .after fun _ => .after fun _ => .answer
  | config_getall => exact .answer
  | transactions_poll => exact .after fun _ => .act rfl
  | students_get =>
      refine .after fun _ => .after fun _ => .after fun limit => ?_
      split
      · exact .after fun _ => .act rfl
      · exact .act rfl
  | profile_edit => exact .after fun _ => .act rfl
  | student_delete => exact .act rfl
  | student_identify => exact .after fun _ => .ite .answer (.after fun _ => .act rfl)
  | password_change => exact .after fun _ => .act rfl
  | password_change_master => exact .after fun _ => .act rfl
  | ec_student_get => exact .act rfl
  | ec_checkin => exact .act rfl
  | ec_checkout => exact .act rfl
  | register_student =>
      refine .after fun _ => .after fun _ => .after fun _ => ?_
      exact .ite (.act rfl) settles_chooseQrid
  | get_balance => exact .after fun _ => .act rfl
  | get_balance_master => exact .act rfl
  | get_last_transactions => exact .after fun _ => .act rfl
  | find_transactions => exact .after fun _ => .after fun _ => settles_getTransactions
  | money a => exact settles_money a
  | transaction_delete => exact .after fun _ => .act rfl

end Actions

/-! ## Callbacks -/

/-- The reply is of the kind that the callback of the query gets. -/
def Query.fits : Query → Reply → Bool
  | .student _ _ _, .student _ => true
  | .students _ _ _ _, .students _ => true
  | .addStudent _, .added _ => true
  | .addAppear _ _, .appear _ => true
  | .transactions _ _ _, .transactions _ => true
  | .transaction _, .transaction _ => true
  | _, _ => false

section Callbacks

variable {E : Ext} {env : Env} {client : Client}

theorem settles_onStudent (cb : StudentCb) (st : Option Student) :
    Settles (onStudent E env client st cb) := by
  cases cb with
  | get_balance payload =>
      cases st with
      | none => exact .answer
      | some st => exact .after fun _ => .after fun _ => .ite .answer (.act rfl)
  | get_balance_master =>
      cases st with
      | none => exact .answer
      | some st => exact .act rfl
  | get_last_transactions payload =>
      cases st with
      | none => exact .answer
      | some st =>
          refine .after fun _ => .after fun _ => .ite .answer ?_
          exact .after fun _ => settles_getTransactions
  | transaction_normal args =>
      cases st with
      | none => exact .answer
      | some st => exact .after fun _ => .ite .answer settles_transaction
  | transaction_taxinc t =>
      cases st with
      | none => exact .answer
      | some st => exact .ite settles_onSender (.act rfl)
  | transaction_sender t taxinc =>
      cases st with
      | none => exact .answer
      | some st => exact settles_onSender
  | transaction_recipient t taxinc sender =>
      cases st with
      | none => exact .answer
      | some st => exact settles_onRecipient
  | transactions_poll payload =>
      cases st with
      | none => exact .answer
      | some st =>
          refine .after fun _ => .after fun _ => .ite .answer (.after fun date => ?_)
          cases date with
          | none => exact .answer
          | some date => exact .after fun _ => .after fun _ => .act rfl
  | profile_edit payload =>
      cases st with
      | none => exact .answer
      | some st =>
          refine .after fun prop => ?_
          split
          · exact .after fun _ => .answer
          · exact .after fun _ => .after fun _ => .after fun _ => .answer
  | student_delete =>
      cases st with
      | none => exact .answer
      | some st => exact .after fun _ => .answer
  | password_change payload =>
      cases st with
      | none => exact .answer
      | some st =>
          refine .after fun _ => .after fun _ => .ite ?_ .answer
          exact .after fun _ => .after fun _ => .answer
  | password_change_master payload =>
      cases st with
      | none => exact .answer
      | some st => exact .after fun _ => .after fun _ => .answer
  | ec_student_get =>
      cases st with
      | none => exact .answer
      | some st => exact .answer
  | register_student payload =>
      cases st with
      | none => exact settles_chooseQrid
      | some st => exact .after fun _ => .after fun _ => .answer
  | regStudent payload qrid =>
      cases st with
      | none => exact settles_addRegistered
      | some st => exact settles_chooseQrid

theorem settles_onTransactions (cb : TransactionsCb) (tr : List Booking) :
    Settles (onTransactions client cb tr) := by
  cases cb with
  | get_last_transactions st amount => exact settles_getTransactions
  | taxes st l => exact .answer
  | find_transactions payload =>
      refine .after fun _ => .after fun amount => ?_
      cases amount with
      | nan => exact .answer
      | fin q => exact .answer

/-- A callback that returns has settled its request. -/
theorem settles_onReply {q : Query} {r : Reply} (h : q.fits r = true) :
    Settles (onReply E env client q r) := by
  rw [Query.fits.eq_def] at h
  split at h
  next component qrid cb st => exact settles_onStudent cb st
  next properties patterns limit cb l =>
    cases cb with
    | students_get => exact .answer
    | student_identify =>
        match l with
        | [] => exact .answer
        | [st] => exact .answer
        | st :: st' :: l => exact .answer
  next => exact .answer
  next qrid spec success => exact .ite (.before .answer) .answer
  next filter limit cb l => exact settles_onTransactions cb l
  next id tr =>
    cases tr with
    | none => exact .answer
    | some b => exact .after fun _ => .answer
  next => cases h

end Callbacks

/-! ## Requests -/

section Request

variable {E : Ext} {K : Keys} {env : Env} {client : Client} {name post : String}

theorem settles_runAction {query : JsVal} {r : Registration} :
    Settles (runAction E env client name query r) := by
  cases r with
  | action a =>
      rw [runAction]
      refine .tryCatch (.after fun payload => .after fun _ => settles_run a) fun _ => .answer
  | inherited => exact .answer

/-- The action runs, or no hash file matches and this is told. -/
theorem settles_compareHashes {cb : Code} (hcb : Settles cb) (hash : String)
    (hashfiles : List String) (h : (compareHashes K hash cb hashfiles).result = .ok true) :
    1 ≤ settled (compareHashes K hash cb hashfiles).acts := by
  induction hashfiles with
  | nil => cases h
  | cons fn hashfiles ih =>
      rw [compareHashes] at h ⊢
      cases hread : K.readFile fn with
      | error e =>
          rw [hread] at h
          cases h
      | ok cmp_hash =>
          rw [hread, JS.lift_ok_bind] at h
          rw [JS.lift_ok_bind]
          split at h
          next heq =>
            rw [if_pos heq]
            have hsettles : Settles (do
                cb
                let _ ← compareHashes K hash cb hashfiles
                return true : JS Act Bool) := .before hcb
            exact hsettles true h
          next hne =>
            rw [if_neg hne]
            exact ih h

theorem settles_check {hashfiles : Option (List String)} {cert : JsVal} {cb cb_false : Code}
    (hcb : Settles cb) (hfalse : Settles cb_false) :
    Settles (check E K hashfiles cert cb cb_false) := by
  cases hashfiles with
  | none => exact hcb
  | some fns =>
      rw [check]
      refine .ite (.after fun hash => ?_) hfalse
      intro u hu
      cases hres : (compareHashes K hash cb fns).result with
      | error e =>
          rw [JS.bind_result_error hres] at hu
          cases hu
      | ok b =>
          rw [JS.bind_result_ok hres] at hu
          rw [JS.bind_acts_ok hres, settled_append]
          cases b with
          | true => exact (settles_compareHashes hcb hash fns hres).trans (Nat.le_add_right ..)
          | false => exact (hfalse u hu).trans (Nat.le_add_left ..)

/-- A request whose code returns is settled. -/
theorem settles_prepare_action : Settles (prepare_action E K env client name post) := by
  rw [prepare_action]
  split
  next => exact .act rfl
  next r hr =>
    split
    next => exact .act rfl
    next encrypted aes_key hp =>
      exact .after fun query => .after fun cert => settles_check settles_runAction .answer

end Request

end SchuleAlsStaat
