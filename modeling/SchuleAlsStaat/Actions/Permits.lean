import SchuleAlsStaat.Actions.Origins

/-!
# Which action a call belongs to

Every call to the database is issued by the code of one action, or of a few that
share this code.  An action issues its own calls only, and so do its callbacks.
-/

namespace SchuleAlsStaat

open Js (Exn JsVal JS)

/-! ## All acts of a stretch -/

/-- All acts of a stretch have `P`. -/
def Does {α : Type} (P : Act → Prop) (x : JS Act α) : Prop := ∀ a ∈ x.acts, P a

namespace Does

variable {α β : Type} {P Q : Act → Prop}

theorem pure (a : α) : Does P (pure a : JS Act α) := by simp [Does]

theorem act {a : Act} (h : P a) : Does P (JS.act a) := by simpa [Does] using h

theorem answer (client : Client) (m : Answer) (h : P (.answer client m)) :
    Does P (answer client m) := by simpa [Does] using h

theorem bind {x : JS Act α} {f : α → JS Act β} (hx : Does P x) (hf : ∀ a, Does P (f a)) :
    Does P (x >>= f) := by
  intro b hb
  rcases JS.mem_bind_acts.mp hb with hb | ⟨a, -, hb⟩
  · exact hx b hb
  · exact hf a b hb

theorem lift_bind {r : Except Exn α} {f : α → JS Act β} (hf : ∀ a, Does P (f a)) :
    Does P (JS.lift r >>= f) :=
  bind (by simp [Does]) hf

theorem ite {c : Prop} [Decidable c] {x y : JS Act α} (hx : Does P x) (hy : Does P y) :
    Does P (if c then x else y) := by
  split
  · exact hx
  · exact hy

end Does

/-! ## The calls of an action -/

/-- The callback is one of the action's. -/
def StudentCb.belongs (b : ActionName) : StudentCb → Bool
  | .get_balance _ => b = .get_balance
  | .get_balance_master => b = .get_balance_master
  | .get_last_transactions _ => b = .get_last_transactions
  | .transaction_normal _ => b = .money .transaction ∨ b = .money .transaction_taxfree
  | .transaction_taxinc _ => b.moves
  | .transaction_sender _ _ => b.moves
  | .transaction_recipient _ _ _ => b.moves
  | .transactions_poll _ => b = .transactions_poll
  | .profile_edit _ => b = .profile_edit
  | .student_delete => b = .student_delete
  | .password_change _ => b = .password_change
  | .password_change_master _ => b = .password_change_master
  | .ec_student_get => b = .ec_student_get
  | .register_student _ => b = .register_student
  | .regStudent _ _ => b = .register_student

/-- The call is one of the action's. -/
def Query.belongs (b : ActionName) : Query → Bool
  | .student _ _ cb => cb.belongs b
  | .students _ _ _ .students_get => b = .students_get
  | .students _ _ _ .student_identify => b = .student_identify
  | .addStudent _ => b = .register_student
  | .addAppear _ _ => b = .ec_checkin ∨ b = .ec_checkout
  | .transactions _ _ (.find_transactions _) => b = .find_transactions
  | .transactions _ _ _ => b = .get_last_transactions
  | .transaction _ => b = .transaction_delete
  | .saveStudent _ (.profile _ _) => b = .profile_edit
  | .saveStudent _ (.password _ _) => b = .password_change ∨ b = .password_change_master
  | .removeStudent _ => b = .student_delete
  | .removeTransaction _ => b = .transaction_delete
  | .setConfig _ _ => b = .config_set ∨ b = .config_del

/-- The act is one of the action's. -/
def ActionName.Issues (b : ActionName) : Act → Prop
  | .query _ q => q.belongs b = true
  | .getBalance _ _ => b = .get_balance ∨ b = .get_balance_master
  | .intent _ _ _ => b.moves = true
  | .spawn _ _ => b.moves = true
  | .poll _ _ _ => b = .transactions_poll
  | _ => True

/-! ## What actions and callbacks issue -/

section Issues

variable {b : ActionName} {E : Ext} {env : Env} {client : Client}

theorem does_info (v : JsVal) : Does b.Issues (info v) := .lift_bind fun _ => .pure ()

theorem does_getTransactions {filter : Filter} {limit : JsVal} {cb : TransactionsCb}
    (h : (Query.transactions filter limit cb).belongs b = true) :
    Does b.Issues (getTransactions client filter limit cb) := by
  rw [getTransactions]
  split
  · exact .lift_bind fun _ => .act h
  · exact .act h

theorem does_transaction {sender_qrid recipient_qrid amount_sent amount_received tax
    comment : JsVal} (h : b.moves = true) :
    Does b.Issues (transaction env client sender_qrid recipient_qrid amount_sent amount_received
      tax comment) := by
  refine .lift_bind fun _ => .lift_bind fun _ => ?_
  split
  · exact .answer _ _ trivial
  · exact .act h

theorem does_transaction_normal {payload tax : JsVal}
    (h : b = .money .transaction ∨ b = .money .transaction_taxfree) :
    Does b.Issues (transaction_normal env client payload tax) := by
  have hcb : ∀ args, (StudentCb.transaction_normal args).belongs b = true := fun _ => by
    simpa [StudentCb.belongs] using h
  refine .lift_bind fun args => ?_
  rw [normal]
  refine .lift_bind fun _ => .ite (.answer _ _ trivial) ?_
  refine .lift_bind fun _ => .ite (.answer _ _ trivial) ?_
  exact .lift_bind fun _ => .ite (.answer _ _ trivial) (.act (hcb args))

theorem does_onRecipient {t : Transfer} {taxinc : Student} {sender recipient : Party}
    (h : b.moves = true) : Does b.Issues (onRecipient E env client t taxinc sender recipient) := by
  refine .lift_bind fun _ => ?_
  cases sender with
  | magic_account => exact .act h
  | account st => exact .act h

theorem does_onSender {t : Transfer} {taxinc : Student} {sender : Party} (h : b.moves = true) :
    Does b.Issues (onSender E env client t taxinc sender) := by
  rw [onSender]
  exact .ite (does_onRecipient h) (.act h)

theorem does_addRegistered {payload qrid : JsVal} :
    Does ActionName.register_student.Issues (addRegistered E env client payload qrid) := by
  refine .lift_bind fun _ => .lift_bind fun _ => .lift_bind fun _ => .lift_bind fun _ => ?_
  refine .lift_bind fun _ => .lift_bind fun _ => .lift_bind fun _ => .lift_bind fun _ => ?_
  exact .lift_bind fun _ => .act rfl

theorem does_chooseQrid {payload : JsVal} :
    Does ActionName.register_student.Issues (chooseQrid E env client payload) :=
  .lift_bind fun _ => .ite does_addRegistered (.act rfl)

theorem does_money (a : MoneyAction) {payload : JsVal} :
    Does (ActionName.money a).Issues (a.run env client payload) := by
  have hm : (ActionName.money a).moves = true := rfl
  cases a with
  | transaction => exact does_transaction_normal (.inl rfl)
  | transaction_taxfree => exact does_transaction_normal (.inr rfl)
  | spawn_money =>
      exact .lift_bind fun _ => .lift_bind fun _ => .lift_bind fun _ => does_transaction hm
  | destroy_money =>
      exact .lift_bind fun _ => .lift_bind fun _ => .lift_bind fun _ => does_transaction hm
  | master_transaction =>
      refine .lift_bind fun _ => .lift_bind fun _ => .ite (.answer _ _ trivial) ?_
      refine .lift_bind fun _ => .lift_bind fun _ => .lift_bind fun _ => ?_
      exact .lift_bind fun _ => .lift_bind fun _ => does_transaction hm

/-- An action issues its own calls. -/
theorem does_run (b : ActionName) {payload : JsVal} :
    Does b.Issues (b.run E env client payload) := by
  cases b with
  | test => exact .answer _ _ trivial
  | config_get => exact .lift_bind fun _ => .answer _ _ trivial
  | config_set =>
      refine .lift_bind fun _ => .lift_bind fun _ => .bind (.act rfl) fun _ => ?_
      exact .bind (.answer _ _ trivial) fun _ => .bind (does_info _) fun _ => does_info _
  | config_del =>
      exact .bind (.act rfl) fun _ => .bind (does_info _) fun _ => .answer _ _ trivial
  | config_getall => exact .answer _ _ trivial
  | transactions_poll => exact .lift_bind fun _ => .act rfl
  | students_get =>
      refine .lift_bind fun _ => .lift_bind fun _ => .lift_bind fun limit => ?_
      split
      · exact .lift_bind fun _ => .act rfl
      · exact .act rfl
  | profile_edit => exact .lift_bind fun _ => .act rfl
  | student_delete => exact .act rfl
  | student_identify =>
      refine .lift_bind fun _ => .ite (.answer _ _ trivial) ?_
      exact .lift_bind fun _ => .act rfl
  | password_change => exact .lift_bind fun _ => .act rfl
  | password_change_master => exact .lift_bind fun _ => .act rfl
  | ec_student_get => exact .act rfl
  | ec_checkin => exact .act rfl
  | ec_checkout => exact .act rfl
  | register_student =>
      refine .lift_bind fun _ => .lift_bind fun _ => .lift_bind fun _ => ?_
      exact .ite (.act rfl) does_chooseQrid
  | get_balance => exact .lift_bind fun _ => .act rfl
  | get_balance_master => exact .act rfl
  | get_last_transactions => exact .lift_bind fun _ => .act rfl
  | find_transactions =>
      exact .lift_bind fun _ => .lift_bind fun _ => does_getTransactions rfl
  | money a => exact does_money a
  | transaction_delete => exact .lift_bind fun _ => .act rfl

/-- The callbacks of an action issue its calls. -/
theorem does_onStudent {cb : StudentCb} (h : cb.belongs b = true) (st : Option Student) :
    Does b.Issues (onStudent E env client st cb) := by
  cases cb with
  | get_balance payload =>
      have hb := of_decide_eq_true h
      cases st with
      | none => exact .answer _ _ trivial
      | some st =>
          refine .lift_bind fun _ => .lift_bind fun _ => .ite (.answer _ _ trivial) ?_
          exact .act (.inl hb)
  | get_balance_master =>
      have hb := of_decide_eq_true h
      cases st with
      | none => exact .answer _ _ trivial
      | some st => exact .act (.inr hb)
  | get_last_transactions payload =>
      cases st with
      | none => exact .answer _ _ trivial
      | some st =>
          refine .lift_bind fun _ => .lift_bind fun _ => .ite (.answer _ _ trivial) ?_
          exact .lift_bind fun _ => does_getTransactions h
  | transaction_normal args =>
      have hm : b.moves = true := by
        rcases of_decide_eq_true h with rfl | rfl <;> rfl
      cases st with
      | none => exact .answer _ _ trivial
      | some st =>
          exact .lift_bind fun _ => .ite (.answer _ _ trivial) (does_transaction hm)
  | transaction_taxinc t =>
      cases st with
      | none => exact .answer _ _ trivial
      | some st => exact .ite (does_onSender h) (.act h)
  | transaction_sender t taxinc =>
      cases st with
      | none => exact .answer _ _ trivial
      | some st => exact does_onSender h
  | transaction_recipient t taxinc sender =>
      cases st with
      | none => exact .answer _ _ trivial
      | some st => exact does_onRecipient h
  | transactions_poll payload =>
      have hb := of_decide_eq_true h
      cases st with
      | none => exact .answer _ _ trivial
      | some st =>
          refine .lift_bind fun _ => .lift_bind fun _ => .ite (.answer _ _ trivial) ?_
          refine .lift_bind fun date => ?_
          cases date with
          | none => exact .answer _ _ trivial
          | some date => exact .lift_bind fun _ => .bind (does_info _) fun _ => .act hb
  | profile_edit payload =>
      cases st with
      | none => exact .answer _ _ trivial
      | some st =>
          refine .lift_bind fun prop => ?_
          split
          · exact .lift_bind fun _ => .answer _ _ trivial
          · refine .lift_bind fun _ => .bind (does_info _) fun _ => ?_
            exact .bind (.act h) fun _ => .answer _ _ trivial
  | student_delete =>
      cases st with
      | none => exact .answer _ _ trivial
      | some st => exact .bind (.act h) fun _ => .answer _ _ trivial
  | password_change payload =>
      have hsave : ∀ id hash salt,
          (Query.saveStudent id (.password hash salt)).belongs b = true := fun _ _ _ =>
        decide_eq_true (.inl (of_decide_eq_true h))
      cases st with
      | none => exact .answer _ _ trivial
      | some st =>
          refine .lift_bind fun _ => .lift_bind fun _ => .ite ?_ (.answer _ _ trivial)
          refine .lift_bind fun _ => .bind ?_ fun _ => .answer _ _ trivial
          exact .lift_bind fun _ => .act (hsave _ _ _)
  | password_change_master payload =>
      have hsave : ∀ id hash salt,
          (Query.saveStudent id (.password hash salt)).belongs b = true := fun _ _ _ =>
        decide_eq_true (.inr (of_decide_eq_true h))
      cases st with
      | none => exact .answer _ _ trivial
      | some st =>
          refine .lift_bind fun _ => .bind ?_ fun _ => .answer _ _ trivial
          exact .lift_bind fun _ => .act (hsave _ _ _)
  | ec_student_get =>
      cases st with
      | none => exact .answer _ _ trivial
      | some st => exact .answer _ _ trivial
  | register_student payload =>
      cases of_decide_eq_true h
      cases st with
      | none => exact does_chooseQrid
      | some st => exact .lift_bind fun _ => .lift_bind fun _ => .answer _ _ trivial
  | regStudent payload qrid =>
      cases of_decide_eq_true h
      cases st with
      | none => exact does_addRegistered
      | some st => exact does_chooseQrid

theorem does_onTransactions {filter : Filter} {limit : JsVal} {cb : TransactionsCb}
    (h : (Query.transactions filter limit cb).belongs b = true) (tr : List Booking) :
    Does b.Issues (onTransactions client cb tr) := by
  cases cb with
  | get_last_transactions st amount => exact does_getTransactions h
  | taxes st l => exact .answer _ _ trivial
  | find_transactions payload =>
      refine .lift_bind fun _ => .lift_bind fun amount => ?_
      cases amount with
      | nan => exact .answer _ _ trivial
      | fin q => exact .answer _ _ trivial

theorem does_onReply {q : Query} (h : q.belongs b = true) (r : Reply) :
    Does b.Issues (onReply E env client q r) := by
  rw [onReply.eq_def]
  split
  next component qrid cb st => exact does_onStudent h st
  next properties patterns limit cb l =>
    cases cb with
    | students_get => exact .answer _ _ trivial
    | student_identify =>
        match l with
        | [] => exact .answer _ _ trivial
        | [st] => exact .answer _ _ trivial
        | st :: st' :: l => exact .answer _ _ trivial
  next => exact .answer _ _ trivial
  next qrid spec success =>
    exact .ite (.bind (.answer _ _ trivial) fun _ => does_info _) (.answer _ _ trivial)
  next => exact does_onTransactions h _
  next id tr =>
    cases tr with
    | none => exact .answer _ _ trivial
    | some b => exact .bind (.act h) fun _ => .answer _ _ trivial
  next => exact .pure ()

end Issues

end SchuleAlsStaat
