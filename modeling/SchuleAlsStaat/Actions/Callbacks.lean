import SchuleAlsStaat.Actions.Students
import SchuleAlsStaat.Actions.Transactions

/-!
# The other actions and all callbacks

`actions/misc.js`, `actions/config.js` and `actions/polling.js`, and the
callback of each call to the database.
-/

namespace SchuleAlsStaat

open Js (Exn Json JsVal JS)

/-! ## misc.js and config.js -/

def test (client : Client) (payload : JsVal) : Code := answer client (.echo payload)

/-- `config[key]`.  A function that the object inherits has no JSON form, like
`undefined`, and its prototype is an empty object. -/
def configGet (options : List (String × Json)) (key : String) : JsVal :=
  match Json.field key options with
  | some v => some v
  | none => if key = "__proto__" then some (.obj []) else none

def config_get (env : Env) (client : Client) (payload : JsVal) : Code := do
  let key ← JS.str payload
  answer client (.value (configGet env.options key))

def config_set (client : Client) (payload : JsVal) : Code := do
  let key ← JS.lift (payload.prop "key")
  let value ← JS.lift (payload.prop "value")
  query client (.setConfig key value)
  answer client .ok
  info key
  info value

def config_del (client : Client) (payload : JsVal) : Code := do
  query client (.setConfig payload (some .null))
  info payload  -- `delete config[payload]`
  answer client .ok

def config_getall (env : Env) (client : Client) (_ : JsVal) : Code :=
  answer client (.options env.options)

/-! ## polling.js -/

def transactions_poll (client : Client) (payload : JsVal) : Code := do
  getCertainByQridLean client (← JS.lift (payload.prop "qrid")) (.transactions_poll payload)

/-- The date, if it is a number. -/
def pollDate (payload : JsVal) : Except Exn (Option ℚ) := do
  if !(← payload.hasProp "date") then return none
  let date ← payload.prop "date"
  let _ ← date.toNumber  -- `isNaN`
  return date.isFinite

/-- The callback of `transactions_poll`.  The poll is the one of the client whose
password was checked. -/
def transactions_poll_cb (E : Ext) (payload : JsVal) (client : Client) : Option Student → Code
  | none => answer client (.text "invalid_qrid")
  | some st => do
      if !(← JS.lift (check_password E st (← JS.lift (payload.prop "password")))) then
        answer client (.text "invalid_password")
      else
        match ← JS.lift (pollDate payload) with
        | none => answer client (.text "invalid_date")
        | some date => do
            let qrid ← JS.lift (payload.prop "qrid")
            info qrid
            JS.act (.poll { client with auth := some st._id } date qrid)

/-! ## Callbacks -/

/-- The callback of a query for one student. -/
def onStudent (E : Ext) (env : Env) (client : Client) (st : Option Student) : StudentCb → Code
  | .get_balance payload => get_balance_cb E payload client st
  | .get_balance_master => get_balance_master_cb client st
  | .get_last_transactions payload => get_last_transactions_cb E payload client st
  | .transaction_normal args => transaction_normal_cb E env client args st
  | .transaction_taxinc t => transaction_taxinc_cb E env client t st
  | .transaction_sender t taxinc => transaction_sender_cb E env client t taxinc st
  | .transaction_recipient t taxinc sender => transaction_recipient_cb E env client t taxinc sender st
  | .transactions_poll payload => transactions_poll_cb E payload client st
  | .profile_edit payload => profile_edit_cb payload client st
  | .student_delete => student_delete_cb client st
  | .password_change payload => password_change_cb E env payload client st
  | .password_change_master payload => password_change_master_cb E env payload client st
  | .ec_student_get => ec_student_get_cb client st
  | .register_student payload => register_student_cb E env payload client st
  | .regStudent payload qrid => regStudent_cb E env payload qrid client st

/-- The callback of a query.  The database replies to a query with a value of
its own kind. -/
def onReply (E : Ext) (env : Env) (client : Client) : Query → Reply → Code
  | .student _ _ cb, .student st => onStudent E env client st cb
  | .students _ _ _ cb, .students l => onStudents client cb l
  | .addStudent _, .added st => onAdded client st
  | .addAppear qrid _, .appear success => onAppear client qrid success
  | .transactions _ _ cb, .transactions l => onTransactions client cb l
  | .transaction id, .transaction tr => transaction_delete_cb client id tr
  | _, _ => pure ()

end SchuleAlsStaat
