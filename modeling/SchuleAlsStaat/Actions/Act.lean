import SchuleAlsStaat.Actions.Amounts
import SchuleAlsStaat.Api.Answer
import SchuleAlsStaat.Js.Program

/-!
# Acts and callbacks

What an action does is a list of acts: it answers, it issues a call to the
database, it hands over a transaction or it starts a poll.  A callback is a
constructor that holds the variables it captures.  The modules of the actions
say what each callback does.
-/

namespace SchuleAlsStaat

open Js (Exn Json JsVal JS)

/-! ## Surroundings -/

/-- What a stretch of code reads that is not passed to it. -/
structure Env where
  cfg : Config
  /-- The object that `config.getAll` returns. -/
  options : List (String × Json)
  now : Time
  /-- `randomBytes` as a password salt. -/
  pwdsalt : String
  /-- `randomBytes` as a QR-ID. -/
  qrid : String

/-- Libraries. -/
structure Ext extends Casts where
  /-- SHA-256 as a hexadecimal string. -/
  sha256 : String → String
  /-- `RegExp.quote`. -/
  quote : JsVal → Except Exn String
  /-- `mongoose.Types.ObjectId`. -/
  objectId : JsVal → Except Exn ObjectId
  /-- A record with this `qrid` matches the query `{qrid : v}`. -/
  matchesQrid : JsVal → Text → Bool

/-- Libraries for runs on fixed inputs.  The only date is the one of the
teachers, and a query by a string matches the records with that `qrid`. -/
def Ext.simple : Ext where
  castString
    | none => some .missing
    | some .null => some .null
    | some (.obj _) => none
    | some (.arr _) => none
    | some v => (JsVal.toStr (some v)).toOption.map .str
  castDate
    | none => some none
    | some .null => some none
    | some (.str "1970-1-1") => some (some 0)
    | _ => none
  castMixed v := v.getD .null
  castString_str _ := rfl
  sha256 s := "sha256:" ++ s
  quote v := v.toStr
  objectId _ := .error .typeError
  matchesQrid v qrid := match v with
    | some (.str s) => qrid = .str s
    | some .null => qrid.toOption = none
    | _ => false

/-- The defaults at the start of time. -/
def Env.start : Env where
  cfg := .defaults
  options := []
  now := 0
  pwdsalt := "salt"
  qrid := "00000000"

/-- A citizen with the password `pw`, for runs on fixed inputs. -/
def someStudent (id : ObjectId) : Student where
  _id := id
  qrid := .str (toString id)
  firstname := some "Karl"
  lastname := some "Marx"
  picname := none
  country := some "de"
  birth := none
  type := some "citizen"
  special_name := none
  appear := []
  pwdhash := some "sha256:pwsalt"
  pwdsalt := some "salt"

/-! ## Callbacks -/

/-- A side of a transaction. -/
inductive Party where
  | magic_account
  | account (st : Student)

/-- What the callbacks of `transaction` capture. -/
structure Transfer where
  sender_qrid : JsVal
  recipient_qrid : JsVal
  given : Given
  tax : JsVal
  comment : JsVal
  magic_account : String
  spawn_money : Bool
  destroy_money : Bool

/-- What `transaction_normal` reads from its payload. -/
structure NormalArgs where
  sender : JsVal
  recipient : JsVal
  sender_password : JsVal
  comment : JsVal
  sent : JsVal
  received : JsVal
  tax : JsVal

/-- The callbacks of the queries for one student. -/
inductive StudentCb where
  | get_balance (payload : JsVal)
  | get_balance_master
  | get_last_transactions (payload : JsVal)
  | transaction_normal (args : NormalArgs)
  | transaction_taxinc (t : Transfer)
  | transaction_sender (t : Transfer) (taxinc : Student)
  | transaction_recipient (t : Transfer) (taxinc : Student) (sender : Party)
  | transactions_poll (payload : JsVal)
  | profile_edit (payload : JsVal)
  | student_delete
  | password_change (payload : JsVal)
  | password_change_master (payload : JsVal)
  | ec_student_get
  /-- A preset QR-ID was looked up. -/
  | register_student (payload : JsVal)
  /-- A random QR-ID was looked up. -/
  | regStudent (payload : JsVal) (qrid : String)

inductive StudentsCb where
  | students_get
  | student_identify

inductive TransactionsCb where
  | get_last_transactions (st : Student) (amount : JsVal)
  | taxes (st : Student) (tr : List TransactionView)
  | find_transactions (payload : JsVal)

/-! ## Queries -/

/-- The record that `register_student` adds. -/
structure NewStudent where
  qrid : JsVal
  firstname : JsVal
  lastname : JsVal
  special_name : JsVal
  picname : JsVal
  country : JsVal
  birth : String
  type : String
  pwdhash : String
  pwdsalt : String

/-- The properties of a search for transactions. -/
inductive Filter where
  /-- Sender or recipient is the account. -/
  | account (id : ObjectId)
  /-- The tax recipient is the account. -/
  | tax_recipient (id : ObjectId)
  | properties (v : JsVal)

/-- A call to the database.  The last four have no callback. -/
inductive Query where
  | student (component : String) (qrid : JsVal) (cb : StudentCb)
  /-- Some properties may be replaced by regular expressions. -/
  | students (properties : JsVal) (patterns : List (String × String)) (limit : JsVal)
      (cb : StudentsCb)
  | addStudent (info : NewStudent)
  | addAppear (qrid : JsVal) (spec : Appear)
  | transactions (filter : Filter) (limit : JsVal) (cb : TransactionsCb)
  | transaction (id : ObjectId)
  | saveStudent (id : ObjectId) (u : StudentUpdate)
  | removeStudent (id : ObjectId)
  | removeTransaction (id : ObjectId)
  | setConfig (key value : JsVal)

/-- What the database passes to a callback. -/
inductive Reply where
  | student (st : Option Student)
  | students (l : List Student)
  | added (st : Student)
  | appear (success : Bool)
  | transactions (l : List Booking)
  | transaction (tr : Option Booking)
  /-- The call has no callback. -/
  | done

/-- The component that is named when the call fails. -/
def Query.component : Query → String
  | .student component _ _ => component
  | .students .. => "stdb.getCertainByProperties"
  | .addStudent _ => "stdb.add"
  | .addAppear .. => "stdb.addAppear"
  | .transactions .. => "trdb.getByProperties (2)"
  | .transaction _ => "trdb.getById"
  | _ => ""

/-- The call has a callback, so its failure is answered. -/
def Query.hasCallback : Query → Bool
  | .saveStudent .. => false
  | .removeStudent _ => false
  | .removeTransaction _ => false
  | .setConfig .. => false
  | _ => true

/-! ## Acts -/

inductive Act where
  /-- The function of an action is called. -/
  | invoke (name : String) (payload : JsVal)
  | answer (client : Client) (m : Answer)
  | query (client : Client) (q : Query)
  | getBalance (client : Client) (id : ObjectId)
  /-- `db.transactions.intent`. -/
  | intent (client : Client) (sender : ObjectId) (entry : Draft)
  /-- `transaction_write` of spawned money. -/
  | spawn (client : Client) (entry : Draft)
  | poll (client : Client) (date : ℚ) (qrid : JsVal)

abbrev Code := JS Act Unit

/-- `answer(m)`.  The encryption of `undefined` throws. -/
def answer (client : Client) (m : Answer) : Code := do
  JS.act (.answer client m)
  if m.serializable then pure () else JS.throw .typeError

@[simp] theorem answer_acts (client : Client) (m : Answer) :
    (answer client m).acts = [.answer client m] := by
  rw [answer, JS.act_bind_acts]
  split <;> rfl

theorem answer_result {client : Client} {m : Answer} (h : m.serializable = true) :
    (answer client m).result = .ok () := by
  rw [answer, JS.act_bind_result, if_pos h]
  rfl

def query (client : Client) (q : Query) : Code := JS.act (.query client q)

/-- `info("" + v)`. -/
def info (v : JsVal) : Code := do
  let _ ← JS.str v

def getByQrid (client : Client) (qrid : JsVal) (cb : StudentCb) : Code :=
  query client (.student "stdb.getByQrid" qrid cb)

def getByQridLean (client : Client) (qrid : JsVal) (cb : StudentCb) : Code :=
  query client (.student "stdb.getByQridLean" qrid cb)

def getCertainByQridLean (client : Client) (qrid : JsVal) (cb : StudentCb) : Code :=
  query client (.student "stdb.getCertainByQridLean" qrid cb)

/-! ## common.js -/

/-- `check_password`.  Without a salt, `undefined` is added to the password. -/
def check_password (E : Ext) (st : Student) (pwd : JsVal) : Except Exn Bool := do
  match st.pwdsalt with
  | some pwdsalt => return st.pwdhash = some (E.sha256 ((← pwd.toStr) ++ pwdsalt))
  | none =>
      if pwd.addend.1 then throw .typeError  -- the sum is a number
      return st.pwdhash = some (E.sha256 ((← pwd.toStr) ++ "undefined"))

/-- The check does not throw, and it holds. -/
def passes : Except Exn Bool → Bool
  | .ok b => b
  | .error _ => false

theorem passes_eq_true {r : Except Exn Bool} : passes r = true ↔ r = .ok true := by
  cases r <;> simp [passes]

/-- `student_public_only`, as far as the transaction schema stores it. -/
def student_public_only (st : Student) : Profile where
  reference := none
  special_name := st.special_name
  firstname := st.firstname
  lastname := st.lastname
  country := st.country
  type := st.type
  qrid := st.qrid

/-- The projection on `student_public_fields`, which keeps the `_id` as well. -/
def student_public_fields (st : Student) : Student :=
  { st with appear := [], pwdhash := none, pwdsalt := none }

end SchuleAlsStaat
