import SchuleAlsStaat.Actions.Act

/-!
# Actions on students

`actions/students.js`: registration, changes of profiles and passwords, and
the queries of the clients.
-/

namespace SchuleAlsStaat

open Js (Exn JsVal JS)

/-! ## Queries -/

def students_get (client : Client) (payload : JsVal) : Code := do
  let properties ← JS.lift (payload.prop "query")
  let _ ← JS.lift (payload.prop "fields")
  let limit ← JS.lift (payload.prop "limit")
  if limit.truthy then
    let _ ← JS.lift limit.toNumber
  query client (.students properties [] limit .students_get)

/-- The properties that `student_identify` compares without regard to case, in
the order of the source. -/
def identifyPatterns : List String := ["special_name", "firstname", "lastname", "type"]

/-- The regular expressions that replace the properties of the payload. -/
def quotePatterns (E : Ext) (payload : JsVal) :
    List String → Except Exn (List (String × String))
  | [] => .ok []
  | key :: keys => do
      let v ← payload.prop key
      if v.truthy then return (key, ← E.quote v) :: (← quotePatterns E payload keys)
      else quotePatterns E payload keys

/-- One of the keys is given. -/
def anyGiven (payload : JsVal) : List String → Except Exn Bool
  | [] => .ok false
  | key :: keys => do
      if (← payload.prop key).truthy then return true else anyGiven payload keys

def student_identify (E : Ext) (client : Client) (payload : JsVal) : Code := do
  if !(← JS.lift (anyGiven payload ["firstname", "lastname", "special_name", "qrid", "type"])) then
    answer client (.text "error: underspecification")
  else
    query client (.students payload (← JS.lift (quotePatterns E payload identifyPatterns)) none
      .student_identify)

/-- The callbacks of the searches for students.  The one of `student_identify`
asks for the public fields only. -/
def onStudents (client : Client) : StudentsCb → List Student → Code
  | .students_get, list => answer client (.students list)
  | .student_identify, [] => answer client (.text "error: not found")
  | .student_identify, [st] => answer client (.student (student_public_fields st))
  | .student_identify, _ => answer client (.text "multiple")

def ec_student_get (client : Client) (payload : JsVal) : Code :=
  getCertainByQridLean client payload .ec_student_get

/-- The projection of `ec_student_get`. -/
def ecFields (st : Student) : Student :=
  { st with special_name := none, country := none, pwdhash := none, pwdsalt := none }

/-- The callback of `ec_student_get`. -/
def ec_student_get_cb (client : Client) : Option Student → Code
  | none => answer client (.text "error: not found")
  | some st => answer client (.student (ecFields st))

/-- `ec_checkin` and `ec_checkout`, which differ in the type that is stored. -/
def ec_check (type : String) (env : Env) (client : Client) (payload : JsVal) : Code :=
  query client (.addAppear payload { type := type, time := env.now })

def ec_checkin : Env → Client → JsVal → Code := ec_check "checkin"

def ec_checkout : Env → Client → JsVal → Code := ec_check "checkout"

/-- The callback of `addAppear`. -/
def onAppear (client : Client) (payload : JsVal) (success : Bool) : Code :=
  if success then do
    answer client .ok
    info payload
  else
    answer client (.text "error: invalid qrid")

/-! ## Changes -/

def profile_edit (client : Client) (payload : JsVal) : Code := do
  getByQrid client (← JS.lift (payload.prop "qrid")) (.profile_edit payload)

/-- The key, if it is one of `allow_edit`. -/
def allowEdit : JsVal → Option ProfileKey
  | some (.str key) => ProfileKey.ofString key
  | _ => none

/-- The callback of `profile_edit`. -/
def profile_edit_cb (payload : JsVal) (client : Client) : Option Student → Code
  | none => answer client (.text "error: wrong qrid")
  | some st => do
      let prop ← JS.lift (payload.prop "prop")
      match allowEdit prop with
      | none => answer client (.text ("error: not allowed to edit " ++ (← JS.str prop)))
      | some key => do
          let value ← JS.lift (payload.prop "value")
          info value
          query client (.saveStudent st._id (.profile key value))
          answer client .ok

def student_delete (client : Client) (payload : JsVal) : Code :=
  getByQrid client payload .student_delete

/-- The callback of `student_delete`. -/
def student_delete_cb (client : Client) : Option Student → Code
  | none => answer client (.text "error: invalid qrid")
  | some st => do
      query client (.removeStudent st._id)
      answer client .ok

/-- `generate_pwdhash`: the hash, with the salt of the surroundings. -/
def generate_pwdhash (E : Ext) (env : Env) (pwd : JsVal) : Except Exn String := do
  return E.sha256 ((← pwd.toStr) ++ env.pwdsalt)

def change_password (E : Ext) (env : Env) (client : Client) (st : Student)
    (new_password : JsVal) : Code := do
  let pwdhash ← JS.lift (generate_pwdhash E env new_password)
  query client (.saveStudent st._id (.password pwdhash env.pwdsalt))

def password_change (client : Client) (payload : JsVal) : Code := do
  getByQrid client (← JS.lift (payload.prop "qrid")) (.password_change payload)

/-- The callback of `password_change`. -/
def password_change_cb (E : Ext) (env : Env) (payload : JsVal) (client : Client) :
    Option Student → Code
  | none => answer client (.text "invalid_qrid")
  | some st => do
      if ← JS.lift (check_password E st (← JS.lift (payload.prop "old_password"))) then
        change_password E env client st (← JS.lift (payload.prop "password"))
        answer client .ok
      else
        answer client (.text "invalid_password")

def password_change_master (client : Client) (payload : JsVal) : Code := do
  getByQrid client (← JS.lift (payload.prop "qrid")) (.password_change_master payload)

/-- The callback of `password_change_master`. -/
def password_change_master_cb (E : Ext) (env : Env) (payload : JsVal) (client : Client) :
    Option Student → Code
  | none => answer client (.text "invalid_qrid")
  | some st => do
      change_password E env client st (← JS.lift (payload.prop "password"))
      answer client .ok

/-! ## Registration -/

/-- The birthday as a string. -/
def bdayIso (payload : JsVal) (type : String) : Except Exn String := do
  if type = "teacher" then return "1970-1-1"
  else
    let birthyear ← (← payload.prop "birthyear").toStr
    let birthmonth ← (← payload.prop "birthmonth").toStr
    let birthday ← (← payload.prop "birthday").toStr
    return birthyear ++ "-" ++ birthmonth ++ "-" ++ birthday

/-- `payload.sclass + payload.subclass`. -/
def studentType (payload : JsVal) : Except Exn String := do
  (← payload.prop "sclass").plus (← payload.prop "subclass")

/-- The end of `regStudent`, which adds the record under its QR-ID. -/
def addRegistered (E : Ext) (env : Env) (client : Client) (payload qrid : JsVal) : Code := do
  let pwdhash ← JS.lift (generate_pwdhash E env (← JS.lift (payload.prop "password")))
  let firstname ← JS.lift (payload.prop "firstname")
  let lastname ← JS.lift (payload.prop "lastname")
  let special_name ← JS.lift (payload.prop "special_name")
  let picname ← JS.lift (payload.prop "picname")
  let country ← JS.lift (payload.prop "country")
  let type ← JS.lift (studentType payload)
  let birth ← JS.lift (bdayIso payload type)
  query client (.addStudent
    { qrid := qrid, firstname := firstname, lastname := lastname, special_name := special_name,
      picname := picname, country := country, birth := birth, type := type, pwdhash := pwdhash,
      pwdsalt := env.pwdsalt })

/-- The start of `regStudent`, which chooses a QR-ID. -/
def chooseQrid (E : Ext) (env : Env) (client : Client) (payload : JsVal) : Code := do
  let qrid ← JS.lift (payload.prop "qrid")
  if qrid.truthy then addRegistered E env client payload qrid
  else getByQridLean client (some (.str env.qrid)) (.regStudent payload env.qrid)

/-- `regStudent` as a callback: the QR-ID is taken, or the record is added. -/
def regStudent_cb (E : Ext) (env : Env) (payload : JsVal) (qrid : String) (client : Client) :
    Option Student → Code
  | some _ => chooseQrid E env client payload
  | none => addRegistered E env client payload (some (.str qrid))

def register_student (E : Ext) (env : Env) (client : Client) (payload : JsVal) : Code := do
  let type ← JS.lift (studentType payload)
  let _ ← JS.lift (bdayIso payload type)
  let qrid ← JS.lift (payload.prop "qrid")
  if qrid.truthy then getByQridLean client qrid (.register_student payload)
  else chooseQrid E env client payload

/-- The callback on a preset QR-ID. -/
def register_student_cb (E : Ext) (env : Env) (payload : JsVal) (client : Client) :
    Option Student → Code
  | some _ => do
      let qrid ← JS.lift (payload.prop "qrid")
      answer client (.text ("error: QR ID " ++ (← JS.str qrid) ++ " already exists"))
  | none => chooseQrid E env client payload

/-- The callback of `add`. -/
def onAdded (client : Client) (_ : Student) : Code := answer client .ok

end SchuleAlsStaat
