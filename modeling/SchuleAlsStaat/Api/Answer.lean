import SchuleAlsStaat.Db.Students

/-!
# Requests and answers

An action gets the payload of its request and the callbacks `answer` and
`info`.  A `Client` stands for these callbacks: it names the request, and as a
ghost it names the student record whose password the code checked before it
went on with them.
-/

namespace SchuleAlsStaat

open Js (Exn Json JsVal)

abbrev WorkerId := ℕ

/-- The position of a request in the order of arrival. -/
abbrev ReqId := ℕ

/-- The callbacks of a request. -/
structure Client where
  req : ReqId
  /-- Ghost: the record that `check_password` accepted. -/
  auth : Option ObjectId
deriving DecidableEq, Repr

/-- A transaction in an answer.  `transformed_taxinc` marks the ones that
`get_last_transactions` makes from tax income. -/
structure TransactionView where
  sender : Profile
  recipient : Profile
  time : Time
  amount_sent : ℚ
  amount_received : ℚ
  amount_tax : ℚ
  percent_tax : ℚ
  comment : Option String
  transformed_taxinc : Bool
deriving DecidableEq, Repr

/-- What is passed to `API_answer` or, without encryption, to `res.end`. -/
inductive Answer where
  | text (s : String)
  /-- `"error: " + e` for a caught exception. -/
  | error (e : Exn)
  /-- What `DB_error` answers for a component. -/
  | dbError (component : String)
  /-- The text of the action `test`. -/
  | echo (payload : JsVal)
  | value (v : JsVal)
  | options (fields : List (String × Json))
  | balance (b : ℚ)
  | student (st : Student)
  | students (l : List Student)
  | transactions (l : List TransactionView)
  | timeout

/-- `JSON.stringify` gives a string.  On `undefined` it gives none, and the
encryption of the answer then throws. -/
def Answer.serializable : Answer → Bool
  | .value none => false
  | _ => true

/-- The answer reports an error. -/
def Answer.isError : Answer → Bool
  | .text s => "error: ".toList.isPrefixOf s.toList
  | .error _ => true
  | .dbError _ => true
  | _ => false

/-- The answer is a message, in contrast to a value. -/
def Answer.isMessage : Answer → Bool
  | .text _ => true
  | .error _ => true
  | .dbError _ => true
  | _ => false

theorem Answer.isMessage_of_isError {m : Answer} (h : m.isError = true) : m.isMessage = true := by
  cases m <;> first | rfl | cases h

/-- The answer is a list of transactions. -/
def Answer.isList : Answer → Bool
  | .transactions _ => true
  | _ => false

/-- The answer is the given text. -/
def Answer.isText (m : Answer) (s : String) : Bool :=
  match m with
  | .text s' => s' = s
  | _ => false

def Answer.ok : Answer := .text "ok"

/-- An error is not "ok". -/
theorem Answer.isText_ok_of_isError {m : Answer} (h : m.isError = true) : m.isText "ok" = false := by
  cases m with
  | text s =>
      rw [Answer.isText, decide_eq_false_iff_not]
      rintro rfl
      exact absurd h (by decide)
  | _ => rfl

end SchuleAlsStaat
