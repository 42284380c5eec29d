import SchuleAlsStaat.Client.SendQuery
import SchuleAlsStaat.Js.Fixed

/-!
# Payments in the app

The pages `send` and `receive` of the app.  `#confirm` asks the server who the other
side is and opens the confirm window with the answer.  `#confirm_submit` sends the
transaction.  What is sent is kept in the globals `amount`, `comment` and
`current_recipient` or `current_sender`, which `#confirm` overwrites.

Both buttons are bound with `one`, so a click unbinds its handler, and the callback of
the request binds it again.  The windows `#confirm_window`, `#error` and `#success`
cover the whole page, so only what is not covered can be clicked.  Answers arrive, and
inputs change, at any time.

`sends_what_is_shown` says that at most one transaction is on its way, and that every
transaction is the one that the confirm window showed when it was sent.
-/

namespace SchuleAlsStaat.Payment

open Js (Exn Json JsVal Decimal Numeral parseFloat)
open SendQuery (Flag)
open Calls (countP_concat countP_set_add_one countP_pos_of_getElem? forall_mem_concat forall_mem_set
  mem_of_getElem? mem_set_of_ne mem_set_self)
open Runs

/-! ## The page -/

inductive Page where
  | send
  | receive
deriving DecidableEq

/-- What a page reads from the storage of the app when it is loaded. -/
structure Storage where
  qrid : JsVal
  password : JsVal

/-- The values of the inputs.  The page `send` has none for a password. -/
structure Inputs where
  qrid : String
  firstname : String
  lastname : String
  type : String
  amount : String
  comment : String
  password : String

/-- The texts of the confirm window. -/
structure View where
  /-- `#confirm_recipient` or `#confirm_sender`. -/
  other : String
  amount : String
  comment : String

inductive Window where
  | hidden
  | displayed
  /-- The window fades out and still covers the page. -/
  | fading
deriving DecidableEq

/-- A call of `action_app`. -/
structure Request where
  payload : Json
  /-- `none` until one of the callbacks has run, `some none` if it was `cb_error`. -/
  outcome : Option (Option Json) := none

/-- A call of `action_app` for a `student_identify`. -/
structure Identify extends Request where
  /-- Ghost: the inputs when `#confirm` was clicked. -/
  typed : Inputs

/-- A call of `action_app` for a transaction. -/
structure Submission extends Request where
  /-- Ghost: what the confirm window showed. -/
  shown : View

structure State where
  inputs : Inputs
  /-- `current_recipient` or `current_sender`. -/
  current : Json
  /-- `none` for `null` and for `NaN`, which are the same in JSON. -/
  amount : Option Decimal
  comment : Option String
  /-- The handlers that are bound to `#confirm`, `#confirm_submit` and `#confirm_back`. -/
  confirm : ℕ
  confirm_submit : ℕ
  confirm_back : ℕ
  confirm_window : Window
  view : View
  /-- `#success` is displayed. -/
  success : Bool
  /-- The messages of the error dialogs. -/
  errors : List String
  identifies : List Identify
  transactions : List Submission

/-- A page after it was loaded. -/
def initial : State where
  inputs := ⟨"", "", "", "", "", "", ""⟩
  current := .null
  amount := none
  comment := none
  confirm := 1
  confirm_submit := 1
  confirm_back := 0
  confirm_window := .hidden
  view := ⟨"", "", ""⟩
  success := false
  errors := []
  identifies := []
  transactions := []

/-! ## Functions of the app -/

/-- `typeof v == "object"`. -/
def isObject : Json → Bool
  | .null | .arr _ | .obj _ => true
  | _ => false

/-- An object.  `JSON.stringify` leaves undefined properties out. -/
def object (fields : List (String × JsVal)) : Json :=
  .obj (fields.filterMap fun f => f.2.map fun v => (f.1, v))

def student2readable (toUpperCase : String → String) (st : Json) : Except Exn String := do
  let type ← st.prop "type"
  let qrid := do return ← (← st.prop "qrid").toStr
  let name := do
    return (← (← st.prop "firstname").toStr) ++ " " ++ (← (← st.prop "lastname").toStr)
  if !type.truthy then return "Kontonummer '" ++ (← qrid) ++ "'"
  else if !(← type.looseEq "visitor") && !(← type.looseEq "teacher") &&
      !(← type.looseEq "legalentity") && !(← type.looseEq "other") then
    -- only a string has the method `toUpperCase`
    match type with
    | some (.str s) => return (← name) ++ ", Klasse " ++ toUpperCase s
    | _ => throw .typeError
  else if ← type.looseEq "visitor" then return "Besucher mit Kontonummer " ++ (← qrid)
  else if ← type.looseEq "teacher" then return (← name) ++ " (Lehrer/Lehrerin)"
  else if ← type.looseEq "legalentity" then
    return (← (← st.prop "special_name").toStr) ++ " (juristische Person)"
  else return ← name

/-- The message of `action_app` for a request that failed. -/
def connectionError : Flag → Option String
  | .ERROR => some "Verbindung zum Zentralbank-Server konnte nicht aufgebaut werden (3)"
  | .ERROR_UNKNOWN =>
      some "Der Zentralbank-Server antwortet nicht auf die Anfrage der App (4)"
  | .ERROR_SPOOF => some ("Konnte nicht mit dem echten Zentralbank-Server" ++
      " kommunizieren. Bitte melde diesen Fehler! (5)")
  | .ERROR_ENCRYPTION => some ("Kommunikation mit Zentralbank-Server fehlgeschlagen: " ++
      "Verschlüsselung nicht akzeptiert. Bitte schaue nach Updates " ++
      "für die App und lösche deinen Browsercache. " ++
      "Besteht das Problem weiterhin, bitte melde es bei der Zentralbank.")
  | .SUCCESS_INTRANET | .SUCCESS_INTERNET => none

namespace State

def errorMessage (s : State) (message : String) : State :=
  { s with errors := s.errors ++ [message] }

/-- The handlers of a click run one after the other.  One that throws ends it. -/
def dispatch (handler : State → Except State State) : ℕ → State → State
  | 0, s => s
  | n + 1, s => match handler s with
    | .error s => s
    | .ok s => dispatch handler n s

/-! ## Handlers -/

/-- The criteria that are not empty. -/
def criteria (i : Inputs) : Json :=
  .obj ([("firstname", i.firstname), ("lastname", i.lastname), ("type", i.type),
    ("qrid", i.qrid)].filterMap fun f => if f.2 ≠ "" then some (f.1, .str f.2) else none)

/-- `s.replace(",", ".")`, which replaces the first comma. -/
def replaceComma (s : String) : String :=
  String.ofList (match s.toList.span (· ≠ ',') with
    | (cs, ',' :: ds) => cs ++ '.' :: ds
    | (cs, ds) => cs ++ ds)

/-- `one` unbinds a handler before it runs. -/
def onConfirmClick (s : State) : State :=
  { s with
    confirm := s.confirm - 1
    comment := some s.inputs.comment
    amount := parseFloat (replaceComma s.inputs.amount)
    identifies := s.identifies ++ [{ payload := criteria s.inputs, typed := s.inputs }] }

/-- The callback of `student_identify`. -/
def onIdentified (toUpperCase : String → String) (s : State) (res : Json) : State :=
  let s := { s with confirm := s.confirm + 1 }
  match JsVal.looseEq (some res) "multiple" with
  | .error _ => s
  | .ok true => s.errorMessage ("Die Eingabe ist nicht eindeutig: " ++
      "Es gibt mehrere Personen, die auf die Kriterien passen.")
  | .ok false =>
      if !isObject res then s.errorMessage ("Konnte Person nicht finden: " ++
        "Die angegebenen Kriterien passen auf keine Person.")
      else match s.amount.filter fun a => 0 < a.value with
        | none => s.errorMessage
            "Der angegebene Betrag ist ungültig (Punkt statt Komma verwenden!)"
        | some a =>
            let s := { s with current := res }
            match student2readable toUpperCase s.current with
            | .error _ => s
            | .ok readable => { s with
                view := ⟨readable, a.toFixed 2 ++ " HGC", s.comment.getD ""⟩
                confirm_back := s.confirm_back + 1
                confirm_window := .displayed }

def onIdentifyError (s : State) : State := { s with confirm := s.confirm + 1 }

/-- The payload of a transaction with the account `qrid` of the other side. -/
def transactionData (page : Page) (store : Storage) (qrid : JsVal) (amount : Option Decimal)
    (comment : Option String) (password : String) : Json :=
  let amount_sent := match amount with
    | none => .null
    | some a => .num a
  let comment := match comment with
    | none => .null
    | some c => .str c
  match page with
  | .send => object [("amount_sent", some amount_sent), ("sender", store.qrid),
      ("recipient", qrid), ("comment", some comment), ("sender_password", store.password)]
  | .receive => object [("amount_sent", some amount_sent), ("sender", qrid),
      ("recipient", store.qrid), ("comment", some comment),
      ("sender_password", some (.str password))]

def onSubmitClick (page : Page) (store : Storage) (s : State) : Except State State :=
  let s := { s with confirm_submit := s.confirm_submit - 1 }
  match s.current.prop "qrid" with
  | .error _ => .error s
  | .ok qrid => .ok { s with
      transactions := s.transactions ++ [{
        payload := transactionData page store qrid s.amount s.comment s.inputs.password
        shown := s.view }] }

/-- The callback of `transaction`. -/
def onTransaction (s : State) (res : Json) : State :=
  let s := { s with confirm_submit := s.confirm_submit + 1 }
  match JsVal.looseEq (some res) "nomoney", JsVal.looseEq (some res) "invalid_password",
    JsVal.looseEq (some res) "ok", JsVal.toStr (some res) with
  | .ok true, _, _, _ => s.errorMessage "Nicht genug Geld auf dem Senderkonto!"
  | .ok false, .ok true, _, _ => s.errorMessage "Das Sender-Passwort ist falsch!"
  | .ok false, .ok false, .ok true, _ => { s with confirm_window := .hidden, success := true }
  | .ok false, .ok false, .ok false, .ok text => s.errorMessage ("Unbekannter Fehler: " ++ text)
  | _, _, _, _ => s

def onTransactionError (s : State) : State := { s with confirm_submit := s.confirm_submit + 1 }

end State

/-! ## Steps -/

inductive Event where
  /-- Inputs are filled, by hand, by a scan or by a click on a subsection. -/
  | fill (inputs : Inputs)
  /-- Clicks on `#confirm`, `#confirm_submit`, `#confirm_back` and on the button of an error. -/
  | confirm
  | submit
  | back
  | ok
  /-- The confirm window has faded out. -/
  | faded
  /-- `action_app` gets the answer to the `n`-th request. -/
  | identified (n : ℕ) (res : Json) (status : Flag)
  | transaction (n : ℕ) (res : Json) (status : Flag)

/-- Neither an error nor the success covers the page. -/
def uncovered (s : State) : Bool := s.errors.isEmpty && !s.success

section Steps

variable (toUpperCase : String → String) (page : Page) (store : Storage)

def step (s : State) : Event → Option State
  | .fill inputs => some { s with inputs := inputs }
  | .confirm =>
      if uncovered s ∧ s.confirm_window = .hidden then
        some (State.dispatch (fun s => .ok s.onConfirmClick) s.confirm s)
      else none
  | .submit =>
      if uncovered s ∧ s.confirm_window ≠ .hidden then
        some (State.dispatch (·.onSubmitClick page store) s.confirm_submit s)
      else none
  | .back =>
      if uncovered s ∧ s.confirm_window ≠ .hidden then
        some (if s.confirm_back = 0 then s else { s with confirm_window := .fading })
      else none
  | .ok => if s.success then none else some { s with errors := s.errors.dropLast }
  | .faded => if s.confirm_window = .fading then some { s with confirm_window := .hidden } else none
  | .identified n res status =>
      match s.identifies[n]? with
      | some ⟨⟨payload, none⟩, typed⟩ =>
          let answer outcome :=
            { s with identifies := s.identifies.set n ⟨⟨payload, some outcome⟩, typed⟩ }
          some (match connectionError status with
            | none => (answer (some res)).onIdentified toUpperCase res
            | some message => ((answer none).errorMessage message).onIdentifyError)
      | _ => none
  | .transaction n res status =>
      match s.transactions[n]? with
      | some ⟨⟨payload, none⟩, shown⟩ =>
          let answer outcome :=
            { s with transactions := s.transactions.set n ⟨⟨payload, some outcome⟩, shown⟩ }
          some (match connectionError status with
            | none => (answer (some res)).onTransaction res
            | some message => ((answer none).errorMessage message).onTransactionError)
      | _ => none

/-! ## What the confirm window shows -/

/-- The request `q` found the account `other`, and `v` shows this account with the amount `a` and
the comment that were typed when `q` was made. -/
structure Shows (asked : List Identify) (q : Identify) (other : Json) (a : Decimal) (v : View) :
    Prop where
  mem : q ∈ asked
  payload : q.payload = State.criteria q.typed
  found : q.outcome = some (some other)
  typed : parseFloat (State.replaceComma q.typed.amount) = some a
  pos : 0 < a.value
  other : student2readable toUpperCase other = .ok v.other
  amount : v.amount = a.toFixed 2 ++ " HGC"
  comment : v.comment = q.typed.comment

/-- The transaction `r` pays the amount to or from the account that the window showed. -/
def SentAsShown (asked : List Identify) (r : Submission) : Prop :=
  ∃ q other a qrid password, Shows toUpperCase asked q other a r.shown ∧
    other.prop "qrid" = .ok qrid ∧
    r.payload = State.transactionData page store qrid (some a) (some q.typed.comment) password

/-- The invariant.  Each button has its handler or one request on its way.  A request that is on
its way was made with the present amount and comment, and a confirm window shows them. -/
structure Careful (s : State) : Prop where
  confirm : s.confirm + s.identifies.countP (·.outcome.isNone) = 1
  submit : s.confirm_submit + s.transactions.countP (·.outcome.isNone) = 1
  criteria : ∀ q ∈ s.identifies, q.payload = State.criteria q.typed
  asking : ∀ q ∈ s.identifies, q.outcome = none →
    s.amount = parseFloat (State.replaceComma q.typed.amount) ∧ s.comment = some q.typed.comment
  window : s.confirm_window ≠ .hidden → s.confirm = 1 ∧ ∃ q a,
    Shows toUpperCase s.identifies q s.current a s.view ∧ s.amount = some a ∧
    s.comment = some q.typed.comment
  sent : ∀ r ∈ s.transactions, SentAsShown toUpperCase page store s.identifies r

section Careful

variable {toUpperCase page store} {s t : State} {asked asked' : List Identify}

theorem Shows.mono {q : Identify} {other : Json} {a : Decimal} {v : View}
    (h : Shows toUpperCase asked q other a v)
    (kept : ∀ q ∈ asked, q.outcome ≠ none → q ∈ asked') :
    Shows toUpperCase asked' q other a v :=
  { h with mem := kept q h.mem (by rw [h.found]; exact nofun) }

theorem SentAsShown.mono {r : Submission} (h : SentAsShown toUpperCase page store asked r)
    (kept : ∀ q ∈ asked, q.outcome ≠ none → q ∈ asked') :
    SentAsShown toUpperCase page store asked' r := by
  obtain ⟨q, other, a, qrid, password, shows, hq, hp⟩ := h
  exact ⟨q, other, a, qrid, password, shows.mono kept, hq, hp⟩

/-- Only an object can be shown. -/
theorem prop_of_readable {st : Json} {text : String}
    (h : student2readable toUpperCase st = .ok text) (key : String) : ∃ v, st.prop key = .ok v := by
  cases st with
  | null => cases h
  | bool | num | str | arr | obj => exact ⟨_, rfl⟩

theorem Careful.initial : Careful toUpperCase page store initial where
  confirm := rfl
  submit := rfl
  criteria := nofun
  asking := nofun
  window h := absurd rfl h
  sent := nofun

/-! ### Clicks -/

theorem State.dispatch_cases {handler : State → Except State State} {n : ℕ} (hn : n ≤ 1)
    (h : State.dispatch handler n s = t) :
    t = s ∨ n = 1 ∧ (handler s = .error t ∨ handler s = .ok t) := by
  match n, hn with
  | 0, _ => exact .inl h.symm
  | 1, _ =>
      rw [State.dispatch] at h
      cases hs : handler s with
      | error u =>
          rw [hs] at h
          exact .inr ⟨rfl, .inl (by rw [← h])⟩
      | ok u =>
          rw [hs] at h
          exact .inr ⟨rfl, .inr (congrArg Except.ok h)⟩

theorem Careful.onConfirmClick (h : Careful toUpperCase page store s) (hc : s.confirm = 1)
    (hw : s.confirm_window = .hidden) : Careful toUpperCase page store s.onConfirmClick := by
  have hconfirm := h.confirm
  -- the handler was bound, so no other request is on its way
  have none : s.identifies.countP (·.outcome.isNone) = 0 := by omega
  rw [State.onConfirmClick]
  exact {
    confirm := by
      rw [countP_concat _ (by rfl), none, hc]
    submit := h.submit
    criteria := by
      intro q hq
      rcases List.mem_append.mp hq with hq | hq
      · exact h.criteria q hq
      · rw [List.mem_singleton.mp hq]
    asking := by
      intro q hq ho
      rcases List.mem_append.mp hq with hq | hq
      · exact absurd (by rw [ho]; rfl) (List.countP_eq_zero.mp none q hq)
      · rw [List.mem_singleton.mp hq]
        constructor <;> dsimp only
    window := fun hw' => absurd hw hw'
    sent := fun r hr => (h.sent r hr).mono fun q hq _ => List.mem_append_left _ hq }

theorem Careful.onSubmitClick (h : Careful toUpperCase page store s) (hs : s.confirm_submit = 1)
    (hw : s.confirm_window ≠ .hidden) :
    ∃ t, s.onSubmitClick page store = .ok t ∧ Careful toUpperCase page store t := by
  obtain ⟨hc, q, a, shows, ha, hcomment⟩ := h.window hw
  obtain ⟨qrid, hqrid⟩ := prop_of_readable shows.other "qrid"
  have hprop : ({ s with confirm_submit := s.confirm_submit - 1 } : State).current.prop "qrid" =
      .ok qrid := hqrid
  refine ⟨_, by rw [State.onSubmitClick, hprop], ?_⟩
  exact {
    confirm := h.confirm
    submit := by
      have := h.submit
      show s.confirm_submit - 1 + (s.transactions ++ [_]).countP _ = 1
      rw [countP_concat _ (by rfl)]
      omega
    criteria := h.criteria
    asking := h.asking
    window := fun _ => ⟨hc, q, a, shows, ha, hcomment⟩
    sent := forall_mem_concat h.sent
      ⟨q, s.current, a, qrid, s.inputs.password, shows, hqrid, by rw [ha, hcomment]⟩ }

/-! ### Answers -/

section Identified

variable {n : ℕ} {payload : Json} {typed : Inputs}

/-- Both callbacks of `student_identify` bind `#confirm` again. -/
theorem Careful.answered (h : Careful toUpperCase page store s)
    (hn : s.identifies[n]? = some ⟨⟨payload, none⟩, typed⟩) (outcome : Option Json) :
    s.confirm = 0 ∧ s.confirm_window = .hidden ∧
      Careful toUpperCase page store { s with
        identifies := s.identifies.set n ⟨⟨payload, some outcome⟩, typed⟩
        confirm := s.confirm + 1 } := by
  have hpos : 0 < s.identifies.countP (·.outcome.isNone) := countP_pos_of_getElem? hn rfl
  have hconfirm := h.confirm
  have hw : s.confirm_window = .hidden := by
    by_contra hw
    have := (h.window hw).1
    omega
  have kept : ∀ q ∈ s.identifies, q.outcome ≠ none →
      q ∈ s.identifies.set n ⟨⟨payload, some outcome⟩, typed⟩ := fun q hq ho =>
    mem_set_of_ne _ hn hq (by rintro rfl; exact ho rfl)
  refine ⟨by omega, hw, ?_⟩
  exact {
    confirm := by
      have := countP_set_add_one (p := (·.outcome.isNone))
        (b := ⟨⟨payload, some outcome⟩, typed⟩) hn rfl rfl
      show s.confirm + 1 + (s.identifies.set n _).countP _ = 1
      omega
    submit := h.submit
    criteria := forall_mem_set n h.criteria
      (h.criteria ⟨⟨payload, none⟩, typed⟩ (mem_of_getElem? hn))
    asking := forall_mem_set n h.asking nofun
    window := fun hw' => absurd hw hw'
    sent := fun r hr => (h.sent r hr).mono kept }

/-- A found account and a valid amount open the confirm window. -/
theorem Careful.onIdentified (h : Careful toUpperCase page store s)
    (hn : s.identifies[n]? = some ⟨⟨payload, none⟩, typed⟩) (res : Json) :
    Careful toUpperCase page store (State.onIdentified toUpperCase
      { s with identifies := s.identifies.set n ⟨⟨payload, some (some res)⟩, typed⟩ } res) := by
  obtain ⟨hc, hw, ht⟩ := h.answered hn (some res)
  obtain ⟨hamount, hcomment⟩ := h.asking _ (mem_of_getElem? hn) rfl
  have hpayload := h.criteria _ (mem_of_getElem? hn)
  rw [State.onIdentified]
  split
  · exact ht
  · exact { ht with }
  · split
    · exact { ht with }
    · split
      · exact { ht with }
      · rename_i a ha
        obtain ⟨hsome, hpos⟩ := Option.filter_eq_some_iff.mp ha
        simp only
        split
        · exact { ht with window := fun hw' => absurd hw hw' }
        · rename_i readable hr
          refine { ht with window := fun _ => ⟨by rw [hc], ?_⟩ }
          refine ⟨⟨⟨payload, some (some res)⟩, typed⟩, a, ?_, hsome, hcomment⟩
          exact {
            mem := mem_set_self _ hn
            payload := hpayload
            found := rfl
            typed := hamount.symm.trans hsome
            pos := of_decide_eq_true hpos
            other := hr
            amount := rfl
            comment := by
              show s.comment.getD "" = typed.comment
              rw [hcomment, Option.getD_some] }

end Identified

/-- Both callbacks of `transaction` bind `#confirm_submit` again. -/
theorem Careful.transacted (h : Careful toUpperCase page store s) {n : ℕ} {payload : Json}
    {shown : View} (hn : s.transactions[n]? = some ⟨⟨payload, none⟩, shown⟩)
    (outcome : Option Json) :
    Careful toUpperCase page store { s with
      transactions := s.transactions.set n ⟨⟨payload, some outcome⟩, shown⟩
      confirm_submit := s.confirm_submit + 1 } :=
  { h with
    submit := by
      have := countP_set_add_one (p := (·.outcome.isNone))
        (b := ⟨⟨payload, some outcome⟩, shown⟩) hn rfl rfl
      have hsubmit := h.submit
      show s.confirm_submit + 1 + (s.transactions.set n _).countP _ = 1
      omega
    sent := forall_mem_set n h.sent (h.sent ⟨⟨payload, none⟩, shown⟩ (mem_of_getElem? hn)) }

theorem Careful.onTransaction (h : Careful toUpperCase page store s) {n : ℕ} {payload : Json}
    {shown : View} (hn : s.transactions[n]? = some ⟨⟨payload, none⟩, shown⟩) (res : Json) :
    Careful toUpperCase page store (State.onTransaction
      { s with transactions := s.transactions.set n ⟨⟨payload, some (some res)⟩, shown⟩ } res) := by
  have ht := h.transacted hn (some res)
  rw [State.onTransaction]
  split
  · exact { ht with }
  · exact { ht with }
  · exact { ht with window := fun hw => absurd rfl hw }
  · exact { ht with }
  · exact ht

/-! ### Steps -/

theorem Careful.step (h : Careful toUpperCase page store s) {e : Event}
    (hs : step toUpperCase page store s e = some t) : Careful toUpperCase page store t := by
  cases e with
  | fill inputs =>
      cases hs
      exact { h with }
  | confirm =>
      obtain ⟨⟨-, hw⟩, ht⟩ := Option.ite_none_right_eq_some.mp hs
      have hle : s.confirm ≤ 1 := by
        have := h.confirm
        omega
      obtain rfl | ⟨hc, he | ho⟩ := State.dispatch_cases hle (Option.some.inj ht)
      · exact h
      · cases he
      · cases ho
        exact h.onConfirmClick hc hw
  | submit =>
      obtain ⟨⟨-, hw⟩, ht⟩ := Option.ite_none_right_eq_some.mp hs
      have hle : s.confirm_submit ≤ 1 := by
        have := h.submit
        omega
      obtain rfl | ⟨hc, ho⟩ := State.dispatch_cases hle (Option.some.inj ht)
      · exact h
      · obtain ⟨u, hu, careful⟩ := h.onSubmitClick hc hw
        obtain he | ho := ho
        · rw [hu] at he
          cases he
        · rw [hu] at ho
          cases ho
          exact careful
  | back =>
      obtain ⟨⟨-, hw⟩, ht⟩ := Option.ite_none_right_eq_some.mp hs
      cases ht
      split
      · exact h
      · exact { h with window := fun _ => h.window hw }
  | ok =>
      obtain ⟨-, ht⟩ := Option.ite_none_left_eq_some.mp hs
      cases ht
      exact { h with }
  | faded =>
      obtain ⟨-, ht⟩ := Option.ite_none_right_eq_some.mp hs
      cases ht
      exact { h with window := fun hw => absurd rfl hw }
  | identified n res status =>
      rw [Payment.step] at hs
      split at hs
      · rename_i payload typed hn
        cases hs
        split
        · exact h.onIdentified hn res
        · exact { (h.answered hn none).2.2 with }
      · cases hs
  | transaction n res status =>
      rw [Payment.step] at hs
      split at hs
      · rename_i payload shown hn
        cases hs
        split
        · exact h.onTransaction hn res
        · exact { h.transacted hn none with }
      · cases hs

theorem Careful.run (h : AnyRun (Payment.step toUpperCase page store) Payment.initial s) :
    Careful toUpperCase page store s :=
  h.invariant Careful.initial fun _ _ _ careful _ hs => careful.step hs

/-- At most one transaction is on its way.  Every transaction has the amount and the comment
that were typed with the request for the other side, and goes to or from the account that this
request found.  The confirm window showed all of it when the transaction was sent, the amount
rounded to two decimals. -/
theorem sends_what_is_shown (h : AnyRun (Payment.step toUpperCase page store) Payment.initial s) :
    s.transactions.countP (·.outcome.isNone) ≤ 1 ∧
    ∀ r ∈ s.transactions, ∃ q other a qrid password,
      Shows toUpperCase s.identifies q other a r.shown ∧ other.prop "qrid" = .ok qrid ∧
      r.payload = State.transactionData page store qrid (some a) (some q.typed.comment) password ∧
      (a.value < 10 ^ 21 → ∃ n : Numeral, r.shown.amount = String.ofList n.render ++ " HGC" ∧
        |n.value - a.value| ≤ 1 / 200) := by
  have careful := Careful.run h
  refine ⟨by have := careful.submit; omega, fun r hr => ?_⟩
  obtain ⟨q, other, a, qrid, password, shows, hq, hp⟩ := careful.sent r hr
  refine ⟨q, other, a, qrid, password, shows, hq, hp, fun hlt => ⟨a.fixed 2, ?_, ?_⟩⟩
  · rw [shows.amount, Decimal.toFixed, abs_of_pos shows.pos, if_neg (not_le.mpr hlt)]
  · calc |(a.fixed 2).value - a.value| ≤ 1 / 2 * 10 ^ (-((2 : ℕ) : ℤ)) :=
          Js.abs_value_fixed_sub_le shows.pos.le
      _ = 1 / 200 := by norm_num

/-- The amount is typed anew while the server looks for the other side, `#confirm_submit` is
clicked twice, and the transaction is sent again when the first answer was `"nomoney"`. -/
theorem sends_what_is_shown_again : ∃ s : State,
    (s.transactions.countP (·.outcome.isNone) ≤ 1 ∧
      ∀ r ∈ s.transactions, ∃ q other a qrid password,
        Shows String.toUpper s.identifies q other a r.shown ∧ other.prop "qrid" = .ok qrid ∧
        r.payload = State.transactionData .send ⟨some (.str "a"), some (.str "pw")⟩ qrid (some a)
          (some q.typed.comment) password ∧
        (a.value < 10 ^ 21 → ∃ n : Numeral, r.shown.amount = String.ofList n.render ++ " HGC" ∧
          |n.value - a.value| ≤ 1 / 200)) ∧
    s.transactions.map (fun r => (r.shown.other, r.shown.amount)) =
      [("Ada Lovelace, Klasse 9A", "12.50 HGC"), ("Ada Lovelace, Klasse 9A", "12.50 HGC")] := by
  have hexec : (exec
      (Payment.step String.toUpper .send ⟨some (.str "a"), some (.str "pw")⟩) (fun _ _ => True)
      Payment.initial
      [.fill ⟨"b", "", "", "", "12,5", "cake", ""⟩, .confirm,
        .fill ⟨"b", "", "", "", "7", "cake", ""⟩,
        .identified 0 (.obj [("qrid", .str "b"), ("firstname", .str "Ada"),
          ("lastname", .str "Lovelace"), ("type", .str "9a")]) .SUCCESS_INTRANET,
        .submit, .submit, .transaction 0 (.str "nomoney") .SUCCESS_INTERNET, .ok, .submit]).map
      (fun s => s.transactions.map fun r => (r.shown.other, r.shown.amount)) =
      some [("Ada Lovelace, Klasse 9A", "12.50 HGC"), ("Ada Lovelace, Klasse 9A", "12.50 HGC")] := by
    decide +kernel
  obtain ⟨s, r, hs⟩ := exists_run_of_exec _ hexec
  exact ⟨s, sends_what_is_shown r, hs⟩

end Careful

end Steps

end SchuleAlsStaat.Payment
