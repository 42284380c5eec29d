import SchuleAlsStaat.Actions.Act

/-!
# Actions on transactions

`actions/transactions.js`.  The actions that move money gather the arguments
of `transaction`, which looks up the tax account, the sender and the recipient
one after the other, builds the entry and hands it to the queue of pending
transactions, or writes it at once when the money is spawned.
-/

namespace SchuleAlsStaat

open Js (Exn Number JsVal JS)

/-- A constant of the source. -/
def jsFalse : JsVal := some (.bool false)
def jsZero : JsVal := some (.num ⟨0, 0⟩)

/-- `key in payload ? payload[key] : false`. -/
def propOrFalse (payload : JsVal) (key : String) : Except Exn JsVal := do
  if ← payload.hasProp key then payload.prop key else return jsFalse

/-! ## Balances and lists -/

/-- The callback of `get_balance`. -/
def get_balance_cb (E : Ext) (payload : JsVal) (client : Client) : Option Student → Code
  | none => answer client (.text "invalid_qrid")
  | some st => do
      if !(← JS.lift (check_password E st (← JS.lift (payload.prop "password")))) then
        answer client (.text "invalid_password")
      else
        JS.act (.getBalance client st._id)

def get_balance (client : Client) (payload : JsVal) : Code := do
  getByQridLean client (← JS.lift (payload.prop "qrid")) (.get_balance payload)

/-- The callback of `get_balance_master`. -/
def get_balance_master_cb (client : Client) : Option Student → Code
  | none => answer client (.text "invalid_qrid")
  | some st => JS.act (.getBalance client st._id)

def get_balance_master (client : Client) (payload : JsVal) : Code :=
  getByQridLean client payload .get_balance_master

/-- `getByProperties`, which compares the limit with `0`. -/
def getTransactions (client : Client) (filter : Filter) (limit : JsVal) (cb : TransactionsCb) :
    Code := do
  if limit.truthy then
    let _ ← JS.lift limit.toNumber
  query client (.transactions filter limit cb)

/-- The callback of `get_last_transactions`. -/
def get_last_transactions_cb (E : Ext) (payload : JsVal) (client : Client) :
    Option Student → Code
  | none => answer client (.text "invalid_qrid")
  | some st => do
      if !(← JS.lift (check_password E st (← JS.lift (payload.prop "password")))) then
        answer client (.text "invalid_password")
      else
        let amount ← JS.lift (payload.prop "amount")
        getTransactions client (.account st._id) amount (.get_last_transactions st amount)

def get_last_transactions (client : Client) (payload : JsVal) : Code := do
  getByQridLean client (← JS.lift (payload.prop "qrid")) (.get_last_transactions payload)

def TransactionView.ofBooking (b : Booking) : TransactionView where
  sender := b.sender
  recipient := b.recipient
  time := b.time
  amount_sent := b.amount_sent
  amount_received := b.amount_received
  amount_tax := b.amount_tax
  percent_tax := b.percent_tax
  comment := b.comment
  transformed_taxinc := false

/-- A transaction that brought tax income, as a normal one. -/
def TransactionView.ofTax (st : Student) (b : Booking) : TransactionView where
  sender := b.sender
  recipient := student_public_only st
  time := b.time
  amount_sent := b.amount_tax
  amount_received := b.amount_tax
  amount_tax := 0
  percent_tax := 0
  comment := some "!!! Transformed tax income transaction !!!"
  transformed_taxinc := true

/-- The callbacks of the searches for transactions. -/
def onTransactions (client : Client) : TransactionsCb → List Booking → Code
  | .get_last_transactions st amount, tr =>
      getTransactions client (.tax_recipient st._id) amount
        (.taxes st (tr.map TransactionView.ofBooking))
  | .taxes st tr, tr_tax =>
      answer client (.transactions
        (tr ++ (tr_tax.filter fun b => 0 < b.amount_tax).map (TransactionView.ofTax st)))
  | .find_transactions payload, tr => do
      let amount ← JS.lift (payload.prop "amount")
      match ← JS.lift amount.toNumber with
      | .fin q =>
          let min := if 0 < q then max 0 ((tr.length : ℚ) - q) else 0
          answer client (.transactions ((tr.drop ⌊min⌋.toNat).map TransactionView.ofBooking))
      | .nan => answer client (.transactions (tr.map TransactionView.ofBooking))

def find_transactions (client : Client) (payload : JsVal) : Code := do
  let properties ← JS.lift (payload.prop "query")
  let amount ← JS.lift (payload.prop "amount")
  getTransactions client (.properties properties) amount (.find_transactions payload)

/-! ## transaction -/

/-- A copy of the profile, with a reference to the account if there is one. -/
def Party.profile (magic_account : String) : Party → Profile
  | .magic_account => ⟨none, none, none, none, none, none, .str magic_account⟩
  | .account st => { student_public_only st with reference := some st._id }

/-- The entry that is written. -/
def Transfer.entry (t : Transfer) (E : Ext) (taxinc : Student) (sender recipient : Party)
    (percent : Number) (a : Amounts) (now : Time) : Draft where
  sender := sender.profile t.magic_account
  recipient := recipient.profile t.magic_account
  tax_recipient := taxinc._id
  time := now / 1000 * 1000  -- `Date()` has no milliseconds
  amount_sent := a.amount_sent
  amount_received := a.amount_received
  amount_tax := a.amount_tax
  percent_tax := percent
  comment := (E.castString t.comment).map Text.toOption

/-- The last function of `flow.exec`, once the recipient is known. -/
def onRecipient (E : Ext) (env : Env) (client : Client) (t : Transfer) (taxinc : Student)
    (sender recipient : Party) : Code := do
  let percent ← JS.lift t.tax.toNumber
  let entry := t.entry E taxinc sender recipient percent (t.given.amounts env.cfg percent) env.now
  match sender with
  | .magic_account => JS.act (.spawn client entry)
  | .account st => JS.act (.intent client st._id entry)

/-- The third function of `flow.exec`, once the sender is known. -/
def onSender (E : Ext) (env : Env) (client : Client) (t : Transfer) (taxinc : Student)
    (sender : Party) : Code :=
  if t.destroy_money then onRecipient E env client t taxinc sender .magic_account
  else getByQridLean client t.recipient_qrid (.transaction_recipient t taxinc sender)

/-- The callbacks of the lookups of `transaction`. -/
def transaction_recipient_cb (E : Ext) (env : Env) (client : Client) (t : Transfer)
    (taxinc : Student) (sender : Party) : Option Student → Code
  | none => answer client (.text "invalid_recipient")
  | some st => onRecipient E env client t taxinc sender (.account st)

def transaction_sender_cb (E : Ext) (env : Env) (client : Client) (t : Transfer)
    (taxinc : Student) : Option Student → Code
  | none => answer client (.text "invalid_sender")
  | some st => onSender E env client t taxinc (.account st)

def transaction_taxinc_cb (E : Ext) (env : Env) (client : Client) (t : Transfer) : Option Student → Code
  | none => answer client (.text "error: no tax income account")
  | some taxinc =>
      if t.spawn_money then onSender E env client t taxinc .magic_account
      else getByQridLean client t.sender_qrid (.transaction_sender t taxinc)

def transaction (env : Env) (client : Client) (sender_qrid recipient_qrid amount_sent
    amount_received tax comment : JsVal) : Code := do
  let magic_account := env.cfg.magic_account
  let spawn_money ← JS.lift (sender_qrid.looseEq magic_account)
  let destroy_money ← JS.lift (recipient_qrid.looseEq magic_account)
  match checkAmounts amount_sent amount_received with
  | .error e => answer client (.text e)
  | .ok given =>
      getByQridLean client (some (.str env.cfg.taxinc_qrid)) (.transaction_taxinc
        { sender_qrid, recipient_qrid, given, tax, comment, magic_account, spawn_money,
          destroy_money })

/-! ## The actions that move money -/

/-- `length > tr_comment_maxlen`.  The option is a string, as in `defaults.json`, so it is
compared as one with anything that is not a number. -/
def exceedsMaxlen (cfg : Config) : JsVal → Except Exn Bool
  | some (.str s) => .ok (toString cfg.tr_comment_maxlen < s)
  | some (.arr l) => (JsVal.toStr (some (.arr l))).map (toString cfg.tr_comment_maxlen < ·)
  | some (.obj fields) =>
      (JsVal.toStr (some (.obj fields))).map (toString cfg.tr_comment_maxlen < ·)
  | v => v.toNumber.map (Number.fin cfg.tr_comment_maxlen).lt

/-- The comment is longer than `tr_comment_maxlen`. -/
def commentTooLong (cfg : Config) (comment : JsVal) : Except Exn Bool := do
  match comment with
  | some v => if v.truthy then exceedsMaxlen cfg (← v.length) else return false
  | none => return false

/-- The amount is given and has more than `hgc_tr_decimal_places` decimals. -/
def tooManyDecplaces (cfg : Config) (amount : JsVal) : Except Exn Bool :=
  if amount.truthy then (nDecimals amount).map (cfg.hgc_tr_decimal_places < ·) else .ok false

/-- `transaction_normal`, with its payload already read. -/
def normal (env : Env) (client : Client) (args : NormalArgs) : Code := do
  if ← JS.lift (commentTooLong env.cfg args.comment) then
    answer client (.text "comment_too_long")
  else if ← JS.lift (tooManyDecplaces env.cfg args.sent) then
    answer client (.text "too_many_decplaces")
  else if ← JS.lift (tooManyDecplaces env.cfg args.received) then
    answer client (.text "too_many_decplaces")
  else
    getByQridLean client args.sender (.transaction_normal args)

/-- What `transaction_normal` reads from its payload. -/
def NormalArgs.read (payload tax : JsVal) : Except Exn NormalArgs := do
  let sender ← payload.prop "sender"
  let recipient ← payload.prop "recipient"
  let sender_password ← payload.prop "sender_password"
  let comment ← propOrFalse payload "comment"
  let sent ← propOrFalse payload "amount_sent"
  let received ← propOrFalse payload "amount_received"
  return { sender, recipient, sender_password, comment, sent, received, tax }

def transaction_normal (env : Env) (client : Client) (payload tax : JsVal) : Code := do
  normal env client (← JS.lift (NormalArgs.read payload tax))

/-- The callback of the password lookup.  The client goes on as the one whose
password was checked. -/
def transaction_normal_cb (E : Ext) (env : Env) (client : Client) (args : NormalArgs) :
    Option Student → Code
  | none => answer client (.text "invalid_sender")
  | some st => do
      if !(← JS.lift (check_password E st args.sender_password)) then
        answer client (.text "invalid_password")
      else
        transaction env { client with auth := some st._id } args.sender args.recipient args.sent
          args.received args.tax args.comment

/-- `name + " - " + payload.comment`, or `name`. -/
def moneyComment (name : String) (payload : JsVal) : Except Exn JsVal := do
  if ← payload.hasProp "comment" then
    return some (.str (name ++ " - " ++ (← (← payload.prop "comment").toStr)))
  else return some (.str name)

def spawn_money (env : Env) (client : Client) (payload : JsVal) : Code := do
  let sender := some (.str env.cfg.magic_account)
  let recipient ← JS.lift (payload.prop "recipient")
  let amount ← JS.lift (payload.prop "amount")
  let comment ← JS.lift (moneyComment "spawn_money" payload)
  transaction env client sender recipient amount jsFalse jsZero comment

def destroy_money (env : Env) (client : Client) (payload : JsVal) : Code := do
  let recipient := some (.str env.cfg.magic_account)
  let sender ← JS.lift (payload.prop "sender")
  let amount ← JS.lift (payload.prop "amount")
  let comment ← JS.lift (moneyComment "destroy_money" payload)
  transaction env client sender recipient amount jsFalse jsZero comment

/-- `payload.tax_percent`, or the configured percentage. -/
def taxPercent (cfg : Config) (payload : JsVal) : Except Exn JsVal := do
  if ← payload.hasProp "tax_percent" then payload.prop "tax_percent"
  else return cfg.transaction_tax_percent

def master_transaction (env : Env) (client : Client) (payload : JsVal) : Code := do
  let tax_percent ← JS.lift (taxPercent env.cfg payload)
  if (← JS.lift tax_percent.toNumber).lt (.fin 0) then
    answer client (.text "error: invalid tax_percent")
  else
    let sender ← JS.lift (payload.prop "sender")
    let recipient ← JS.lift (payload.prop "recipient")
    let sent ← JS.lift (propOrFalse payload "amount_sent")
    let received ← JS.lift (propOrFalse payload "amount_received")
    let comment ← JS.lift (propOrFalse payload "comment")
    transaction env client sender recipient sent received tax_percent comment

/-- The callback of `transaction_delete`. -/
def transaction_delete_cb (client : Client) (id : ObjectId) : Option Booking → Code
  | none => answer client (.text "invalid_id")
  | some _ => do
      query client (.removeTransaction id)
      answer client .ok

def transaction_delete (E : Ext) (client : Client) (payload : JsVal) : Code := do
  query client (.transaction (← JS.lift (E.objectId payload)))

/-- The actions that move money. -/
inductive MoneyAction where
  | transaction
  | transaction_taxfree
  | spawn_money
  | destroy_money
  | master_transaction
deriving DecidableEq, Repr

def MoneyAction.run (env : Env) (client : Client) (payload : JsVal) : MoneyAction → Code
  | .transaction => transaction_normal env client payload env.cfg.transaction_tax_percent
  | .transaction_taxfree => transaction_normal env client payload jsZero
  | .spawn_money => SchuleAlsStaat.spawn_money env client payload
  | .destroy_money => SchuleAlsStaat.destroy_money env client payload
  | .master_transaction => SchuleAlsStaat.master_transaction env client payload

end SchuleAlsStaat
