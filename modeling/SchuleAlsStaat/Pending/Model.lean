import SchuleAlsStaat.Api.Answer
import SchuleAlsStaat.Lib.Runs

/-!
# Pending transactions

The write protocol of `actions/transactions.js` and `db/transactions.js`, for
any number of workers that share one database.

A transaction first saves an *intent*, a document of `pendingtransactions`
that the worker stamps with its own clock when it creates it.  When the save
is confirmed the worker pushes an element onto its array
`pending_transactions`.  Every tick of `setInterval` asks, for each element,
whether its intent is the earliest one of its sender (`checkWritePermission`).
If so, `onWritePermission` sums the sender's balance and then either refuses
the transaction or writes it, and removes the intent (`writeComplete`).
Spawned money is written without an intent.

Every database call is split in two: the database executes it, and later the
worker runs the callback.  Both may take any time, so `step` takes the place of
the call in its list as part of the event.  The calls stay in these lists after
they are done.

The arrays of all workers are laid out in one list of slots in the order of
the pushes.  `delete pending_transactions[i]` empties a slot and no slot is
used again.
-/

namespace SchuleAlsStaat.Pending

open Js (Number)
open Calls (Phase withSent withReply withSent_eq_some withReply_eq_some)

/-! ## State -/

/-- A document of `pendingtransactions`. -/
structure PendingTransaction where
  _id : ObjectId
  sender : ObjectId
  time : Time
deriving DecidableEq, Repr

/-- An element of `pending_transactions`. -/
structure Elem where
  trid : ObjectId
  sender : ObjectId
  entry : Draft
  answer : Client
deriving DecidableEq, Repr

/-- A position of a worker's array.  It is empty after `delete`. -/
structure Slot where
  worker : WorkerId
  elem : Option Elem
deriving DecidableEq, Repr

/-- `pt.save` in `intent`.  The reply says whether it succeeded. -/
structure IntentCall where
  worker : WorkerId
  pt : PendingTransaction
  entry : Draft
  answer : Client
  phase : Phase Bool
deriving DecidableEq, Repr

/-- `find` in `checkWritePermission`.  The reply says whether the first intent
is the one asked for, or is `none` for an error. -/
structure CheckCall where
  slot : ℕ
  trid : ObjectId
  sender : ObjectId
  answer : Client
  phase : Phase (Option Bool)
deriving DecidableEq, Repr

/-- `getBalance` as issued by `onWritePermission`. -/
structure BalanceCall where
  slot : ℕ
  trid : ObjectId
  pe : Elem
  sums : Aggregations
deriving DecidableEq, Repr

/-- `tr.save` in `write`.  `origin` is the slot and the intent of the element
that is written, and `none` for spawned money. -/
structure WriteCall where
  origin : Option (ℕ × ObjectId)
  entry : Draft
  answer : Client
  phase : Phase Bool
deriving DecidableEq, Repr

/-- `findOneAndRemove` in `writeComplete`. -/
structure RemoveCall where
  trid : ObjectId
  phase : Phase Bool
deriving DecidableEq, Repr

/-- An answer sent to a client, with the intent of the element it is about. -/
structure Sent where
  client : Client
  trid : Option ObjectId
  answer : Answer

structure State where
  /-- The next `_id` that is not in use. -/
  nextId : ObjectId
  transactions : Ledger
  pendingtransactions : List PendingTransaction
  pending_transactions : List Slot
  intents : List IntentCall
  checks : List CheckCall
  balances : List BalanceCall
  writes : List WriteCall
  removes : List RemoveCall
  answers : List Sent

/-- The state when the workers start on a given ledger. -/
def State.init (L : Ledger) : State where
  nextId := 0
  transactions := L
  pendingtransactions := []
  pending_transactions := []
  intents := []
  checks := []
  balances := []
  writes := []
  removes := []
  answers := []

/-! ## Callbacks -/

/-- `pending_transactions[i]`. -/
def elemAt (slots : List Slot) (i : ℕ) : Option Elem := slots[i]?.bind Slot.elem

/-- `delete pending_transactions[i]`. -/
def deleteAt (slots : List Slot) (i : ℕ) : List Slot :=
  slots.modify i fun sl => { sl with elem := none }

/-- The calls of `checkWritePermission` of one tick of worker `w`. -/
def tickChecks (slots : List Slot) (w : WorkerId) : List CheckCall :=
  slots.zipIdx.filterMap fun p =>
    if p.1.worker = w then p.1.elem.map fun pe => ⟨p.2, pe.trid, pe.sender, pe.answer, .sent⟩
    else none

namespace State

variable (s : State)

def deleteSlot (i : ℕ) : State :=
  { s with pending_transactions := deleteAt s.pending_transactions i }

def send (client : Client) (trid : Option ObjectId) (m : Answer) : State :=
  { s with answers := s.answers ++ [⟨client, trid, m⟩] }

/-- `db.transactions.intent`.  The document gets its `_id` and its time now. -/
def intent (w : WorkerId) (now : Time) (sender : ObjectId) (entry : Draft)
    (answer : Client) : State :=
  { s with
    nextId := s.nextId + 1
    intents := s.intents ++ [⟨w, ⟨s.nextId, sender, now⟩, entry, answer, .sent⟩] }

/-- `transaction_queue`. -/
def transaction_queue (c : IntentCall) : State :=
  { s with pending_transactions :=
      s.pending_transactions ++ [⟨c.worker, some ⟨c.pt._id, c.pt.sender, c.entry, c.answer⟩⟩] }

/-- `transaction_write`. -/
def transaction_write (origin : Option (ℕ × ObjectId)) (entry : Draft)
    (answer : Client) : State :=
  { s with writes := s.writes ++ [⟨origin, entry, answer, .sent⟩] }

/-- `db.transactions.writeComplete`. -/
def writeComplete (trid : ObjectId) : State :=
  { s with removes := s.removes ++ [⟨trid, .sent⟩] }

/-- `onWritePermission`, up to the call of `getBalance`. -/
def onWritePermission (i : ℕ) (trid : ObjectId) : State :=
  match elemAt s.pending_transactions i with
  | none => s  -- other callback was faster
  | some pe => { s with balances := s.balances ++ [⟨i, trid, pe, .start⟩] }

/-- The callback that `onWritePermission` passes to `getBalance`. -/
def onBalance (c : BalanceCall) (bal : ℚ) : State :=
  if (.fin bal - c.pe.entry.amount_sent : Number).lt (.fin 0) then
    ((s.send c.pe.answer c.trid (.text "nomoney")).writeComplete c.trid).deleteSlot c.slot
  else
    s.transaction_write (some (c.slot, c.trid)) c.pe.entry c.pe.answer

/-- The callback that `transaction_write` passes to `write`.  For spawned money
the `info` it calls is itself a function that answers. -/
def onWritten (c : WriteCall) : State :=
  match c.origin with
  | some (i, trid) => ((s.send c.answer trid .ok).deleteSlot i).writeComplete trid
  | none => (s.send c.answer none .ok).send c.answer none .ok

variable {s} {c : WriteCall}

theorem onWritten_some {i : ℕ} {trid : ObjectId} (h : c.origin = some (i, trid)) :
    s.onWritten c = ((s.send c.answer trid .ok).deleteSlot i).writeComplete trid := by
  simp only [onWritten, h]

theorem onWritten_none (h : c.origin = none) :
    s.onWritten c = (s.send c.answer none .ok).send c.answer none .ok := by
  simp only [onWritten, h]

end State

/-! ## Steps -/

inductive Event where
  /-- A worker creates an intent and starts to save it. -/
  | intent (w : WorkerId) (now : Time) (sender : ObjectId) (entry : Draft) (answer : Client)
  /-- Spawned money goes to `transaction_write` directly. -/
  | spawn (entry : Draft) (answer : Client)
  | intentDb (n : ℕ) (ok : Bool)
  | intentReply (n : ℕ)
  | tick (w : WorkerId)
  /-- `find` returns the document at `first`, or nothing. -/
  | checkDb (n : ℕ) (first : Option ℕ)
  | checkFail (n : ℕ)
  | checkReply (n : ℕ)
  | sumDb (n : ℕ) (a : Aggregation) (ok : Bool)
  | sumReply (n : ℕ) (a : Aggregation)
  | writeDb (n : ℕ) (ok : Bool)
  | writeReply (n : ℕ)
  | removeDb (n : ℕ) (ok : Bool)
  /-- The database removes a document that is older than `pending_timeout`. -/
  | expire (n : ℕ)
  /-- `tr.remove()` of `transaction_delete` is executed. -/
  | delete (n : ℕ)

/-- `find({sender}).sort({time}).limit(1)` may return `d`.  The order of
documents with equal times is not specified. -/
def First (docs : List PendingTransaction) (sender : ObjectId) (d : PendingTransaction) : Prop :=
  d ∈ docs ∧ d.sender = sender ∧ ∀ d' ∈ docs, d'.sender = sender → d.time ≤ d'.time

instance (docs : List PendingTransaction) (sender : ObjectId) (d : PendingTransaction) :
    Decidable (First docs sender d) := by unfold First; infer_instance

/-- The document that `find` returns, given the position the event names. -/
def findFirst (docs : List PendingTransaction) (sender : ObjectId) :
    Option ℕ → Option (Option PendingTransaction)
  | some k => docs[k]?.bind fun d => if First docs sender d then some (some d) else none
  | none => if ∀ d ∈ docs, d.sender ≠ sender then some none else none

variable (s : State)

/-- One step of the system, if the event is enabled. -/
def step : Event → Option State
  | .intent w now sender entry answer => some (s.intent w now sender entry answer)
  | .spawn entry answer => some (s.transaction_write none entry answer)
  | .intentDb n ok => withSent IntentCall.phase s.intents n fun c => some { s with
      intents := s.intents.set n { c with phase := .replied ok }
      pendingtransactions := if ok then s.pendingtransactions ++ [c.pt] else s.pendingtransactions }
  | .intentReply n => withReply IntentCall.phase s.intents n fun c ok =>
      let s := { s with intents := s.intents.set n { c with phase := .done ok } }
      some (if ok then s.transaction_queue c else s.send c.answer none (.dbError "trdb.intent"))
  | .tick w => some { s with checks := s.checks ++ tickChecks s.pending_transactions w }
  | .checkDb n first => withSent CheckCall.phase s.checks n fun c =>
      (findFirst s.pendingtransactions c.sender first).map fun pt => { s with
        checks := s.checks.set n { c with
          phase := .replied (some (pt.any fun d => d._id = c.trid)) } }
  | .checkFail n => withSent CheckCall.phase s.checks n fun c => some { s with
      checks := s.checks.set n { c with phase := .replied none } }
  | .checkReply n => withReply CheckCall.phase s.checks n fun c r =>
      let s := { s with checks := s.checks.set n { c with phase := .done r } }
      some (match r with
        | some true => s.onWritePermission c.slot c.trid
        | some false => s
        | none => s.send c.answer c.trid (.dbError "trdb.checkWritePermission"))
  | .sumDb n a ok => withSent (fun c => c.sums.get a) s.balances n fun c => some { s with
      balances := s.balances.set n { c with
        sums := c.sums.set
          (.replied (if ok then some (a.run s.transactions c.pe.sender) else none)) a } }
  | .sumReply n a => withReply (fun c => c.sums.get a) s.balances n fun c r =>
      let c' := { c with sums := c.sums.set (.done r) a }
      let s := { s with balances := s.balances.set n c' }
      some (match r, c'.sums.aggregationComplete with
        | none, _ => s.send c.pe.answer c.trid (.dbError a.component)
        | some _, none => s
        | some _, some bal => s.onBalance c' bal)
  | .writeDb n true => withSent WriteCall.phase s.writes n fun c =>
      c.entry.cast.map fun t => { s with
        writes := s.writes.set n { c with phase := .replied true }
        transactions := s.transactions ++ [t] }
  | .writeDb n false => withSent WriteCall.phase s.writes n fun c => some { s with
      writes := s.writes.set n { c with phase := .replied false } }
  | .writeReply n => withReply WriteCall.phase s.writes n fun c ok =>
      let s := { s with writes := s.writes.set n { c with phase := .done ok } }
      some (if ok then s.onWritten c
        else s.send c.answer (c.origin.map Prod.snd) (.dbError "trdb.write"))
  | .removeDb n ok => withSent RemoveCall.phase s.removes n fun c => some { s with
      removes := s.removes.set n { c with phase := .done ok }
      pendingtransactions := if ok then s.pendingtransactions.filter (·._id ≠ c.trid)
        else s.pendingtransactions }
  | .expire n => if n < s.pendingtransactions.length then
      some { s with pendingtransactions := s.pendingtransactions.eraseIdx n } else none
  | .delete n => if n < s.transactions.length then
      some { s with transactions := s.transactions.eraseIdx n } else none

/-! ## What a step does -/

/-- What a step does, case by case. -/
inductive Step : Event → State → Prop where
  | intent (w : WorkerId) (now : Time) (sender : ObjectId) (entry : Draft) (answer : Client) :
      Step (.intent w now sender entry answer) (s.intent w now sender entry answer)
  | spawn (entry : Draft) (answer : Client) :
      Step (.spawn entry answer) (s.transaction_write none entry answer)
  | intentDb {n : ℕ} {c : IntentCall} (ok : Bool) (hc : s.intents[n]? = some c)
      (hp : c.phase = .sent) :
      Step (.intentDb n ok) { s with
        intents := s.intents.set n { c with phase := .replied ok }
        pendingtransactions :=
          if ok then s.pendingtransactions ++ [c.pt] else s.pendingtransactions }
  | queued {n : ℕ} {c : IntentCall} (hc : s.intents[n]? = some c) (hp : c.phase = .replied true) :
      Step (.intentReply n)
        (({ s with intents := s.intents.set n { c with phase := .done true } } :
          State).transaction_queue c)
  | intentError {n : ℕ} {c : IntentCall} (hc : s.intents[n]? = some c)
      (hp : c.phase = .replied false) :
      Step (.intentReply n)
        (({ s with intents := s.intents.set n { c with phase := .done false } } : State).send
          c.answer none (.dbError "trdb.intent"))
  | tick (w : WorkerId) :
      Step (.tick w) { s with checks := s.checks ++ tickChecks s.pending_transactions w }
  | checkDb {n : ℕ} {first : Option ℕ} {c : CheckCall} {pt : Option PendingTransaction}
      (hc : s.checks[n]? = some c) (hp : c.phase = .sent)
      (hf : findFirst s.pendingtransactions c.sender first = some pt) :
      Step (.checkDb n first) { s with
        checks := s.checks.set n { c with
          phase := .replied (some (pt.any fun d => d._id = c.trid)) } }
  | checkFail {n : ℕ} {c : CheckCall} (hc : s.checks[n]? = some c) (hp : c.phase = .sent) :
      Step (.checkFail n) { s with checks := s.checks.set n { c with phase := .replied none } }
  | permitted {n : ℕ} {c : CheckCall} (hc : s.checks[n]? = some c)
      (hp : c.phase = .replied (some true)) :
      Step (.checkReply n)
        (({ s with checks := s.checks.set n { c with phase := .done (some true) } } :
          State).onWritePermission c.slot c.trid)
  | refused {n : ℕ} {c : CheckCall} (hc : s.checks[n]? = some c)
      (hp : c.phase = .replied (some false)) :
      Step (.checkReply n)
        { s with checks := s.checks.set n { c with phase := .done (some false) } }
  | checkError {n : ℕ} {c : CheckCall} (hc : s.checks[n]? = some c) (hp : c.phase = .replied none) :
      Step (.checkReply n)
        (({ s with checks := s.checks.set n { c with phase := .done none } } : State).send
          c.answer c.trid (.dbError "trdb.checkWritePermission"))
  | sumDb {n : ℕ} {a : Aggregation} {c : BalanceCall} (ok : Bool) (hc : s.balances[n]? = some c)
      (hp : c.sums.get a = .sent) :
      Step (.sumDb n a ok) { s with
        balances := s.balances.set n { c with
          sums := c.sums.set
            (.replied (if ok then some (a.run s.transactions c.pe.sender) else none)) a } }
  | sumError {n : ℕ} {a : Aggregation} {c : BalanceCall} (hc : s.balances[n]? = some c)
      (hp : c.sums.get a = .replied none) :
      Step (.sumReply n a)
        (({ s with
          balances := s.balances.set n { c with sums := c.sums.set (.done none) a } } : State).send
            c.pe.answer c.trid (.dbError a.component))
  | sumWaits {n : ℕ} {a : Aggregation} {c : BalanceCall} {x : ℚ} (hc : s.balances[n]? = some c)
      (hp : c.sums.get a = .replied (some x))
      (hb : (c.sums.set (.done (some x)) a).aggregationComplete = none) :
      Step (.sumReply n a) { s with
        balances := s.balances.set n { c with sums := c.sums.set (.done (some x)) a } }
  | sumComplete {n : ℕ} {a : Aggregation} {c : BalanceCall} {x bal : ℚ}
      (hc : s.balances[n]? = some c) (hp : c.sums.get a = .replied (some x))
      (hb : (c.sums.set (.done (some x)) a).aggregationComplete = some bal) :
      Step (.sumReply n a)
        (({ s with
          balances := s.balances.set n { c with
            sums := c.sums.set (.done (some x)) a } } : State).onBalance
              { c with sums := c.sums.set (.done (some x)) a } bal)
  | saved {n : ℕ} {c : WriteCall} {b : Booking} (hc : s.writes[n]? = some c)
      (hp : c.phase = .sent) (hb : c.entry.cast = some b) :
      Step (.writeDb n true) { s with
        writes := s.writes.set n { c with phase := .replied true }
        transactions := s.transactions ++ [b] }
  | writeFail {n : ℕ} {c : WriteCall} (hc : s.writes[n]? = some c) (hp : c.phase = .sent) :
      Step (.writeDb n false)
        { s with writes := s.writes.set n { c with phase := .replied false } }
  | written {n : ℕ} {c : WriteCall} (hc : s.writes[n]? = some c) (hp : c.phase = .replied true) :
      Step (.writeReply n)
        (({ s with writes := s.writes.set n { c with phase := .done true } } : State).onWritten c)
  | writeError {n : ℕ} {c : WriteCall} (hc : s.writes[n]? = some c)
      (hp : c.phase = .replied false) :
      Step (.writeReply n)
        (({ s with writes := s.writes.set n { c with phase := .done false } } : State).send
          c.answer (c.origin.map Prod.snd) (.dbError "trdb.write"))
  | removeDb {n : ℕ} {c : RemoveCall} (ok : Bool) (hc : s.removes[n]? = some c)
      (hp : c.phase = .sent) :
      Step (.removeDb n ok) { s with
        removes := s.removes.set n { c with phase := .done ok }
        pendingtransactions := if ok then s.pendingtransactions.filter (·._id ≠ c.trid)
          else s.pendingtransactions }
  | expire {n : ℕ} (hn : n < s.pendingtransactions.length) :
      Step (.expire n) { s with pendingtransactions := s.pendingtransactions.eraseIdx n }
  | delete {n : ℕ} (hn : n < s.transactions.length) :
      Step (.delete n) { s with transactions := s.transactions.eraseIdx n }

variable {s} {s' : State}

theorem step_cases {e : Event} (hs : step s e = some s') : Step s e s' := by
  cases e with
  | intent w now sender entry answer =>
      cases hs
      exact .intent w now sender entry answer
  | spawn entry answer =>
      cases hs
      exact .spawn entry answer
  | intentDb n ok =>
      obtain ⟨c, hc, hp, hs⟩ := withSent_eq_some.mp hs
      cases hs
      exact .intentDb ok hc hp
  | intentReply n =>
      obtain ⟨c, ok, hc, hp, hs⟩ := withReply_eq_some.mp hs
      cases hs
      cases ok with
      | true => exact .queued hc hp
      | false => exact .intentError hc hp
  | tick w =>
      cases hs
      exact .tick w
  | checkDb n first =>
      obtain ⟨c, hc, hp, hs⟩ := withSent_eq_some.mp hs
      obtain ⟨pt, hf, rfl⟩ := Option.map_eq_some_iff.mp hs
      exact .checkDb hc hp hf
  | checkFail n =>
      obtain ⟨c, hc, hp, hs⟩ := withSent_eq_some.mp hs
      cases hs
      exact .checkFail hc hp
  | checkReply n =>
      obtain ⟨c, r, hc, hp, hs⟩ := withReply_eq_some.mp hs
      cases hs
      match r with
      | some true => exact .permitted hc hp
      | some false => exact .refused hc hp
      | none => exact .checkError hc hp
  | sumDb n a ok =>
      obtain ⟨c, hc, hp, hs⟩ := withSent_eq_some.mp hs
      cases hs
      exact .sumDb ok hc hp
  | sumReply n a =>
      obtain ⟨c, r, hc, hp, hs⟩ := withReply_eq_some.mp hs
      rw [Option.some.injEq] at hs
      split at hs
      next =>
        subst hs
        exact .sumError hc hp
      next hb =>
        subst hs
        exact .sumWaits hc hp hb
      next hb =>
        subst hs
        exact .sumComplete hc hp hb
  | writeDb n ok =>
      cases ok with
      | true =>
          obtain ⟨c, hc, hp, hs⟩ := withSent_eq_some.mp hs
          obtain ⟨b, hb, rfl⟩ := Option.map_eq_some_iff.mp hs
          exact .saved hc hp hb
      | false =>
          obtain ⟨c, hc, hp, hs⟩ := withSent_eq_some.mp hs
          cases hs
          exact .writeFail hc hp
  | writeReply n =>
      obtain ⟨c, ok, hc, hp, hs⟩ := withReply_eq_some.mp hs
      cases hs
      cases ok with
      | true => exact .written hc hp
      | false => exact .writeError hc hp
  | removeDb n ok =>
      obtain ⟨c, hc, hp, hs⟩ := withSent_eq_some.mp hs
      cases hs
      exact .removeDb ok hc hp
  | expire n =>
      simp only [step] at hs
      split at hs
      next hn =>
        cases hs
        exact .expire hn
      next => cases hs
  | delete n =>
      simp only [step] at hs
      split at hs
      next hn =>
        cases hs
        exact .delete hn
      next => cases hs

/-! ## The ledger -/

/-- A step leaves the ledger as it is, appends the entry that is written or
removes one. -/
theorem transactions_step {e : Event} (hs : step s e = some s') :
    s'.transactions = s.transactions ∨
      (∃ n c b, e = .writeDb n true ∧ s.writes[n]? = some c ∧ c.entry.cast = some b ∧
        s'.transactions = s.transactions ++ [b]) ∨
      ∃ n, e = .delete n ∧ s'.transactions = s.transactions.eraseIdx n := by
  cases step_cases hs with
  | permitted =>
      refine .inl ?_
      rw [State.onWritePermission]
      split <;> rfl
  | sumComplete =>
      refine .inl ?_
      rw [State.onBalance]
      split <;> rfl
  | @saved n c b hc hp hb => exact .inr (.inl ⟨n, c, b, rfl, hc, hb, rfl⟩)
  | written =>
      refine .inl ?_
      rw [State.onWritten]
      split <;> rfl
  | @delete n hn => exact .inr (.inr ⟨n, rfl, rfl⟩)
  | _ => exact .inl rfl

end SchuleAlsStaat.Pending
