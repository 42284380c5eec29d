import SchuleAlsStaat.Api.Channel
import SchuleAlsStaat.Client.Payment
import SchuleAlsStaat.Server.Receipts

/-!
# The app and the server

A page of the app that sends transactions, the server with everybody else's requests, and
the encrypted messages between them.  `send_query` posts a transaction at most once, and
the post may arrive at any time, also when the page has already been told of a timeout, or
never.  An answer may arrive once the server has given it.
-/

namespace SchuleAlsStaat.Session

open Js (Json JsVal)
open Runs (Run AnyRun recorded)
open SendQuery (Flag)

/-- What `JSON.parse` makes of a message.  `err` is the text of an exception. -/
def messageText (err : String) : Answer → Option Json
  | .text s => some (.str s)
  | .error _ => some (.str ("error: " ++ err))
  | .dbError component => some (.str ("error: database error [" ++ component ++ "] " ++ err))
  | _ => none

/-- A transaction of the page that has arrived at the server. -/
structure Arrival where
  /-- Its position among the transactions of the page. -/
  transaction : ℕ
  req : ReqId
  passphrase : String

structure State where
  server : Server.State
  page : Payment.State
  arrived : List Arrival

/-- The page was loaded, and the server has started on given collections. -/
def State.init (S : Students) (L : Ledger) : State := ⟨.init S L, Payment.initial, []⟩

inductive Event where
  /-- Something happens on the page. -/
  | page (e : Payment.Event)
  /-- The `n`-th transaction arrives at worker `w`.  What was drawn for it matters only then. -/
  | arrive (n : ℕ) (w : WorkerId) (env : Env) (draws : Draws 32) (salt : Draws 8)
  /-- The `k`-th answer of the server to the `n`-th transaction arrives at the page. -/
  | answer (n k : ℕ) (err : String) (salt : Draws 8) (status : Flag)
  /-- The `n`-th transaction fails. -/
  | fail (n : ℕ) (status : Flag)
  /-- Something else happens on the server. -/
  | server (e : Server.Event)

/-- The event is the answer to a transaction. -/
def answersTransaction : Payment.Event → Bool
  | .transaction _ _ _ => true
  | _ => false

/-- The server encrypts a message, and `send_query` decrypts it.  There is no value if the
decryption throws, and no callback at all if `JSON.parse` does. -/
def transmit (ch : Channel) (s : Server.State) (a : Arrival) (k : ℕ) (err : String)
    (salt : Draws 8) : Option JsVal := do
  let m ← (s.told a.req)[k]?
  let text ← messageText err m
  let q ← s.received[a.req]?
  let (_, aes_key) ← (decodePost ch.keys q.post).toOption
  let res ← (encrypt_query ch.crypto salt (some text) aes_key).toOption
  match AES_decrypt ch.crypto res a.passphrase with
  | .ok value => (Json.parse value).toOption.map some
  | .error _ => some none

section Steps

variable (E : Ext) (ch : Channel) (toUpperCase : String → String) (page : Payment.Page)
  (store : Payment.Storage)

def step (s : State) : Event → Option State
  | .page e =>
      if answersTransaction e then none
      else (Payment.step toUpperCase page store s.page e).map fun p => { s with page := p }
  | .arrive n w env draws salt =>
      match s.page.transactions[n]?, s.arrived.find? (·.transaction = n) with
      | some sub, none =>
          match send_query ch draws salt (actionQuery (some sub.payload) none) with
          | .ok (passphrase, post) =>
              (Server.step E ch.keys s.server (.request w env "transaction" post)).map fun t =>
                { s with
                  server := t
                  arrived := s.arrived ++ [⟨n, s.server.received.length, passphrase⟩] }
          | .error _ => none
      | _, _ => none
  | .answer n k err salt status =>
      match s.arrived.find? (·.transaction = n), Payment.connectionError status with
      | some a, none =>
          (transmit ch s.server a k err salt).bind fun value =>
            (Payment.step toUpperCase page store s.page (match value with
              | some v => .transaction n v status
              | none => .transaction n .null .ERROR_ENCRYPTION)).map fun p => { s with page := p }
      | _, _ => none
  | .fail n status =>
      if (Payment.connectionError status).isSome then
        (Payment.step toUpperCase page store s.page (.transaction n .null status)).map fun p =>
          { s with page := p }
      else none
  | .server e => (Server.step E ch.keys s.server e).map fun t => { s with server := t }

end Steps

/-! ## The server's part -/

/-- What the server does in a step. -/
def Event.onServer (ch : Channel) (s : State) : Event → Option Server.Event
  | .arrive n w env draws salt => do
      let sub ← s.page.transactions[n]?
      let (_, post) ← (send_query ch draws salt (actionQuery (some sub.payload) none)).toOption
      return .request w env "transaction" post
  | .server e => some e
  | _ => none

/-- The steps of the server among the steps of both. -/
def serverPast (ch : Channel) (past : List (State × Event)) : List (Server.State × Server.Event) :=
  past.filterMap fun p => (p.2.onServer ch p.1).map fun e => (p.1.server, e)

section Server

variable {E : Ext} {ch : Channel} {toUpperCase : String → String} {page : Payment.Page}
  {store : Payment.Storage} {s s' : State}

/-- The server takes its step, or it has none. -/
theorem server_step {e : Event} (hs : step E ch toUpperCase page store s e = some s') :
    (∃ e', e.onServer ch s = some e' ∧ Server.step E ch.keys s.server e' = some s'.server) ∨
      e.onServer ch s = none ∧ s'.server = s.server := by
  cases e with
  | page e =>
      obtain ⟨-, hs⟩ := Option.ite_none_left_eq_some.mp hs
      obtain ⟨p, -, rfl⟩ := Option.map_eq_some_iff.mp hs
      exact .inr ⟨rfl, rfl⟩
  | arrive n w env draws salt =>
      rw [step] at hs
      split at hs
      · rename_i r hr _
        split at hs
        · rename_i passphrase post hsend
          obtain ⟨t, ht, rfl⟩ := Option.map_eq_some_iff.mp hs
          refine .inl ⟨_, ?_, ht⟩
          simp only [Event.onServer, hr, hsend, Option.bind_eq_bind, Option.bind_some,
            Except.toOption]
          rfl
        · cases hs
      · cases hs
  | answer n k err salt status =>
      rw [step] at hs
      split at hs
      · obtain ⟨value, -, hs⟩ := Option.bind_eq_some_iff.mp hs
        obtain ⟨p, -, rfl⟩ := Option.map_eq_some_iff.mp hs
        exact .inr ⟨rfl, rfl⟩
      · cases hs
  | fail n status =>
      obtain ⟨-, hs⟩ := Option.ite_none_right_eq_some.mp hs
      obtain ⟨p, -, rfl⟩ := Option.map_eq_some_iff.mp hs
      exact .inr ⟨rfl, rfl⟩
  | server e =>
      obtain ⟨t, ht, rfl⟩ := Option.map_eq_some_iff.mp hs
      exact .inl ⟨e, rfl, ht⟩

/-- The server's part of a run is a run of the server. -/
theorem server_of_run {S : Students} {L : Ledger} {past : List (State × Event)}
    {ok : State → Event → Prop}
    (run : Run (recorded (step E ch toUpperCase page store)) (fun p e => ok p.1 e)
      (State.init S L, []) (s, past)) :
    AnyRun (recorded (Server.step E ch.keys)) (.init S L, []) (s.server, serverPast ch past) := by
  refine run.invariant_recorded (I := fun s past => AnyRun (recorded (Server.step E ch.keys))
    (.init S L, []) (s.server, serverPast ch past)) .refl fun t e u past ih _ hs => ?_
  rcases server_step hs with ⟨e', he, hs'⟩ | ⟨he, hsame⟩
  · refine ih.tail (e := e') trivial ?_
    simp only [recorded, hs', serverPast, List.filterMap_cons, he, Option.map_some]
  · simpa only [serverPast, List.filterMap_cons, he, Option.map_none, hsame] using ih

end Server

end SchuleAlsStaat.Session
