import SchuleAlsStaat.Js.Parse
import SchuleAlsStaat.Lib.Calls
import SchuleAlsStaat.Lib.Runs
import Mathlib.Data.List.Perm.Basic

/-!
# Sending a query

`send_query` of the clients.  A call pings the intranet server.  If that fails it sorts
the gateways in a random order and pings one after the other.  The first server that
answers a ping gets the query.

Any number of calls run at the same time.  They share the array `GATEWAYS`, and a call
sorts it in place.  The state keeps every AJAX request of every call and every call of a
`cb`, so it is also the history of the page.

`at_most_one_submission` says that a call submits its query at most once and calls its
`cb` at most once, whatever the requests come to.
-/

namespace SchuleAlsStaat.SendQuery

open Js (Json)
open Calls (countP_set)
open Runs (AnyRun exec exists_run_of_exec)

/-! ## The page -/

def APISERVER : String := "api.saeu"
def APIPORT : ℕ := 1230
def APIURL : String := "http://" ++ APISERVER ++ ":" ++ toString APIPORT ++ "/"

def TIMEOUT_INTRANET : ℕ := 1500
def TIMEOUT_INTERNET : ℕ := 4000
def TIMEOUT_QUERY : ℕ := 5000
def TIMEOUT_POLLING : ℕ := 60000

/-- The status codes of a query. -/
inductive Flag where
  | SUCCESS_INTRANET
  | SUCCESS_INTERNET
  | ERROR
  | ERROR_UNKNOWN
  | ERROR_SPOOF
  | ERROR_ENCRYPTION
deriving DecidableEq

/-- What an AJAX request comes to.  A timeout is an error. -/
inductive Outcome where
  | success (status : ℕ) (res : String)
  | error
deriving DecidableEq

/-- The two functions that `ping_and_perform` is given as `error_cb`. -/
inductive ErrorCb where
  | intranet
  | gateway
deriving DecidableEq

/-- The callbacks `success` and `error` of a request, with the variables they hold. -/
inductive Callbacks where
  | ping (URL : String) (error_cb : ErrorCb)
  | perform (URL passphrase : String)
deriving DecidableEq

/-- A call of `$.ajax`. -/
structure Request where
  /-- The call of `send_query` it is made for. -/
  call : ℕ
  type : String
  url : String
  timeout : ℕ
  callbacks : Callbacks
  /-- `none` until one of the callbacks has run. -/
  outcome : Option Outcome := none

/-- A call of `send_query` and the variables that its functions share. -/
structure Call where
  name : String
  passphrase : String
  polling : Bool
  gwidx : ℕ := 0

/-- A call of the `cb` that `send_query` was given. -/
structure Answer where
  call : ℕ
  value : Json
  flag : Flag

structure State where
  GATEWAYS : List String
  calls : List Call := []
  requests : List Request := []
  answers : List Answer := []

namespace State

def ajax (s : State) (r : Request) : State := { s with requests := s.requests ++ [r] }

def cb (s : State) (call : ℕ) (value : Json) (flag : Flag) : State :=
  { s with answers := s.answers ++ [⟨call, value, flag⟩] }

/-- The `n`-th request has come to `o`. -/
def complete (s : State) (n : ℕ) (r : Request) (o : Outcome) : State :=
  { s with requests := s.requests.set n { r with outcome := some o } }

end State

/-! ## The functions of `send_query` -/

structure Decrypt where
  value : String
  success : Bool

/-- `dec` is `GibberishAES.dec`, which has no value where it throws. -/
def decrypt_answer (dec : String → String → Option String) (passphrase answer : String) :
    Decrypt :=
  match dec answer passphrase with
  | some value => ⟨value, true⟩
  | none => ⟨"error: (while decrypting) " ++ answer, false⟩

def perform_query (s : State) (call : ℕ) (c : Call) (URL : String) : State :=
  s.ajax {
    call
    type := "POST"
    url := URL ++ "action/" ++ c.name
    timeout := if c.polling then TIMEOUT_POLLING else TIMEOUT_QUERY
    callbacks := .perform URL c.passphrase }

def ping_and_perform (s : State) (call : ℕ) (URL : String) (timeout : ℕ) (error_cb : ErrorCb) :
    State :=
  s.ajax { call, type := "GET", url := URL ++ "ping/", timeout, callbacks := .ping URL error_cb }

/-- An element of an array, as it is used in a string. -/
def elem (l : List String) (i : ℕ) : String := l[i]?.getD "undefined"

def next (s : State) (call : ℕ) (c : Call) : State :=
  ping_and_perform { s with calls := s.calls.set call { c with gwidx := c.gwidx + 1 } }
    call (elem s.GATEWAYS c.gwidx) TIMEOUT_INTERNET .gateway

/-- The callback `success` of a request. -/
def onSuccess (dec : String → String → Option String) (s : State) (r : Request) (c : Call)
    (status : ℕ) (res : String) : State :=
  match r.callbacks with
  | .ping URL _ =>
      if status ≠ 204 then s.cb r.call .null .ERROR_SPOOF
      else perform_query s r.call c URL
  | .perform URL passphrase =>
      let decrypt := decrypt_answer dec passphrase res
      if !decrypt.success then s.cb r.call (.str decrypt.value) .ERROR_ENCRYPTION
      else
        let success := if URL == APIURL then .SUCCESS_INTRANET else .SUCCESS_INTERNET
        match Json.parse decrypt.value with
        | .ok value => s.cb r.call value success
        | .error _ => s

/-- The callback `error` of a request.  The array `GATEWAYS` comes out of its random sort
as `order`, if it is sorted. -/
def onError (s : State) (r : Request) (c : Call) (order : List String) : State :=
  match r.callbacks with
  | .ping _ .intranet => next { s with GATEWAYS := order } r.call { c with gwidx := 0 }
  | .ping _ .gateway =>
      if c.gwidx < s.GATEWAYS.length then next s r.call c
      else s.cb r.call .null .ERROR
  | .perform _ _ => s.cb r.call .null .ERROR_UNKNOWN

/-- What happens on the page. -/
inductive Event where
  /-- A call of `send_query` with the passphrase it generates. -/
  | send (name passphrase : String) (polling : Bool)
  /-- The `n`-th request comes to a success. -/
  | success (n status : ℕ) (res : String)
  /-- The `n`-th request comes to an error. -/
  | error (n : ℕ) (order : List String)

/-- The open request with index `n` and its call. -/
def request? (s : State) (n : ℕ) : Option (Request × Call) :=
  match s.requests[n]? with
  | some r =>
      match r.outcome, s.calls[r.call]? with
      | none, some c => some (r, c)
      | _, _ => none
  | none => none

def step (dec : String → String → Option String) (s : State) : Event → Option State
  | .send name passphrase polling =>
      some (ping_and_perform { s with calls := s.calls ++ [{ name, passphrase, polling }] }
        s.calls.length APIURL TIMEOUT_INTRANET .intranet)
  | .success n status res =>
      match request? s n with
      | some (r, c) =>
          some (onSuccess dec (s.complete n r (.success status res)) r c status res)
      | none => none
  | .error n order =>
      match request? s n with
      | some (r, c) =>
          if order.Perm s.GATEWAYS then some (onError (s.complete n r .error) r c order) else none
      | none => none

/-- The page after `api.js` was loaded. -/
def initial (GATEWAYS : List String) : State := { GATEWAYS }

theorem request?_eq_some {s : State} {n : ℕ} {r : Request} {c : Call}
    (h : request? s n = some (r, c)) :
    s.requests[n]? = some r ∧ r.outcome = none ∧ s.calls[r.call]? = some c := by
  simp only [request?] at h
  split at h
  next r' hr =>
    split at h
    next ho hc =>
      obtain ⟨rfl, rfl⟩ := Prod.mk.inj (Option.some.inj h)
      exact ⟨hr, ho, hc⟩
    next => cases h
  next => cases h

/-- What a step does. -/
theorem step_cases {dec : String → String → Option String} {s s' : State} {e : Event}
    (h : step dec s e = some s') :
    (∃ name passphrase polling, e = .send name passphrase polling ∧
      s' = ping_and_perform { s with calls := s.calls ++ [{ name, passphrase, polling }] }
        s.calls.length APIURL TIMEOUT_INTRANET .intranet) ∨
    (∃ n status res r c, e = .success n status res ∧ s.requests[n]? = some r ∧
      r.outcome = none ∧ s.calls[r.call]? = some c ∧
      s' = onSuccess dec (s.complete n r (.success status res)) r c status res) ∨
    (∃ n order r c, e = .error n order ∧ s.requests[n]? = some r ∧ r.outcome = none ∧
      s.calls[r.call]? = some c ∧ order.Perm s.GATEWAYS ∧
      s' = onError (s.complete n r .error) r c order) := by
  cases e with
  | send name passphrase polling =>
      exact .inl ⟨name, passphrase, polling, rfl, (Option.some.inj h).symm⟩
  | success n status res =>
      simp only [step] at h
      split at h
      next r c hr =>
        obtain ⟨hn, ho, hc⟩ := request?_eq_some hr
        exact .inr (.inl ⟨n, status, res, r, c, rfl, hn, ho, hc, (Option.some.inj h).symm⟩)
      next => cases h
  | error n order =>
      simp only [step] at h
      split at h
      next r c hr =>
        obtain ⟨hn, ho, hc⟩ := request?_eq_some hr
        split at h
        next hp =>
          exact .inr (.inr ⟨n, order, r, c, rfl, hn, ho, hc, hp, (Option.some.inj h).symm⟩)
        next => cases h
      next => cases h

/-! ## What a call owes -/

/-- The action requests of a call. -/
def posts (s : State) (call : ℕ) : ℕ :=
  s.requests.countP fun r => r.call == call && r.type == "POST"

/-- How often the `cb` of a call was called. -/
def answersTo (s : State) (call : ℕ) : ℕ := s.answers.countP fun a => a.call == call

/-- If a server answered the action request and the answer can be decrypted, it is JSON. -/
def ValidAnswer (dec : String → String → Option String) (r : Request) : Prop :=
  ∀ URL passphrase status res value, r.callbacks = .perform URL passphrase →
    r.outcome = some (.success status res) → dec res passphrase = some value →
    ∃ v, Json.parse value = .ok v

section Owed

variable {dec : String → String → Option String} {s : State} {r : Request} {n call : ℕ}

/-- `JSON.parse` threw in the callback of the request, so `cb` was not called. -/
def Request.lost (dec : String → String → Option String) (r : Request) : Bool :=
  match r.callbacks, r.outcome with
  | .perform _ passphrase, some (.success _ res) =>
      let decrypt := decrypt_answer dec passphrase res
      decrypt.success && !(Json.parse decrypt.value).isOk
  | _, _ => false

theorem ValidAnswer.not_lost (h : ValidAnswer dec r) : r.lost dec = false := by
  simp only [Request.lost]
  split
  next URL passphrase status res hc ho =>
    simp only [decrypt_answer]
    cases hd : dec res passphrase with
    | none => simp
    | some value =>
        obtain ⟨v, hv⟩ := h _ _ _ _ _ hc ho hd
        simp [hv, Except.isOk, Except.toBool]
  next => rfl

theorem Request.lost_error (r : Request) :
    ({ r with outcome := some .error } : Request).lost dec = false := by
  cases r.callbacks <;> simp [Request.lost]

/-- The request stands for a call of `cb` that is still to come or does not come. -/
def Request.owes (dec : String → String → Option String) (r : Request) : Bool :=
  r.outcome.isNone || r.lost dec

/-- The request is an action request, or a ping that may still lead to one. -/
def Request.submits (r : Request) : Bool := r.type == "POST" || r.outcome.isNone

/-- The calls of `cb` that a call of `send_query` has made or owes. -/
def owed (dec : String → String → Option String) (s : State) (call : ℕ) : ℕ :=
  s.requests.countP (fun r => r.call == call && r.owes dec) + answersTo s call

/-- The action requests that a call of `send_query` has made or may still make. -/
def submissions (s : State) (call : ℕ) : ℕ :=
  s.requests.countP fun r => r.call == call && r.submits

theorem answersTo_le_owed (dec : String → String → Option String) (s : State) (call : ℕ) :
    answersTo s call ≤ owed dec s call :=
  Nat.le_add_left ..

theorem posts_le_submissions (s : State) (call : ℕ) : posts s call ≤ submissions s call := by
  refine List.countP_mono_left fun r _ h => ?_
  simp only [Bool.and_eq_true] at h ⊢
  exact ⟨h.1, by simp [Request.submits, h.2]⟩

theorem owed_ajax (h : r.outcome = none) :
    owed dec (s.ajax r) call = owed dec s call + if r.call = call then 1 else 0 := by
  simp only [owed, State.ajax, answersTo, List.countP_append, List.countP_singleton,
    Request.owes, h]
  by_cases hc : r.call = call <;> simp [hc]
  omega

theorem submissions_ajax (h : r.outcome = none) :
    submissions (s.ajax r) call = submissions s call + if r.call = call then 1 else 0 := by
  simp only [submissions, State.ajax, List.countP_append, List.countP_singleton,
    Request.submits, h]
  by_cases hc : r.call = call <;> simp [hc]

theorem owed_cb (k : ℕ) (value : Json) (flag : Flag) :
    owed dec (s.cb k value flag) call = owed dec s call + if k = call then 1 else 0 := by
  simp only [owed, State.cb, answersTo, List.countP_append, List.countP_singleton]
  by_cases hc : k = call <;> simp [hc]
  omega

theorem submissions_cb (k : ℕ) (value : Json) (flag : Flag) :
    submissions (s.cb k value flag) call = submissions s call := rfl

/-- A request that completes owes a `cb` no longer, unless its answer is lost. -/
theorem owed_complete (hn : s.requests[n]? = some r) (ho : r.outcome = none) (o : Outcome) :
    owed dec (s.complete n r o) call + (if r.call = call then 1 else 0) =
      owed dec s call +
        if r.call = call ∧ ({ r with outcome := some o } : Request).lost dec then 1 else 0 := by
  have key := countP_set (fun r => r.call == call && r.owes dec) hn { r with outcome := some o }
  simp only [Request.owes, ho] at key
  simp only [owed, State.complete, answersTo, Request.owes]
  by_cases hc : r.call = call <;> simp [hc] at key ⊢ <;> omega

/-- A ping that completes does not count as a submission any longer. -/
theorem submissions_complete (hn : s.requests[n]? = some r) (ho : r.outcome = none)
    (o : Outcome) :
    submissions (s.complete n r o) call +
      (if r.call = call ∧ r.type ≠ "POST" then 1 else 0) = submissions s call := by
  have key := countP_set (fun r => r.call == call && r.submits) hn { r with outcome := some o }
  simp only [Request.submits, ho] at key
  simp only [submissions, State.complete, Request.submits]
  by_cases hc : r.call = call <;> by_cases ht : r.type = "POST" <;>
    simp [hc, ht] at key ⊢ <;> omega

variable {c : Call}

/-- The callback `success` calls `cb` or makes a request, unless the answer is lost. -/
theorem owed_onSuccess (status : ℕ) (res : String) :
    owed dec (onSuccess dec s r c status res) call +
        (if r.call = call ∧ ({ r with outcome := some (.success status res) } : Request).lost dec
          then 1 else 0) =
      owed dec s call + if r.call = call then 1 else 0 := by
  cases hr : r.callbacks with
  | ping URL error_cb =>
      simp only [onSuccess, hr, Request.lost]
      split
      · simp [owed_cb]
      · simp [perform_query, owed_ajax]
  | perform URL passphrase =>
      simp only [onSuccess, hr, Request.lost]
      split
      next hd =>
        have hd : (decrypt_answer dec passphrase res).success = false := by simpa using hd
        simp [owed_cb, hd]
      next hd =>
        have hd : (decrypt_answer dec passphrase res).success = true := by simpa using hd
        split
        next value hp => simp [owed_cb, hp, Except.isOk, Except.toBool]
        next e hp => simp [hd, hp, Except.isOk, Except.toBool]

theorem owed_ping (URL : String) (timeout : ℕ) (error_cb : ErrorCb) :
    owed dec (ping_and_perform s call URL timeout error_cb) n =
      owed dec s n + if call = n then 1 else 0 :=
  owed_ajax rfl

theorem submissions_ping (URL : String) (timeout : ℕ) (error_cb : ErrorCb) :
    submissions (ping_and_perform s call URL timeout error_cb) n =
      submissions s n + if call = n then 1 else 0 :=
  submissions_ajax rfl

theorem owed_next : owed dec (next s call c) n = owed dec s n + if call = n then 1 else 0 :=
  owed_ping ..

theorem submissions_next :
    submissions (next s call c) n = submissions s n + if call = n then 1 else 0 :=
  submissions_ping ..

/-- The callback `error` calls `cb` or makes a request. -/
theorem owed_onError (order : List String) :
    owed dec (onError s r c order) call = owed dec s call + if r.call = call then 1 else 0 := by
  cases hr : r.callbacks with
  | ping URL error_cb =>
      cases error_cb with
      | intranet =>
          simp only [onError, hr]
          exact owed_next
      | gateway =>
          simp only [onError, hr]
          split
          · exact owed_next
          · exact owed_cb ..
  | perform URL passphrase =>
      simp only [onError, hr]
      exact owed_cb ..

/-- Only a ping leads to another request. -/
theorem submissions_onSuccess (status : ℕ) (res : String)
    (h : ∀ URL error_cb, r.callbacks = .ping URL error_cb → r.type ≠ "POST") :
    submissions (onSuccess dec s r c status res) call ≤
      submissions s call + if r.call = call ∧ r.type ≠ "POST" then 1 else 0 := by
  cases hr : r.callbacks with
  | ping URL error_cb =>
      have ht := h _ _ hr
      simp only [onSuccess, hr]
      split
      · simp [submissions_cb]
      · simp [perform_query, submissions_ajax, ht]
  | perform URL passphrase =>
      simp only [onSuccess, hr]
      split
      · simp [submissions_cb]
      · split <;> simp [submissions_cb]

theorem submissions_onError (order : List String)
    (h : ∀ URL error_cb, r.callbacks = .ping URL error_cb → r.type ≠ "POST") :
    submissions (onError s r c order) call ≤
      submissions s call + if r.call = call ∧ r.type ≠ "POST" then 1 else 0 := by
  cases hr : r.callbacks with
  | ping URL error_cb =>
      have ht := h _ _ hr
      cases error_cb with
      | intranet =>
          simp only [onError, hr, submissions_next]
          simp [ht, submissions]
      | gateway =>
          simp only [onError, hr]
          split
          · simp [submissions_next, ht]
          · simp [submissions_cb]
  | perform URL passphrase =>
      simp only [onError, hr]
      simp [submissions_cb]

end Owed

/-! ## One submission and one answer -/

section Once

variable {dec : String → String → Option String} {s s' : State}

/-- A ping is a GET request to the server, and the intranet ping goes to the API server. -/
def Request.PingShaped (r : Request) : Prop :=
  ∀ URL error_cb, r.callbacks = .ping URL error_cb →
    r.type = "GET" ∧ r.url = URL ++ "ping/" ∧ (error_cb = .intranet → URL = APIURL)

theorem Request.PingShaped.type_ne {r : Request} (h : r.PingShaped) (URL : String)
    (error_cb : ErrorCb) (hr : r.callbacks = .ping URL error_cb) : r.type ≠ "POST" := by
  rw [(h URL error_cb hr).1]
  decide

def PingsShaped (s : State) : Prop := ∀ r ∈ s.requests, r.PingShaped

theorem pingsShaped_ping (hs : PingsShaped s) (call : ℕ) (URL : String) (timeout : ℕ)
    (error_cb : ErrorCb) (h : error_cb = .intranet → URL = APIURL) :
    PingsShaped (ping_and_perform s call URL timeout error_cb) := by
  refine Calls.forall_mem_concat hs fun URL' error_cb' hr => ?_
  cases hr
  exact ⟨rfl, rfl, h⟩

theorem pingsShaped_complete {r : Request} {n : ℕ} (hs : PingsShaped s) (hn : s.requests[n]? = some r)
    (o : Outcome) : PingsShaped (s.complete n r o) :=
  Calls.forall_mem_set n hs (hs r (List.mem_of_getElem? hn))

theorem pingsShaped_onSuccess {r : Request} {c : Call} (hs : PingsShaped s) (status : ℕ)
    (res : String) : PingsShaped (onSuccess dec s r c status res) := by
  unfold onSuccess
  split
  · split
    · exact hs
    · exact Calls.forall_mem_concat hs fun _ _ h => by cases h
  · dsimp only
    split
    · exact hs
    · split <;> exact hs

theorem pingsShaped_onError {r : Request} {c : Call} (hs : PingsShaped s) (order : List String) :
    PingsShaped (onError s r c order) := by
  unfold onError
  split
  · exact pingsShaped_ping hs _ _ _ _ fun h => by cases h
  · split
    · exact pingsShaped_ping hs _ _ _ _ fun h => by cases h
    · exact hs
  · exact hs

/-- The invariant of the page. -/
structure Once (dec : String → String → Option String) (s : State) : Prop where
  pings : PingsShaped s
  owed : ∀ call, owed dec s call = if call < s.calls.length then 1 else 0
  submissions : ∀ call, submissions s call ≤ if call < s.calls.length then 1 else 0

theorem once_initial (GATEWAYS : List String) : Once dec (initial GATEWAYS) where
  pings := fun _ h => by cases h
  owed := fun _ => rfl
  submissions := fun _ => Nat.zero_le _

/-- The functions of a call only change its own `gwidx`. -/
theorem length_onSuccess {r : Request} {c : Call} (status : ℕ) (res : String) :
    (onSuccess dec s r c status res).calls.length = s.calls.length := by
  unfold onSuccess
  split
  · split <;> rfl
  · dsimp only
    split
    · rfl
    · split <;> rfl

theorem length_onError {r : Request} {c : Call} (order : List String) :
    (onError s r c order).calls.length = s.calls.length := by
  unfold onError
  split
  · exact List.length_set
  · split
    · exact List.length_set
    · rfl
  · rfl

/-- A new call owes one answer and may submit once. -/
theorem Once.send (h : Once dec s) (c : Call) :
    Once dec (ping_and_perform { s with calls := s.calls ++ [c] } s.calls.length APIURL
      TIMEOUT_INTRANET .intranet) where
  pings := pingsShaped_ping h.pings _ _ _ _ fun _ => rfl
  owed := fun call => by
    have key : SendQuery.owed dec { s with calls := s.calls ++ [c] } call = _ := h.owed call
    rw [owed_ping, key]
    show _ = if call < (s.calls ++ [c]).length then 1 else 0
    simp only [List.length_append, List.length_singleton]
    split_ifs <;> omega
  submissions := fun call => by
    have key : SendQuery.submissions { s with calls := s.calls ++ [c] } call ≤ _ :=
      h.submissions call
    rw [submissions_ping]
    show _ ≤ if call < (s.calls ++ [c]).length then 1 else 0
    simp only [List.length_append, List.length_singleton]
    split_ifs at key ⊢ <;> omega

/-- A callback that makes a request or calls `cb` once passes the duty of its request on. -/
theorem Once.callback {r : Request} {n : ℕ} {o : Outcome} (h : Once dec s)
    (hn : s.requests[n]? = some r) (ho : r.outcome = none) (pings : PingsShaped s')
    (calls : s'.calls.length = s.calls.length)
    (owed : ∀ call, SendQuery.owed dec s' call +
        (if r.call = call ∧ ({ r with outcome := some o } : Request).lost dec then 1 else 0) =
      SendQuery.owed dec (s.complete n r o) call + if r.call = call then 1 else 0)
    (submissions : ∀ call, SendQuery.submissions s' call ≤
      SendQuery.submissions (s.complete n r o) call +
        if r.call = call ∧ r.type ≠ "POST" then 1 else 0) :
    Once dec s' where
  pings := pings
  owed := fun call => by
    have before := @owed_complete dec s r n call hn ho o
    have after := owed call
    rw [calls, ← h.owed call]
    omega
  submissions := fun call => by
    rw [calls]
    exact ((submissions call).trans_eq (submissions_complete hn ho o)).trans (h.submissions call)

theorem once_step {e : Event} (h : Once dec s) (hstep : step dec s e = some s') :
    Once dec s' := by
  obtain ⟨name, passphrase, polling, rfl, rfl⟩ |
    ⟨n, status, res, r, c, rfl, hn, ho, -, rfl⟩ | ⟨n, order, r, c, rfl, hn, ho, -, -, rfl⟩ :=
    step_cases hstep
  · exact h.send _
  · have hr := (h.pings r (List.mem_of_getElem? hn)).type_ne
    exact h.callback hn ho (pingsShaped_onSuccess (pingsShaped_complete h.pings hn _) _ _)
      (length_onSuccess _ _) (fun _ => owed_onSuccess _ _) fun _ => submissions_onSuccess _ _ hr
  · have hr := (h.pings r (List.mem_of_getElem? hn)).type_ne
    exact h.callback hn ho (pingsShaped_onError (pingsShaped_complete h.pings hn _) _)
      (length_onError _) (fun _ => by rw [owed_onError, Request.lost_error]; simp)
      fun _ => submissions_onError _ hr

theorem once_run {GATEWAYS : List String} (r : AnyRun (step dec) (initial GATEWAYS) s) :
    Once dec s :=
  r.invariant (once_initial GATEWAYS) fun _ _ _ h _ => once_step h

/-- A call of `send_query` submits its query at most once and calls its `cb` at most once,
and it has called it when its requests have completed and no answer was lost. -/
theorem at_most_one_submission {GATEWAYS : List String}
    (r : AnyRun (step dec) (initial GATEWAYS) s) {call : ℕ} (h : call < s.calls.length) :
    posts s call ≤ 1 ∧ answersTo s call ≤ 1 ∧
      ((∀ r ∈ s.requests, r.call = call → r.outcome.isSome ∧ ValidAnswer dec r) →
        answersTo s call = 1) := by
  have inv := once_run r
  have howed := inv.owed call
  have hsub := inv.submissions call
  rw [if_pos h] at howed hsub
  refine ⟨(posts_le_submissions s call).trans hsub,
    (answersTo_le_owed dec s call).trans_eq howed, fun done => ?_⟩
  have none_due : s.requests.countP (fun r => r.call == call && r.owes dec) = 0 := by
    refine List.countP_eq_zero.mpr fun r hr h => ?_
    simp only [Bool.and_eq_true, beq_iff_eq] at h
    obtain ⟨hsome, valid⟩ := done r hr h.1
    have hlost := valid.not_lost
    simp [Request.owes, hlost, Option.isNone_iff_eq_none] at h
    simp [h.2] at hsome
  rw [owed, none_due] at howed
  omega

/-- Two answers of the server and the passphrases they are encrypted with. -/
def sample_dec (answer passphrase : String) : Option String :=
  if (answer = "U2FsdGVkX1+9lyO1KCBTBQR3vX4NCEU5TxgpNBCPYBw=" ∧
      passphrase = "abcdefghabcdefghabcdefghabcdefgh") ∨
    (answer = "U2FsdGVkX18ZYVorWsT/PQ/EZdxcfU4qf1xGSrDNYuQ=" ∧
      passphrase = "ijklmnopijklmnopijklmnopijklmnop") then some "\"ok\"" else none

/-- Two calls run at the same time.  The intranet and a gateway fail for the first one,
which is answered over the other gateway.  The second one is answered over the intranet. -/
theorem at_most_one_submission_two_calls :
    ∃ s : State, (posts s 0 ≤ 1 ∧ answersTo s 0 ≤ 1 ∧
      ((∀ r ∈ s.requests, r.call = 0 → r.outcome.isSome ∧ ValidAnswer sample_dec r) →
        answersTo s 0 = 1)) ∧
      posts s 0 = 1 ∧ s.answers.map (fun a => (a.call, a.flag)) =
        [(1, Flag.SUCCESS_INTRANET), (0, .SUCCESS_INTERNET)] := by
  have hexec : (exec (step sample_dec) (fun _ _ => True) (initial ["a/", "b/"])
      [.send "info" "abcdefghabcdefghabcdefghabcdefgh" false,
        .send "info" "ijklmnopijklmnopijklmnopijklmnop" false,
        .error 0 ["b/", "a/"], .success 1 204 "", .error 2 ["b/", "a/"],
        .success 3 200 "U2FsdGVkX18ZYVorWsT/PQ/EZdxcfU4qf1xGSrDNYuQ=", .success 4 204 "",
        .success 5 200 "U2FsdGVkX1+9lyO1KCBTBQR3vX4NCEU5TxgpNBCPYBw="]).map
      (fun s => (s.calls.length, posts s 0, s.answers.map fun a => (a.call, a.flag))) =
      some (2, 1, [(1, Flag.SUCCESS_INTRANET), (0, .SUCCESS_INTERNET)]) := by
    decide +kernel
  obtain ⟨s, r, hs⟩ := exists_run_of_exec _ hexec
  obtain ⟨h, rest⟩ := Prod.mk.inj hs
  obtain ⟨hp, ha⟩ := Prod.mk.inj rest
  exact ⟨s, at_most_one_submission r (by omega), hp, ha⟩

end Once

end SchuleAlsStaat.SendQuery
