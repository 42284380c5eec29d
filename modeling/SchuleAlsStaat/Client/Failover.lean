import SchuleAlsStaat.Client.SendQuery

/-!
# Fail-over

A call that reports `ERROR` should have pinged every gateway.  It walks through
`GATEWAYS` by an index, and other calls sort this array in place.  A sort that moves a
gateway to a place that a waiting call has passed hides the gateway from that call, see
`sort_hides_gateway`.

`failover_complete` says that nothing else goes wrong.  As long as no sort does this, a
call reports `ERROR` only after the pings to the intranet server and to every gateway
have failed.
-/

namespace SchuleAlsStaat.SendQuery

open Js (Json)
open Runs (Run AnyRun exec exists_run_of_exec)

/-- The gateways of `api.js`. -/
def GATEWAYS : List String :=
  ["http://frankfurt.centralbank.eu:1230/", "http://amsterdam.centralbank.eu:1230/"]

/-- A ping that the call sent to a server came to an error. -/
def PingFailed (s : State) (call : ℕ) (URL : String) : Prop :=
  ∃ r ∈ s.requests, r.call = call ∧ r.type = "GET" ∧ r.url = URL ++ "ping/" ∧
    r.outcome = some .error

/-- Every call that reported `ERROR` has failed to reach every server. -/
def ErrorComplete (s : State) : Prop :=
  ∀ a ∈ s.answers, a.flag = .ERROR →
    PingFailed s a.call APIURL ∧ ∀ G ∈ s.GATEWAYS, PingFailed s a.call G

/-! ## Sorts while a call is waiting -/

/-- The call that waits for this ping to a gateway. -/
def gatewayCall? (s : State) (r : Request) : Option Call :=
  match r.outcome, r.callbacks with
  | none, .ping _ .gateway => s.calls[r.call]?
  | _, _ => none

/-- The calls that wait for a ping to a gateway. -/
def waiting (s : State) : List Call := s.requests.filterMap (gatewayCall? s)

/-- The new order of `GATEWAYS`, if they are sorted. -/
def sort? (s : State) : Event → Option (List String)
  | .error n order =>
      match request? s n with
      | some (r, _) =>
          match r.callbacks with
          | .ping _ .intranet => some order
          | _ => none
      | none => none
  | _ => none

/-- A sort moves no gateway to a place that a waiting call has passed. -/
def KeepsPassed (s : State) (e : Event) : Prop :=
  ∀ order ∈ sort? s e, ∀ c ∈ waiting s, ∀ G ∈ order.take c.gwidx, G ∈ s.GATEWAYS.take c.gwidx

instance (s : State) (e : Event) : Decidable (KeepsPassed s e) :=
  inferInstanceAs (Decidable (∀ order ∈ sort? s e, _))

/-! ## The open requests of a call -/

section Open

variable {dec : String → String → Option String} {s s' : State} {r : Request} {n : ℕ}

theorem owed_pos (hn : s.requests[n]? = some r) (ho : r.outcome = none) :
    0 < owed dec s r.call := by
  have pos := Calls.countP_pos_of_getElem? (p := fun q => q.call == r.call && q.owes dec) hn
    (by simp [Request.owes, ho])
  exact Nat.add_pos_left pos _

/-- An open request belongs to a call that was made. -/
theorem Once.call_lt (h : Once dec s) (hn : s.requests[n]? = some r) (ho : r.outcome = none) :
    r.call < s.calls.length := by
  have pos := @owed_pos dec s r n hn ho
  rw [h.owed] at pos
  by_contra hlt
  rw [if_neg hlt] at pos
  cases pos

/-- A call has one open request at a time. -/
theorem Once.open_unique {m : ℕ} {q : Request} (h : Once dec s) (hn : s.requests[n]? = some r)
    (ho : r.outcome = none) (hm : s.requests[m]? = some q) (hq : q.outcome = none)
    (ne : m ≠ n) : q.call ≠ r.call := by
  intro hcall
  have done := @owed_complete dec s r n r.call hn ho .error
  rw [Request.lost_error, h.owed, if_pos (h.call_lt hn ho)] at done
  have still : (s.complete n r .error).requests[m]? = some q := by
    rw [State.complete, List.getElem?_set_ne (Ne.symm ne)]
    exact hm
  have pos := @owed_pos dec _ q m still hq
  rw [hcall] at pos
  simp at done
  omega

end Open

/-! ## What a waiting call has tried -/

section Covered

variable {dec : String → String → Option String} {s s' : State} {r : Request} {n : ℕ}
  {o : Outcome} {new : List Request} {answers : List Answer}

/-- The servers before the index of a call have failed for it, apart from the one that it
is waiting for. -/
structure Tried (s : State) (call gwidx : ℕ) (URL : String) : Prop where
  intranet : PingFailed s call APIURL
  gateways : ∀ G ∈ s.GATEWAYS.take gwidx, PingFailed s call G ∨ G = URL

/-- The invariant of the runs in which no sort hides a gateway. -/
structure Covered (dec : String → String → Option String) (s : State) : Prop where
  once : Once dec s
  tried : ∀ n r c URL, request? s n = some (r, c) → r.callbacks = .ping URL .gateway →
    Tried s r.call c.gwidx URL
  reported : ErrorComplete s

/-- A callback has run: its request has come to `o`, and the callback made requests and
called `cb`. -/
structure Ran (s : State) (n : ℕ) (r : Request) (o : Outcome) (new : List Request)
    (answers : List Answer) (s' : State) : Prop where
  requests : s'.requests = (s.complete n r o).requests ++ new
  answers : s'.answers = s.answers ++ answers
  calls : ∀ k, k ≠ r.call → s'.calls[k]? = s.calls[k]?

theorem PingFailed.mono {call : ℕ} {URL : String} (h : PingFailed s call URL)
    (keep : ∀ q ∈ s.requests, q.outcome ≠ none → q ∈ s'.requests) : PingFailed s' call URL := by
  obtain ⟨q, hq, hcall, htype, hurl, ho⟩ := h
  exact ⟨q, keep q hq (by simp [ho]), hcall, htype, hurl, ho⟩

theorem Ran.keep (h : Ran s n r o new answers s') (hn : s.requests[n]? = some r)
    (ho : r.outcome = none) : ∀ q ∈ s.requests, q.outcome ≠ none → q ∈ s'.requests := by
  intro q hq hne
  rw [h.requests]
  refine List.mem_append_left _ (Calls.mem_set_of_ne _ hn hq ?_)
  rintro rfl
  exact hne ho

/-- A request that is open after the callback was open before or is new. -/
theorem Ran.request? {m : ℕ} {q : Request} {c : Call} (h : Ran s n r o new answers s')
    (once : Once dec s) (hn : s.requests[n]? = some r) (ho : r.outcome = none)
    (hm : request? s' m = some (q, c)) :
    request? s m = some (q, c) ∨ q ∈ new ∧ s'.calls[q.call]? = some c := by
  obtain ⟨hq, hopen, hc⟩ := request?_eq_some hm
  rw [h.requests, State.complete] at hq
  by_cases hlt : m < s.requests.length
  · left
    rw [List.getElem?_append_left (by simpa using hlt)] at hq
    have hne : n ≠ m := by
      rintro rfl
      rw [List.getElem?_set_self hlt] at hq
      cases hq
      cases hopen
    rw [List.getElem?_set_ne hne] at hq
    rw [h.calls _ (once.open_unique hn ho hq hopen hne.symm)] at hc
    simp [SendQuery.request?, hq, hopen, hc]
  · right
    rw [List.getElem?_append_right (by simpa using hlt)] at hq
    exact ⟨List.mem_of_getElem? hq, hc⟩

/-- The invariant survives a callback if it holds for what the callback adds and if a sort
keeps what the waiting calls have passed. -/
theorem Covered.ran (h : Covered dec s) (hn : s.requests[n]? = some r) (ho : r.outcome = none)
    (ran : Ran s n r o new answers s') (once : Once dec s')
    (passed : ∀ m q c URL, SendQuery.request? s m = some (q, c) →
      q.callbacks = .ping URL .gateway →
      ∀ G ∈ s'.GATEWAYS.take c.gwidx, G ∈ s.GATEWAYS.take c.gwidx)
    (sorted : ∀ G ∈ s'.GATEWAYS, G ∈ s.GATEWAYS)
    (requests : ∀ q ∈ new, ∀ c URL, s'.calls[q.call]? = some c →
      q.callbacks = .ping URL .gateway → Tried s' q.call c.gwidx URL)
    (reports : ∀ a ∈ answers, a.flag = .ERROR →
      PingFailed s' a.call APIURL ∧ ∀ G ∈ s'.GATEWAYS, PingFailed s' a.call G) :
    Covered dec s' where
  once := once
  tried := fun m q c URL hm hq => by
    rcases ran.request? h.once hn ho hm with hm | ⟨hnew, hc⟩
    · obtain ⟨intranet, gateways⟩ := h.tried m q c URL hm hq
      refine ⟨intranet.mono (ran.keep hn ho), fun G hG => ?_⟩
      exact (gateways G (passed m q c URL hm hq G hG)).imp_left fun hf =>
        hf.mono (ran.keep hn ho)
    · exact requests q hnew c URL hc hq
  reported := by
    rw [ErrorComplete, ran.answers]
    refine Calls.forall_mem_append (fun a ha hflag => ?_) reports
    obtain ⟨intranet, gateways⟩ := h.reported a ha hflag
    exact ⟨intranet.mono (ran.keep hn ho),
      fun G hG => (gateways G (sorted G hG)).mono (ran.keep hn ho)⟩

/-- A ping that has come to an error has failed. -/
theorem Ran.pingFailed {URL : String} {error_cb : ErrorCb}
    (h : Ran s n r .error new answers s') (once : Once dec s) (hn : s.requests[n]? = some r)
    (hr : r.callbacks = .ping URL error_cb) : PingFailed s' r.call URL := by
  obtain ⟨htype, hurl, -⟩ := once.pings r (List.mem_of_getElem? hn) URL error_cb hr
  refine ⟨{ r with outcome := some .error }, ?_, rfl, htype, hurl, rfl⟩
  rw [h.requests]
  exact List.mem_append_left _ (Calls.mem_set_self _ hn)

/-- The ping that `next` sends. -/
def gatewayPing (order : List String) (call : ℕ) (c : Call) : Request where
  call := call
  type := "GET"
  url := elem order c.gwidx ++ "ping/"
  timeout := TIMEOUT_INTERNET
  callbacks := .ping (elem order c.gwidx) .gateway

/-- What `next` does after a ping has failed. -/
theorem ran_next (order : List String) (c : Call) :
    Ran s n r .error [gatewayPing order r.call c] []
      (next { (s.complete n r .error) with GATEWAYS := order } r.call c) where
  requests := rfl
  answers := (List.append_nil _).symm
  calls := fun _ hk => List.getElem?_set_ne hk.symm

theorem mem_take_succ {l : List String} {i : ℕ} {G : String} (h : G ∈ l.take (i + 1)) :
    G ∈ l.take i ∨ G = elem l i := by
  rw [List.take_add_one, List.mem_append] at h
  refine h.imp_right fun h => ?_
  rw [Option.mem_toList] at h
  rw [elem, h, Option.getD_some]

/-- The callback `success` pings no gateway and does not report `ERROR`. -/
theorem onSuccess_ran (c : Call) (status : ℕ) (res : String) :
    ∃ new answers, Ran s n r o new answers (onSuccess dec (s.complete n r o) r c status res) ∧
      (onSuccess dec (s.complete n r o) r c status res).GATEWAYS = s.GATEWAYS ∧
      (∀ q ∈ new, ∃ URL passphrase, q.callbacks = .perform URL passphrase) ∧
      ∀ a ∈ answers, a.flag ≠ .ERROR := by
  have quiet : ∀ call value flag, flag ≠ .ERROR → ∀ a ∈ [(⟨call, value, flag⟩ : Answer)],
      a.flag ≠ .ERROR := fun _ _ _ hne a ha => by
    rw [List.mem_singleton.mp ha]
    exact hne
  unfold onSuccess
  split
  next URL _ _ =>
    split
    · exact ⟨[], [_], ⟨(List.append_nil _).symm, rfl, fun _ _ => rfl⟩, rfl, by simp,
        quiet _ _ _ (by decide)⟩
    · exact ⟨[_], [], ⟨rfl, (List.append_nil _).symm, fun _ _ => rfl⟩, rfl,
        fun q hq => ⟨URL, c.passphrase, by rw [List.mem_singleton.mp hq]⟩, by simp⟩
  next URL passphrase =>
    dsimp only
    split
    · exact ⟨[], [_], ⟨(List.append_nil _).symm, rfl, fun _ _ => rfl⟩, rfl, by simp,
        quiet _ _ _ (by decide)⟩
    · split
      · refine ⟨[], [_], ⟨(List.append_nil _).symm, rfl, fun _ _ => rfl⟩, rfl, by simp,
          quiet _ _ _ ?_⟩
        split <;> decide
      · exact ⟨[], [], ⟨(List.append_nil _).symm, (List.append_nil _).symm, fun _ _ => rfl⟩, rfl,
          by simp, by simp⟩

theorem covered_initial (G : List String) : Covered dec (initial G) where
  once := once_initial G
  tried := fun _ _ _ _ h => by cases h
  reported := fun _ h => by cases h

/-- A new call waits for the intranet server. -/
theorem Covered.send (h : Covered dec s) (c : Call) :
    Covered dec (ping_and_perform { s with calls := s.calls ++ [c] } s.calls.length APIURL
      TIMEOUT_INTRANET .intranet) where
  once := h.once.send c
  tried := fun m q c' URL hm hq => by
    obtain ⟨hget, hopen, hc⟩ := request?_eq_some hm
    simp only [ping_and_perform, State.ajax] at hget hc
    by_cases hlt : m < s.requests.length
    · rw [List.getElem?_append_left hlt] at hget
      rw [List.getElem?_append_left (h.once.call_lt hget hopen)] at hc
      obtain ⟨intranet, gateways⟩ := h.tried m q c' URL (by simp [request?, hget, hopen, hc]) hq
      exact ⟨intranet.mono fun q hq _ => List.mem_append_left _ hq, fun G hG =>
        (gateways G hG).imp_left fun hf => hf.mono fun q hq _ => List.mem_append_left _ hq⟩
    · rw [List.getElem?_append_right (by simpa using hlt)] at hget
      rw [List.mem_singleton.mp (List.mem_of_getElem? hget)] at hq
      cases hq
  reported := fun a ha hflag => by
    obtain ⟨intranet, gateways⟩ := h.reported a ha hflag
    exact ⟨intranet.mono fun q hq _ => List.mem_append_left _ hq, fun G hG =>
      (gateways G hG).mono fun q hq _ => List.mem_append_left _ hq⟩

/-- A success leaves the fail-over of all calls as it was. -/
theorem Covered.success {c : Call} {status : ℕ} {res : String} (h : Covered dec s)
    (hn : s.requests[n]? = some r) (ho : r.outcome = none)
    (once : Once dec (onSuccess dec (s.complete n r o) r c status res)) :
    Covered dec (onSuccess dec (s.complete n r o) r c status res) := by
  obtain ⟨new, answers, ran, hG, hnew, hans⟩ := @onSuccess_ran dec s r n o c status res
  refine h.ran hn ho ran once (fun _ _ _ _ _ _ => ?_) (fun _ => ?_) ?_ ?_
  · rw [hG]
    exact fun _ hG => hG
  · rw [hG]
    exact fun hG => hG
  · intro q hq c URL _ hgateway
    obtain ⟨URL', passphrase, hperform⟩ := hnew q hq
    rw [hperform] at hgateway
    cases hgateway
  · exact fun a ha hflag => absurd hflag (hans a ha)

/-- The callback of a failed ping goes on to the gateway at the index of its call. -/
theorem Covered.next {c : Call} {URL : String} {error_cb : ErrorCb} {order : List String}
    (h : Covered dec s) (hn : s.requests[n]? = some r) (ho : r.outcome = none)
    (hr : r.callbacks = .ping URL error_cb)
    (once : Once dec (next { (s.complete n r .error) with GATEWAYS := order } r.call c))
    (passed : ∀ m q c URL, SendQuery.request? s m = some (q, c) →
      q.callbacks = .ping URL .gateway → ∀ G ∈ order.take c.gwidx, G ∈ s.GATEWAYS.take c.gwidx)
    (sorted : ∀ G ∈ order, G ∈ s.GATEWAYS)
    (intranet : error_cb = .intranet ∨ PingFailed s r.call APIURL)
    (gateways : ∀ G ∈ order.take c.gwidx, PingFailed s r.call G ∨ G = URL) :
    Covered dec (SendQuery.next { (s.complete n r .error) with GATEWAYS := order } r.call c) := by
  have ran := @ran_next s r n order c
  have hshape := h.once.pings r (List.mem_of_getElem? hn) URL error_cb hr
  have failed := ran.pingFailed h.once hn hr
  refine h.ran hn ho ran once passed sorted (fun q hq c' URL' hc' hURL => ?_) (by simp)
  rw [List.mem_singleton.mp hq] at hc' hURL ⊢
  cases hURL
  have hlt := h.once.call_lt hn ho
  have hidx : c'.gwidx = c.gwidx + 1 := by
    have hc' : (s.calls.set r.call { c with gwidx := c.gwidx + 1 })[r.call]? = some c' := hc'
    rw [List.getElem?_set_self hlt] at hc'
    cases hc'
    rfl
  refine ⟨?_, fun G hG => ?_⟩
  · rcases intranet with hi | hi
    · rw [← hshape.2.2 hi]
      exact failed
    · exact hi.mono (ran.keep hn ho)
  · rw [hidx] at hG
    refine (mem_take_succ hG).imp_left fun hG => ?_
    rcases gateways G hG with hG | rfl
    · exact hG.mono (ran.keep hn ho)
    · exact failed

/-- A request without a further request: its callback calls `cb`. -/
theorem Covered.cb {value : Json} {flag : Flag} (h : Covered dec s)
    (hn : s.requests[n]? = some r) (ho : r.outcome = none)
    (once : Once dec ((s.complete n r o).cb r.call value flag))
    (reports : flag = .ERROR → PingFailed ((s.complete n r o).cb r.call value flag) r.call APIURL ∧
      ∀ G ∈ s.GATEWAYS, PingFailed ((s.complete n r o).cb r.call value flag) r.call G) :
    Covered dec ((s.complete n r o).cb r.call value flag) := by
  have ran : Ran s n r o [] [⟨r.call, value, flag⟩] ((s.complete n r o).cb r.call value flag) :=
    ⟨(List.append_nil _).symm, rfl, fun _ _ => rfl⟩
  refine h.ran hn ho ran once (fun _ _ _ _ _ _ _ hG => hG) (fun _ hG => hG) (by simp) ?_
  intro a ha hflag
  rw [List.mem_singleton.mp ha] at hflag ⊢
  exact reports hflag

theorem mem_waiting {m : ℕ} {q : Request} {c : Call} {URL : String}
    (h : request? s m = some (q, c)) (hq : q.callbacks = .ping URL .gateway) : c ∈ waiting s := by
  obtain ⟨hget, hopen, hc⟩ := request?_eq_some h
  refine List.mem_filterMap.mpr ⟨q, List.mem_of_getElem? hget, ?_⟩
  simp [gatewayCall?, hopen, hq, hc]

/-- A failed request passes on the fail-over of its call, if the sort keeps what the
waiting calls have passed. -/
theorem Covered.error {c : Call} {order : List String} (h : Covered dec s)
    (hn : s.requests[n]? = some r) (ho : r.outcome = none) (hc : s.calls[r.call]? = some c)
    (perm : order.Perm s.GATEWAYS) (passed : KeepsPassed s (.error n order))
    (once : Once dec (onError (s.complete n r .error) r c order)) :
    Covered dec (onError (s.complete n r .error) r c order) := by
  have hrequest : request? s n = some (r, c) := by simp [request?, hn, ho, hc]
  cases hr : r.callbacks with
  | ping URL error_cb =>
      cases error_cb with
      | intranet =>
          simp only [onError, hr] at once ⊢
          have hsort : sort? s (.error n order) = some order := by simp [sort?, hrequest, hr]
          refine h.next hn ho hr once (fun m q c' URL' hm hq G hG => ?_)
            (fun G hG => perm.mem_iff.mp hG) (.inl rfl) (by simp)
          exact passed order hsort c' (mem_waiting hm hq) G hG
      | gateway =>
          obtain ⟨intranet, gateways⟩ := h.tried n r c URL hrequest hr
          simp only [onError, hr] at once ⊢
          split at once
          next hlt =>
            rw [if_pos hlt]
            exact h.next hn ho hr once (fun _ _ _ _ _ _ _ hG => hG) (fun _ hG => hG)
              (.inr intranet) gateways
          next hlt =>
            rw [if_neg hlt]
            refine h.cb hn ho once fun _ => ?_
            have ran : Ran s n r .error [] [⟨r.call, .null, .ERROR⟩]
                ((s.complete n r .error).cb r.call .null .ERROR) :=
              ⟨(List.append_nil _).symm, rfl, fun _ _ => rfl⟩
            refine ⟨intranet.mono (ran.keep hn ho), fun G hG => ?_⟩
            rw [List.take_of_length_le (by simpa [State.complete] using hlt)] at gateways
            rcases gateways G hG with hG | rfl
            · exact hG.mono (ran.keep hn ho)
            · exact ran.pingFailed h.once hn hr
  | perform URL passphrase =>
      simp only [onError, hr] at once ⊢
      exact h.cb hn ho once fun hflag => by cases hflag

theorem covered_step {e : Event} (h : Covered dec s) (passed : KeepsPassed s e)
    (hstep : step dec s e = some s') : Covered dec s' := by
  have once := once_step h.once hstep
  obtain ⟨name, passphrase, polling, rfl, rfl⟩ |
    ⟨n, status, res, r, c, rfl, hn, ho, -, rfl⟩ | ⟨n, order, r, c, rfl, hn, ho, hc, perm, rfl⟩ :=
    step_cases hstep
  · exact h.send _
  · exact h.success hn ho once
  · exact h.error hn ho hc perm passed once

/-- As long as no sort moves a gateway to a place that a waiting call has passed, a call
reports `ERROR` only if its pings to the intranet server and to every gateway have failed. -/
theorem failover_complete {G : List String} (r : Run (step dec) KeepsPassed (initial G) s) :
    ErrorComplete s :=
  (r.invariant (covered_initial G) fun _ _ _ => covered_step).reported

/-- Two calls sort the gateways while the other one waits and both report `ERROR`. -/
theorem failover_complete_two_calls : ∃ s, ErrorComplete s ∧
    s.answers.map (fun a => (a.call, a.flag)) = [(0, Flag.ERROR), (1, .ERROR)] := by
  have hexec : (exec (step sample_dec) KeepsPassed (initial GATEWAYS)
      [.send "info" "abcdefghabcdefghabcdefghabcdefgh" false,
        .send "info" "ijklmnopijklmnopijklmnopijklmnop" false,
        .error 0 GATEWAYS, .error 2 GATEWAYS, .error 1 GATEWAYS.reverse,
        .error 3 GATEWAYS, .error 4 GATEWAYS, .error 5 GATEWAYS]).map
      (fun s => s.answers.map fun a => (a.call, a.flag)) =
      some [(0, Flag.ERROR), (1, .ERROR)] := by
    decide +kernel
  obtain ⟨s, r, hs⟩ := exists_run_of_exec _ hexec
  exact ⟨s, failover_complete r, hs⟩

/-- The second call moves the gateway that the first call waits for to the end.  The first
call pings it again, does not ping the other gateway and reports `ERROR`. -/
theorem sort_hides_gateway : ∃ s, AnyRun (step sample_dec) (initial GATEWAYS) s ∧
    ¬ ErrorComplete s := by
  have hexec : (exec (step sample_dec) (fun _ _ => True) (initial GATEWAYS)
      [.send "info" "abcdefghabcdefghabcdefghabcdefgh" false,
        .send "info" "ijklmnopijklmnopijklmnopijklmnop" false,
        .error 0 GATEWAYS, .error 1 GATEWAYS.reverse, .error 2 GATEWAYS, .error 4 GATEWAYS]).map
      (fun s => (s.answers.map fun a => (a.call, a.flag), s.GATEWAYS,
        s.requests.filterMap fun r => if r.call = 0 then some r.url else none)) =
      some ([(0, Flag.ERROR)], GATEWAYS.reverse, [APIURL ++ "ping/",
        "http://frankfurt.centralbank.eu:1230/ping/",
        "http://frankfurt.centralbank.eu:1230/ping/"]) := by
    decide +kernel
  obtain ⟨s, r, hs⟩ := exists_run_of_exec _ hexec
  obtain ⟨hanswers, rest⟩ := Prod.mk.inj hs
  obtain ⟨hG, hurls⟩ := Prod.mk.inj rest
  refine ⟨s, r, fun complete => ?_⟩
  obtain ⟨a, ha, heq⟩ : ∃ a ∈ s.answers, (a.call, a.flag) = (0, Flag.ERROR) :=
    List.mem_map.mp (hanswers ▸ List.mem_singleton_self _)
  obtain ⟨hcall, hflag⟩ := Prod.mk.inj heq
  obtain ⟨q, hq, hqcall, -, hurl, -⟩ :=
    (complete a ha hflag).2 "http://amsterdam.centralbank.eu:1230/" (by rw [hG]; decide)
  have hmem : q.url ∈ s.requests.filterMap fun r => if r.call = 0 then some r.url else none :=
    List.mem_filterMap.mpr ⟨q, hq, by rw [if_pos (hqcall.trans hcall)]⟩
  rw [hurls, hurl] at hmem
  revert hmem
  decide +kernel

end Covered

end SchuleAlsStaat.SendQuery
