import SchuleAlsStaat.Js.Value
import SchuleAlsStaat.Lib.Calls
import SchuleAlsStaat.Lib.Runs
import Mathlib.Data.List.Nodup

/-!
# Transaction tables

The tables of the clients `business` and `adminpanel`, from which a list of transactions
is sent to the API.  The two clients differ in `makeTransaction` and in a check when
"start" is pressed.

When "start" is pressed, a pending row gets a request.  The request is posted to the API
later, once the certificate is read and a server has answered to a ping, or it fails
before.  It holds the index that its row had when "start" was pressed, and its callback
writes the answer into whatever row stands at this index then.

A row also carries a ghost `id` for the object itself, which its request keeps.  The ghost
`period` counts how often a row has been set to pending, and a request that is posted keeps
the period of its row at that time.

`render_transactions` only displays the rows.  A list that is uploaded holds objects.
-/

namespace SchuleAlsStaat.TransactionTable

open Js (Exn Json JsVal)

/-! ## Rows -/

/-- The properties of an object. -/
abbrev Fields := List (String × Json)

namespace Fields

/-- `delete o[key]`. -/
def delete (key : String) (o : Fields) : Fields := o.filter fun f => f.1 ≠ key

/-- `o[key] = v`. -/
def set (key : String) (v : Json) (o : Fields) : Fields := o.delete key ++ [(key, v)]

/-- `o[key] = v`.  `JSON.stringify` leaves an undefined property out. -/
def assign (key : String) (v : JsVal) (o : Fields) : Fields :=
  match v with
  | some v => o.set key v
  | none => o.delete key

theorem field_set (key : String) (v : Json) (o : Fields) :
    Json.field key (o.set key v) = some v := by
  simp [Json.field, set, List.reverse_append]

theorem field_set_ne {key key' : String} (v : Json) (o : Fields) (h : key' ≠ key) :
    Json.field key (o.set key' v) = Json.field key o := by
  have hne : (key' == key) = false := by simpa using h
  simp only [Json.field, set, delete, List.reverse_append, List.reverse_singleton,
    List.singleton_append, List.find?_cons, hne]
  rw [← List.filter_reverse, List.find?_filter]
  congr 2
  funext f
  by_cases hf : f.1 = key
  · simp [hf, h.symm]
  · simp [hf]

end Fields

structure Row where
  /-- Ghost: the object. -/
  id : ℕ
  tr : Fields

namespace Row

def setState (state : String) (row : Row) : Row :=
  { row with tr := row.tr.set "state" (.str state) }

/-- `tr.state == "pending"`. -/
def pending (row : Row) : Except Exn Bool := (Json.field "state" row.tr).looseEq "pending"

/-- What the callback of a request does with a row.  The answer of an action is a text,
and `none` is the `null` of a request that failed. -/
def report (res : Option String) (row : Row) : Row :=
  if res = some "ok" then row.setState "complete"
  else
    let row := row.setState "error"
    { row with tr := row.tr.set "errorcode" ((res.map Json.str).getD .null) }

@[simp] theorem setState_id (state : String) (row : Row) : (row.setState state).id = row.id := rfl

@[simp] theorem report_id (res : Option String) (row : Row) : (row.report res).id = row.id := by
  unfold report
  split <;> rfl

theorem pending_setState {state : String} (row : Row) (h : state ≠ "pending") :
    (row.setState state).pending = .ok false := by
  simp [pending, setState, Fields.field_set, JsVal.looseEq, h]

/-- An answered row is not pending. -/
theorem pending_report (res : Option String) (row : Row) : (row.report res).pending = .ok false := by
  unfold report
  split
  · exact row.pending_setState (by decide)
  · have h : (row.setState "error").pending = .ok false := row.pending_setState (by decide)
    rw [pending] at h ⊢
    rw [← h]
    exact congrArg (JsVal.looseEq · "pending") (Fields.field_set_ne _ _ (by decide))

end Row

/-- The new object of `addCleanTransaction`, without null and undefined properties. -/
def addCleanTransaction (tr : List (String × JsVal)) : Fields :=
  tr.filterMap fun f => match f.2 with
    | none | some .null => none
    | some v => some (f.1, v)

/-! ## `makeTransaction` -/

/-- What `makeTransaction` does with its copy of a row. -/
inductive Effect where
  /-- It calls `action` or `action_mastercert`. -/
  | action (name : String) (query : Fields)
  /-- It alerts that no certificate is chosen. -/
  | alert
  /-- It sets the state of the row to "nonsense". -/
  | nonsense
  | throws

/-- `makeTransaction` of `business`.  `cert` says that a taxfree certificate is chosen. -/
def Business.makeTransaction (cert : Bool) (trquery : Fields) : Effect :=
  let trquery := trquery.delete "state"
  match Json.field "amount" trquery with
  | some amount =>
      if !cert then .alert
      else .action "transaction_taxfree" ((trquery.set "amount_sent" amount).delete "amount")
  | none => .action "transaction" trquery

/-- `if (key in trquery) trquery[key] = trquery[key].qrid`. -/
def AdminPanel.toQrid (key : String) (trquery : Fields) : Except Exn Fields :=
  match Json.field key trquery with
  | some v => return trquery.assign key (← v.prop "qrid")
  | none => return trquery

def AdminPanel.isDefault (trquery : Fields) : Except Exn Bool :=
  (Json.field "tax_percent" trquery).looseEq "default"

/-- `makeTransaction` of `adminpanel`. -/
def AdminPanel.makeTransaction (trquery : Fields) : Effect :=
  let spawn_money := (Json.field "spawn_money" trquery).truthy
  let destroy_money := (Json.field "destroy_money" trquery).truthy
  if spawn_money && destroy_money then .nonsense
  else
    let trquery := ((trquery.delete "spawn_money").delete "destroy_money").delete "state"
    match toQrid "recipient" trquery >>= toQrid "sender" with
    | .error _ => .throws
    | .ok trquery =>
        if spawn_money then .action "spawn_money" trquery
        else if destroy_money then .action "destroy_money" trquery
        else match isDefault trquery with
          | .ok true => .action "master_transaction" (trquery.delete "tax_percent")
          | .ok false => .action "master_transaction" trquery
          | .error _ => .throws

/-- The two clients with a table. -/
inductive App where
  | business
  | adminpanel

def makeTransaction : App → Bool → Fields → Effect
  | .business, cert => Business.makeTransaction cert
  | .adminpanel, _ => AdminPanel.makeTransaction

/-- `adminpanel` does not start without the master certificate. -/
def mayStart : App → Bool → Bool
  | .business, _ => true
  | .adminpanel, cert => cert

/-! ## The page -/

/-- An action that was called for a row. -/
structure Request where
  /-- Ghost: the row. -/
  row : ℕ
  tid : ℕ
  name : String
  query : Fields
  /-- Whether it was posted.  Ghost: in which period of the row. -/
  posted : Option ℕ
  answered : Bool

structure State where
  transactions : List Row
  requests : List Request
  /-- The start button is disabled. -/
  disabled : Bool
  /-- A number that no row has yet. -/
  fresh : ℕ
  /-- Ghost: how often a row has been set to pending after it came into the table. -/
  period : ℕ → ℕ

def initial : State := ⟨[], [], false, 0, fun _ => 0⟩

namespace State

def setState (s : State) (tid : ℕ) (state : String) : State :=
  { s with transactions := s.transactions.modify tid (Row.setState state) }

def submit (s : State) (row : Row) (tid : ℕ) (name : String) (query : Fields) : State :=
  { s with requests := s.requests ++ [⟨row.id, tid, name, query, none, false⟩] }

/-- The periods after all rows of the table were set to pending. -/
def nextPeriod (s : State) (id : ℕ) : ℕ :=
  if id ∈ s.transactions.map Row.id then s.period id + 1 else s.period id

end State

/-- What happens on the page. -/
inductive Event where
  /-- The new transaction, without its state. -/
  | add (tr : List (String × JsVal))
  | delete (listid : ℕ)
  /-- `cert`: the certificate that the client asks for is chosen.  `renders`:
  `render_transactions` can display the rows. -/
  | start (cert renders : Bool)
  /-- The start button was disabled for a second. -/
  | enable
  | upload (list : List Fields)
  | make_pending
  /-- The `n`-th request is posted to the API. -/
  | post (n : ℕ)
  /-- The callback of the `n`-th request runs.  A request that was not posted has no answer
  but `null`. -/
  | response (n : ℕ) (res : Option String)

/-- The loop of the start button, from index `i`.  An exception ends it. -/
def startFrom (app : App) (cert renders : Bool) (i : ℕ) : List Row → State → State
  | [], s => s
  | row :: rest, s =>
      match row.pending with
      | .error _ => s
      | .ok false => startFrom app cert renders (i + 1) rest s
      | .ok true =>
          match makeTransaction app cert row.tr with
          | .action name query =>
              startFrom app cert renders (i + 1) rest (s.submit row i name query)
          | .alert => startFrom app cert renders (i + 1) rest s
          | .nonsense =>
              let s := s.setState i "nonsense"
              if renders then startFrom app cert renders (i + 1) rest s else s
          | .throws => s

/-- The object of a new row. -/
def newTransaction (tr : List (String × JsVal)) : Fields :=
  addCleanTransaction (tr ++ [("state", some (.str "pending"))])

def step (app : App) (s : State) : Event → Option State
  | .add tr => some { s with
      transactions := s.transactions ++ [⟨s.fresh, newTransaction tr⟩]
      fresh := s.fresh + 1 }
  | .delete listid => some { s with transactions := s.transactions.eraseIdx listid }
  | .start cert renders =>
      if s.disabled then none
      else
        let s := { s with disabled := true }
        some (if mayStart app cert then startFrom app cert renders 0 s.transactions s else s)
  | .enable => if s.disabled then some { s with disabled := false } else none
  | .upload list => some { s with
      transactions := list.mapIdx fun i tr => ⟨s.fresh + i, tr⟩
      fresh := s.fresh + list.length }
  | .make_pending => some { s with
      transactions := s.transactions.map (Row.setState "pending")
      period := s.nextPeriod }
  | .post n =>
      match s.requests[n]? with
      | some q =>
          if q.answered || q.posted.isSome then none
          else some { s with
            requests := s.requests.set n { q with posted := some (s.period q.row) } }
      | none => none
  | .response n res =>
      match s.requests[n]? with
      | some q =>
          if q.answered || (q.posted.isNone && res.isSome) then none
          else some { s with
            transactions := s.transactions.modify q.tid (Row.report res)
            requests := s.requests.set n { q with answered := true } }
      | none => none

/-- What a step does, event by event. -/
inductive Step (app : App) (s : State) : Event → State → Prop where
  | add (tr : List (String × JsVal)) : Step app s (.add tr) { s with
      transactions := s.transactions ++ [⟨s.fresh, newTransaction tr⟩]
      fresh := s.fresh + 1 }
  | delete (listid : ℕ) :
      Step app s (.delete listid) { s with transactions := s.transactions.eraseIdx listid }
  | start (cert renders : Bool) : s.disabled = false → mayStart app cert = true →
      Step app s (.start cert renders)
        (startFrom app cert renders 0 s.transactions { s with disabled := true })
  | refuse (cert renders : Bool) : s.disabled = false → mayStart app cert = false →
      Step app s (.start cert renders) { s with disabled := true }
  | enable : s.disabled = true → Step app s .enable { s with disabled := false }
  | upload (list : List Fields) : Step app s (.upload list) { s with
      transactions := list.mapIdx fun i tr => ⟨s.fresh + i, tr⟩
      fresh := s.fresh + list.length }
  | make_pending : Step app s .make_pending { s with
      transactions := s.transactions.map (Row.setState "pending")
      period := s.nextPeriod }
  | post {n : ℕ} {q : Request} : s.requests[n]? = some q → q.answered = false →
      q.posted = none → Step app s (.post n) { s with
        requests := s.requests.set n { q with posted := some (s.period q.row) } }
  | response {n : ℕ} {q : Request} (res : Option String) : s.requests[n]? = some q →
      q.answered = false → (q.posted = none → res = none) → Step app s (.response n res) { s with
        transactions := s.transactions.modify q.tid (Row.report res)
        requests := s.requests.set n { q with answered := true } }

theorem step_cases {app : App} {s s' : State} {e : Event} (h : step app s e = some s') :
    Step app s e s' := by
  cases e with
  | add tr =>
      obtain rfl := Option.some.inj h
      exact .add tr
  | delete listid =>
      obtain rfl := Option.some.inj h
      exact .delete listid
  | start cert renders =>
      simp only [step] at h
      split at h
      next => cases h
      next hd =>
        obtain rfl := Option.some.inj h
        have hd : s.disabled = false := by simpa using hd
        split
        next hm => exact .start cert renders hd hm
        next hm => exact .refuse cert renders hd (by simpa using hm)
  | enable =>
      simp only [step] at h
      split at h
      next hd =>
        obtain rfl := Option.some.inj h
        exact .enable hd
      next => cases h
  | upload list =>
      obtain rfl := Option.some.inj h
      exact .upload list
  | make_pending =>
      obtain rfl := Option.some.inj h
      exact .make_pending
  | post n =>
      simp only [step] at h
      split at h
      next q hq =>
        split at h
        next => cases h
        next ha =>
          obtain rfl := Option.some.inj h
          simp only [Bool.or_eq_true, not_or, Bool.not_eq_true, Option.isSome_eq_false_iff,
            Option.isNone_iff_eq_none] at ha
          exact .post hq ha.1 ha.2
      next => cases h
  | response n res =>
      simp only [step] at h
      split at h
      next q hq =>
        split at h
        next => cases h
        next ha =>
          obtain rfl := Option.some.inj h
          simp only [Bool.or_eq_true, Bool.and_eq_true, not_or, not_and, Bool.not_eq_true,
            Option.isNone_iff_eq_none, Option.isSome_eq_false_iff] at ha
          exact .response res hq ha.1 ha.2
      next => cases h

/-! ## The loop of the start button -/

section Start

variable {app : App} {cert renders : Bool}

/-- The loop rule.  What holds at an index and survives a row that is passed over, sent or
found to be nonsense holds when the loop ends. -/
theorem startFrom_rule {P : ℕ → State → Prop}
    (skip : ∀ i s, P i s → P (i + 1) s)
    (submit : ∀ i s row name query, s.transactions[i]? = some row → row.pending = .ok true →
      P i s → P (i + 1) (s.submit row i name query))
    (nonsense : ∀ i s, P i s → P (i + 1) (s.setState i "nonsense")) :
    ∀ (rest : List Row) (i : ℕ) (s : State), rest = s.transactions.drop i → P i s →
      ∃ j, P j (startFrom app cert renders i rest s) := by
  intro rest
  induction rest with
  | nil => exact fun i s _ h => ⟨i, h⟩
  | cons row rest ih =>
      intro i s hrest h
      have hrow : s.transactions[i]? = some row := by
        rw [← List.head?_drop, ← hrest]
        rfl
      have hnext : rest = s.transactions.drop (i + 1) := by
        rw [← List.tail_drop, ← hrest]
        rfl
      rw [startFrom]
      split
      · exact ⟨i, h⟩
      · exact ih (i + 1) s hnext (skip i s h)
      · next hp =>
        split
        · exact ih (i + 1) _ hnext (submit i s row _ _ hrow hp h)
        · exact ih (i + 1) s hnext (skip i s h)
        · dsimp only
          split
          · refine ih (i + 1) _ ?_ (nonsense i s h)
            rw [hnext]
            exact (List.drop_modify_of_lt _ _ _ _ (Nat.lt_succ_self i)).symm
          · exact ⟨i + 1, nonsense i s h⟩
        · exact ⟨i, h⟩

end Start

/-! ## The objects -/

/-- The objects in the table. -/
def ids (s : State) : List ℕ := s.transactions.map Row.id

/-- No object is in the table twice, and none has the fresh number. -/
structure Ghosts (s : State) : Prop where
  rows : ∀ k ∈ ids s, k < s.fresh
  requests : ∀ q ∈ s.requests, q.row < s.fresh
  distinct : (ids s).Nodup

section Ghosts

variable {app : App} {s s' : State}

theorem Ghosts.row_lt {i : ℕ} {row : Row} (h : Ghosts s) (hi : s.transactions[i]? = some row) :
    row.id < s.fresh :=
  h.rows _ (List.mem_map_of_mem (List.mem_of_getElem? hi))

/-- An object stands at one index. -/
theorem Ghosts.index_eq {i j : ℕ} {a b : Row} (h : Ghosts s)
    (hi : s.transactions[i]? = some a) (hj : s.transactions[j]? = some b)
    (hk : a.id = b.id) : i = j := by
  have hlt : i < (ids s).length := by
    simpa [ids] using (List.getElem?_eq_some_iff.mp hi).1
  refine (List.getElem?_inj hlt h.distinct).mp ?_
  simp only [ids, List.getElem?_map, hi, hj, Option.map_some, hk]

theorem map_modify {f : Row → Row} (l : List Row) (i : ℕ) (hf : ∀ a, (f a).id = a.id) :
    (l.modify i f).map Row.id = l.map Row.id := by
  refine List.ext_getElem? fun j => ?_
  rw [List.getElem?_map, List.getElem?_map, List.getElem?_modify]
  cases l[j]? with
  | none => rfl
  | some a =>
      by_cases h : i = j
      · simp [h, hf]
      · simp [h]

/-- The objects of an uploaded list. -/
theorem ids_upload (l : List Fields) (n : ℕ) :
    (l.mapIdx fun i tr => (⟨n + i, tr⟩ : Row)).map Row.id = (List.range l.length).map (n + ·) := by
  refine List.ext_getElem? fun j => ?_
  rw [List.getElem?_map, List.getElem?_mapIdx, List.getElem?_map]
  by_cases h : j < l.length
  · simp [h]
  · simp [h]

theorem Ghosts.of_ids_eq (h : Ghosts s) (hids : ids s' = ids s)
    (hreq : ∀ q ∈ s'.requests, q.row < s.fresh) (hfresh : s.fresh ≤ s'.fresh) :
    Ghosts s' where
  rows := fun k hk => (h.rows k (hids ▸ hk)).trans_le hfresh
  requests := fun q hq => (hreq q hq).trans_le hfresh
  distinct := hids ▸ h.distinct

/-- A list in which all rows are new objects. -/
theorem Ghosts.of_renewed {n : ℕ} (h : Ghosts s) (hids : ids s' = (List.range n).map (s.fresh + ·))
    (hreq : s'.requests = s.requests) (hfresh : s'.fresh = s.fresh + n) : Ghosts s' where
  rows := fun k hk => by
    rw [hids, List.mem_map] at hk
    obtain ⟨i, hi, rfl⟩ := hk
    have hi := List.mem_range.mp hi
    omega
  requests := fun q hq => by
    have hlt := h.requests q (hreq ▸ hq)
    omega
  distinct := by
    rw [hids]
    exact List.Nodup.map (add_right_injective s.fresh) List.nodup_range

theorem ghosts_initial : Ghosts initial where
  rows := fun _ h => by cases h
  requests := fun _ h => by cases h
  distinct := List.nodup_nil

theorem Ghosts.submit {i : ℕ} {row : Row} {name : String} {query : Fields} (h : Ghosts s)
    (hi : s.transactions[i]? = some row) : Ghosts (s.submit row i name query) :=
  h.of_ids_eq rfl (Calls.forall_mem_concat h.requests (h.row_lt hi)) (Nat.le_refl _)

theorem Ghosts.setState (h : Ghosts s) (i : ℕ) (state : String) : Ghosts (s.setState i state) :=
  h.of_ids_eq (map_modify _ _ fun _ => rfl) h.requests (Nat.le_refl _)

theorem Ghosts.start (h : Ghosts s) (cert renders : Bool) :
    Ghosts (startFrom app cert renders 0 s.transactions s) :=
  (startFrom_rule (P := fun _ s => Ghosts s) (fun _ _ h => h)
    (fun _ _ _ _ _ hrow _ h => h.submit hrow) (fun i _ h => h.setState i _)
    s.transactions 0 s rfl h).elim fun _ hs => hs

theorem ghosts_step {e : Event} (h : Ghosts s) (hstep : step app s e = some s') : Ghosts s' := by
  cases step_cases hstep with
  | add tr =>
      have hids : ids { s with
          transactions := s.transactions ++ [⟨s.fresh, newTransaction tr⟩]
          fresh := s.fresh + 1 } = ids s ++ [s.fresh] := by
        simp [ids]
      refine ⟨?_, fun q hq => Nat.lt_succ_of_lt (h.requests q hq), ?_⟩
      · rw [hids]
        exact Calls.forall_mem_concat (fun k hk => Nat.lt_succ_of_lt (h.rows k hk))
          (Nat.lt_succ_self _)
      · rw [hids]
        refine List.nodup_append.mpr ⟨h.distinct, List.nodup_singleton _, fun k hk k' hk' => ?_⟩
        rw [List.mem_singleton.mp hk']
        exact Nat.ne_of_lt (h.rows k hk)
  | delete listid =>
      have hsub : (ids { s with transactions := s.transactions.eraseIdx listid }).Sublist
          (ids s) := (List.eraseIdx_sublist _ _).map _
      exact ⟨fun k hk => h.rows k (hsub.subset hk), h.requests, h.distinct.sublist hsub⟩
  | start cert renders hd hm =>
      have hs : Ghosts { s with disabled := true } := ⟨h.rows, h.requests, h.distinct⟩
      exact hs.start cert renders
  | refuse => exact ⟨h.rows, h.requests, h.distinct⟩
  | enable => exact ⟨h.rows, h.requests, h.distinct⟩
  | upload list => exact h.of_renewed (ids_upload list s.fresh) rfl rfl
  | make_pending =>
      refine h.of_ids_eq ?_ h.requests (Nat.le_refl _)
      rw [ids, ids, List.map_map]
      rfl
  | post hq _ _ =>
      have hlt := h.requests _ (List.mem_of_getElem? hq)
      exact h.of_ids_eq rfl (Calls.forall_mem_set _ h.requests hlt) (Nat.le_refl _)
  | response res hq _ _ =>
      have hlt := h.requests _ (List.mem_of_getElem? hq)
      exact h.of_ids_eq (map_modify _ _ (Row.report_id res))
        (Calls.forall_mem_set _ h.requests hlt) (Nat.le_refl _)

end Ghosts

end SchuleAlsStaat.TransactionTable
