import SchuleAlsStaat.Lib.Newest
import SchuleAlsStaat.Server.Model

/-!
# Polling for transactions

The regular search of `actions/polling.js`.  A tick of a worker collects the
elements of its array `polls` into one query and keeps the indices of each
QR-ID.  The callback of the query groups the transactions by QR-ID and answers
the polls at these indices, as far as they are still there.

The polls of all workers are one list, as in the server, and a tick takes those
of its own worker.  An exception in a tick or in its callback ends the worker.
-/

namespace SchuleAlsStaat

open Js (JsVal JS except_bind_eq_ok)
open Calls (Phase withSent withReply withSent_eq_some withReply_eq_some)

/-- A transaction as polling sees it. -/
class Payment (α : Type) where
  time : α → Time
  recipient_qrid : α → Text

instance : Payment Booking := ⟨Entry.time, fun tr => tr.recipient.qrid⟩

/-- A transaction with its `_id`. -/
instance : Payment (ObjectId × Booking) := ⟨fun tr => tr.2.time, fun tr => tr.2.recipient.qrid⟩

namespace Polling

open Server (Poll)
open Payment (time recipient_qrid)

variable (E : Ext) {α : Type}

/-! ## The query -/

/-- `new Date(ms)`, which is truncated.  `none` is an invalid date. -/
def dateOf (ms : ℚ) : Option Time :=
  if |ms| ≤ 8640000000000000 then some (if 0 ≤ ms then ⌊ms⌋ else ⌈ms⌉) else none

/-- A whole number of milliseconds is not changed. -/
theorem eq_of_dateOf_intCast {ms t : Time} (h : dateOf (ms : ℚ) = some t) : t = ms := by
  rw [dateOf] at h
  split at h
  next =>
    rw [Int.floor_intCast, Int.ceil_intCast, ite_self] at h
    exact (Option.some.inj h).symm
  next => cases h

/-- A `qrid` matches the condition on `recipient.qrid`. -/
def matchesQrid (v : JsVal) (qrid : Text) : Bool :=
  match v with
  | some (.str s) => qrid = .str s
  | v => E.matchesQrid v qrid

/-- An element of `query.$or`. -/
structure Condition where
  gt : Option Time
  qrid : JsVal

/-- The elements of `polls` of a worker, with their indices. -/
def elements (polls : List Poll) (w : WorkerId) : List (Poll × ℕ) :=
  polls.zipIdx.filter fun p => p.1.active && p.1.worker = w

/-- `query.$or`. -/
def conditions (ps : List (Poll × ℕ)) : List Condition :=
  ps.map fun p => ⟨dateOf p.1.date, p.1.qrid⟩

/-- `qrid_to_indices`, as the list of its pairs.  A property that the object
inherits cannot be pushed to. -/
def qridToIndices : List (Poll × ℕ) → Except Js.Exn (List (String × ℕ))
  | [] => .ok []
  | (p, idx) :: ps => do
      let key ← p.qrid.toStr
      if key ∈ objectPrototype then throw .typeError
      else return (key, idx) :: (← qridToIndices ps)

/-- A query of a worker.  The reply is `none` for an error. -/
structure Search (α : Type) where
  worker : WorkerId
  or : List Condition
  qrid_to_indices : List (String × ℕ)
  /-- `poll_max`, with `none` for no limit. -/
  limit : Option ℕ
  phase : Phase (Option (List α))

/-- The query of a tick. -/
def search (polls : List Poll) (w : WorkerId) (limit : Option ℕ) : Except Js.Exn (Search α) := do
  let ps := elements polls w
  return ⟨w, conditions ps, ← qridToIndices ps, limit, .sent⟩

section Query

variable {E} {polls : List Poll} {w : WorkerId} {limit : Option ℕ} {q : Search α}

theorem mem_elements {p : Poll} {idx : ℕ} :
    (p, idx) ∈ elements polls w ↔ polls[idx]? = some p ∧ p.active = true ∧ p.worker = w := by
  rw [elements, List.mem_filter, List.mem_zipIdx_iff_getElem?]
  simp

theorem mem_qridToIndices {ps : List (Poll × ℕ)} {q2i : List (String × ℕ)} {key : String}
    {idx : ℕ} (h : qridToIndices ps = .ok q2i) :
    (key, idx) ∈ q2i ↔ ∃ p, (p, idx) ∈ ps ∧ p.qrid.toStr = .ok key := by
  induction ps generalizing q2i with
  | nil =>
      cases h
      simp
  | cons pi ps ih =>
      obtain ⟨p, i⟩ := pi
      obtain ⟨k, hk, h⟩ := except_bind_eq_ok h
      split at h
      next => cases h
      obtain ⟨rest, hrest, h⟩ := except_bind_eq_ok h
      cases h
      rw [List.mem_cons, ih hrest]
      constructor
      · rintro (heq | ⟨p', hp', hkey⟩)
        · cases heq
          exact ⟨p, List.mem_cons_self .., hk⟩
        · exact ⟨p', List.mem_cons_of_mem _ hp', hkey⟩
      · rintro ⟨p', hp', hkey⟩
        rcases List.mem_cons.mp hp' with heq | hp'
        · cases heq
          rw [hk] at hkey
          cases hkey
          exact .inl rfl
        · exact .inr ⟨p', hp', hkey⟩

/-- The indices can be collected unless a QR-ID has no string form or the name
of an inherited property. -/
theorem qridToIndices_isOk {ps : List (Poll × ℕ)} :
    (∃ q2i, qridToIndices ps = .ok q2i) ↔
      ∀ p ∈ ps, ∃ key, p.1.qrid.toStr = .ok key ∧ key ∉ objectPrototype := by
  induction ps with
  | nil => exact ⟨fun _ p hp => absurd hp List.not_mem_nil, fun _ => ⟨[], rfl⟩⟩
  | cons pi ps ih =>
      obtain ⟨p, i⟩ := pi
      rw [List.forall_mem_cons, ← ih]
      constructor
      · rintro ⟨q2i, h⟩
        obtain ⟨key, hkey, h⟩ := except_bind_eq_ok h
        split at h
        next => cases h
        next hproto =>
          obtain ⟨rest, hrest, -⟩ := except_bind_eq_ok h
          exact ⟨⟨key, hkey, hproto⟩, rest, hrest⟩
      · rintro ⟨⟨key, hkey, hproto⟩, rest, hrest⟩
        refine ⟨(key, i) :: rest, ?_⟩
        simp only [qridToIndices, hkey, hrest, if_neg hproto, Js.except_ok_bind]
        rfl

theorem search_eq_ok (h : search polls w limit = .ok q) :
    q.or = conditions (elements polls w) ∧
      qridToIndices (elements polls w) = .ok q.qrid_to_indices ∧ q.limit = limit ∧
      q.phase = .sent := by
  obtain ⟨q2i, hq2i, h⟩ := except_bind_eq_ok h
  cases h
  exact ⟨rfl, hq2i, rfl, rfl⟩

end Query

/-! ## Execution and callback -/

section Search

variable [Payment α]

def Condition.holds (c : Condition) (tr : α) : Bool :=
  match c.gt with
  | some t => t < time tr && matchesQrid E c.qrid (recipient_qrid tr)
  | none => false

/-- What `getByProperties` finds in a collection, which is listed in the order
in which its sort resolves ties.  An invalid date fails the cast. -/
def Search.find (q : Search α) (trs : List α) : Option (List α) :=
  if q.or.all fun c => c.gt.isSome then
    some (Newest.newest time q.limit (trs.filter fun tr => q.or.any fun c => c.holds E tr))
  else none

/-- The property of `groups` for a transaction. -/
def groupKey (tr : α) : String := (recipient_qrid tr).key

/-- `groups[key]`. -/
def group (trlist : List α) (key : String) : List α := trlist.filter fun tr => groupKey tr = key

/-- The number of a property that is an array index. -/
def arrayIndex (key : String) : Option ℕ :=
  let n := Js.natOfDigits key.toList
  if key.toList.all Char.isDigit ∧ Js.digits n = key.toList ∧ n < 4294967295 then some n else none

/-- The order of `for in`: first the array indices by their size. -/
def keyOrder (keys : List String) : List String :=
  (keys.filter fun k => (arrayIndex k).isSome).insertionSort
      (fun a b => (arrayIndex a).getD 0 ≤ (arrayIndex b).getD 0) ++
    keys.filter fun k => (arrayIndex k).isNone

/-- The properties of `groups`. -/
def groupKeys (trlist : List α) : Except Js.Exn (List String) :=
  if trlist.any fun tr => groupKey tr ∈ objectPrototype then .error .typeError
  else .ok (keyOrder (trlist.map groupKey).eraseDups)

/-- A call `handleDbPollAnswer(trgroup, idx)`. -/
structure Delivery (α : Type) where
  idx : ℕ
  trgroup : List α

/-- `qrid_to_indices[qrid]`. -/
def indices (qrid_to_indices : List (String × ℕ)) (key : String) : List ℕ :=
  (qrid_to_indices.filter fun p => p.1 = key).map Prod.snd

/-- The loop over `groups`.  It ends at a group that no poll asked for. -/
def handleGroups (qrid_to_indices : List (String × ℕ)) (trlist : List α) :
    List String → JS (Delivery α) Unit
  | [] => pure ()
  | key :: keys =>
      match indices qrid_to_indices key with
      | [] => JS.throw .typeError
      | idxs => do
          JS.forEach idxs fun idx => ⟨idx, group trlist key⟩
          handleGroups qrid_to_indices trlist keys

/-- The callback of the query. -/
def onTrlist (qrid_to_indices : List (String × ℕ)) (trlist : List α) : JS (Delivery α) Unit := do
  handleGroups qrid_to_indices trlist (← JS.lift (groupKeys trlist))

/-! ## What is delivered -/

section Delivered

variable {qrid_to_indices : List (String × ℕ)} {trlist : List α} {d : Delivery α}

theorem mem_handleGroups {keys : List String}
    (h : d ∈ (handleGroups qrid_to_indices trlist keys).acts) :
    ∃ key ∈ keys, (key, d.idx) ∈ qrid_to_indices ∧ d.trgroup = group trlist key := by
  induction keys with
  | nil => cases h
  | cons key keys ih =>
      rw [handleGroups] at h
      split at h
      next => cases h
      next =>
        rcases JS.mem_bind_acts.mp h with h | ⟨-, -, h⟩
        · obtain ⟨idx, hidx, rfl⟩ := List.mem_map.mp h
          refine ⟨key, List.mem_cons_self .., ?_, rfl⟩
          have hmem : idx ∈ (qrid_to_indices.filter fun p => p.1 = key).map Prod.snd := hidx
          obtain ⟨⟨k, i⟩, hp, rfl⟩ := List.mem_map.mp hmem
          obtain ⟨hp, hk⟩ := List.mem_filter.mp hp
          have hk : k = key := by simpa using hk
          exact hk ▸ hp
        · obtain ⟨k, hk, hrest⟩ := ih h
          exact ⟨k, List.mem_cons_of_mem _ hk, hrest⟩

/-- A delivery is a group of an index that the query captured. -/
theorem mem_onTrlist (h : d ∈ (onTrlist qrid_to_indices trlist).acts) :
    ∃ key, (key, d.idx) ∈ qrid_to_indices ∧ d.trgroup = group trlist key := by
  obtain ⟨keys, -, h⟩ := JS.mem_lift_bind_acts.mp h
  obtain ⟨key, -, h⟩ := mem_handleGroups h
  exact ⟨key, h⟩

end Delivered

end Search

/-! ## State -/

structure State (α : Type) where
  transactions : List α
  polls : List Poll
  searches : List (Search α)
  /-- The answers to polls, by index.  `none` is the empty object of a timeout. -/
  answers : List (ℕ × Option (List α))

def State.init (L : List α) : State α := ⟨L, [], [], []⟩

/-- `polls[idx].answer(m); delete polls[idx]`, if there is an element. -/
def State.answer (s : State α) (idx : ℕ) (m : Option (List α)) : State α :=
  match s.polls[idx]? with
  | some p => if p.active then { s with
      answers := s.answers ++ [(idx, m)]
      polls := s.polls.set idx { p with active := false } } else s
  | none => s

def State.handleDbPollAnswer (s : State α) (d : Delivery α) : State α :=
  s.answer d.idx (some d.trgroup)

/-! ## Answering -/

section Answer

variable {s : State α} {idx : ℕ}

/-- An answer takes its index off the array, or nothing happens. -/
theorem State.answer_cases (s : State α) (idx : ℕ) (m : Option (List α)) :
    s.answer idx m = s ∨ ∃ p, s.polls[idx]? = some p ∧ p.active = true ∧
      s.answer idx m = { s with
        answers := s.answers ++ [(idx, m)], polls := s.polls.set idx { p with active := false } } := by
  rw [State.answer]
  split
  next p hp =>
    split
    next hactive => exact .inr ⟨p, hp, hactive, rfl⟩
    next => exact .inl rfl
  next => exact .inl rfl

/-- There is an element of `polls` at the index. -/
def Waiting (s : State α) (idx : ℕ) : Prop := ∃ p ∈ s.polls[idx]?, p.active = true

instance (s : State α) (idx : ℕ) : Decidable (Waiting s idx) :=
  inferInstanceAs (Decidable (∃ p ∈ s.polls[idx]?, p.active = true))

theorem answer_of_waiting (h : Waiting s idx) (m : Option (List α)) :
    (s.answer idx m).answers = s.answers ++ [(idx, m)] ∧ ¬ Waiting (s.answer idx m) idx := by
  obtain ⟨p, hp, hactive⟩ := h
  have hset : s.answer idx m = { s with
      answers := s.answers ++ [(idx, m)], polls := s.polls.set idx { p with active := false } } := by
    rw [State.answer, hp]
    exact if_pos hactive
  rw [hset]
  refine ⟨rfl, ?_⟩
  rintro ⟨p', hp', hactive'⟩
  rw [List.getElem?_set_self (List.getElem?_eq_some_iff.mp hp).1] at hp'
  cases hp'
  cases hactive'

theorem answer_of_not_waiting (h : ¬ Waiting s idx) (m : Option (List α)) : s.answer idx m = s := by
  rcases s.answer_cases idx m with hsame | ⟨p, hp, hactive, -⟩
  · exact hsame
  · exact absurd ⟨p, hp, hactive⟩ h

/-- An answer at one index leaves the others alone. -/
theorem answer_of_ne {n : ℕ} (h : n ≠ idx) (m m' : Option (List α)) :
    ((idx, m) ∈ (s.answer n m').answers ↔ (idx, m) ∈ s.answers) ∧
      (Waiting (s.answer n m') idx ↔ Waiting s idx) := by
  rcases s.answer_cases n m' with hsame | ⟨p, -, -, hset⟩
  · rw [hsame]
    exact ⟨.rfl, .rfl⟩
  · rw [hset]
    refine ⟨?_, ?_⟩
    · show (idx, m) ∈ s.answers ++ [(n, m')] ↔ _
      simp [h.symm]
    · show (∃ p' ∈ (s.polls.set n _)[idx]?, p'.active = true) ↔ _
      rw [List.getElem?_set_ne h]
      exact .rfl

@[simp] theorem answer_transactions (s : State α) (idx : ℕ) (m : Option (List α)) :
    (s.answer idx m).transactions = s.transactions := by
  rcases s.answer_cases idx m with hsame | ⟨p, -, -, hset⟩
  · rw [hsame]
  · rw [hset]

@[simp] theorem answer_searches (s : State α) (idx : ℕ) (m : Option (List α)) :
    (s.answer idx m).searches = s.searches := by
  rcases s.answer_cases idx m with hsame | ⟨p, -, -, hset⟩
  · rw [hsame]
  · rw [hset]

/-- An answer is an old one, or it is the one given. -/
theorem mem_answer {n : ℕ} {m m' : Option (List α)} (h : (n, m') ∈ (s.answer idx m).answers) :
    (n, m') ∈ s.answers ∨ Waiting s n ∧ n = idx ∧ m' = m := by
  rcases s.answer_cases idx m with hsame | ⟨p, hp, hactive, hset⟩
  · exact .inl (hsame ▸ h)
  · rw [hset] at h
    rcases List.mem_append.mp h with h | h
    · exact .inl h
    · cases List.mem_singleton.mp h
      exact .inr ⟨⟨p, hp, hactive⟩, rfl, rfl⟩

theorem waiting_of_answer {n : ℕ} {m : Option (List α)} (h : Waiting (s.answer idx m) n) :
    Waiting s n := by
  by_cases hne : idx = n
  · subst hne
    by_contra hnot
    rw [answer_of_not_waiting hnot] at h
    exact hnot h
  · exact (answer_of_ne hne (none : Option (List α)) m).2.mp h

/-- What answers preserve, the deliveries of a query preserve. -/
theorem foldl_handleDbPollAnswer {P : State α → Prop} (ds : List (Delivery α)) (start : P s)
    (next : ∀ t, ∀ d ∈ ds, P t → P (t.handleDbPollAnswer d)) :
    P (ds.foldl State.handleDbPollAnswer s) := by
  induction ds generalizing s with
  | nil => exact start
  | cons d ds ih =>
      refine ih (next s d (List.mem_cons_self ..) start) fun t d' hd' => ?_
      exact next t d' (List.mem_cons_of_mem _ hd')

/-- What a row of deliveries leaves: polls are only taken off, and every new
list is a delivered one for a poll that waited. -/
structure After (s : State α) (ds : List (Delivery α)) (t : State α) : Prop where
  transactions : t.transactions = s.transactions
  searches : t.searches = s.searches
  waiting : ∀ n, Waiting t n → Waiting s n
  answers : ∀ n m, (n, m) ∈ t.answers →
    (n, m) ∈ s.answers ∨ Waiting s n ∧ ∃ d ∈ ds, d.idx = n ∧ m = some d.trgroup

theorem after_deliveries (s : State α) (ds : List (Delivery α)) :
    After s ds (ds.foldl State.handleDbPollAnswer s) := by
  refine foldl_handleDbPollAnswer (P := After s ds) ds
    ⟨rfl, rfl, fun _ h => h, fun _ _ h => .inl h⟩ fun t d hd ht => ?_
  refine ⟨?_, ?_, fun n hn => ht.waiting n (waiting_of_answer hn), fun n m hm => ?_⟩
  · rw [State.handleDbPollAnswer, answer_transactions, ht.transactions]
  · rw [State.handleDbPollAnswer, answer_searches, ht.searches]
  · rcases mem_answer hm with hm | ⟨hwait, rfl, rfl⟩
    · exact ht.answers n m hm
    · exact .inr ⟨ht.waiting _ hwait, d, hd, rfl, rfl⟩

end Answer

/-! ## Steps -/

inductive Event (α : Type) where
  /-- `polls.push`, by the callback of `transactions_poll`. -/
  | register (p : Poll)
  | timeout (idx : ℕ)
  | tick (w : WorkerId) (limit : Option ℕ)
  /-- The query is executed, with this order of the collection. -/
  | searchDb (n : ℕ) (trs : List α)
  | searchFail (n : ℕ)
  | searchReply (n : ℕ)
  | write (tr : α)
  | remove (k : ℕ)

/-- One step, if the event is enabled. -/
def step [Payment α] [DecidableEq α] (s : State α) : Event α → Option (State α)
  | .register p => some { s with polls := s.polls ++ [{ p with active := true }] }
  | .timeout idx => some (s.answer idx none)
  | .tick w limit =>
      if (elements s.polls w).isEmpty then some s
      else match search s.polls w limit with
        | .ok q => some { s with searches := s.searches ++ [q] }
        | .error _ => some s
  | .searchDb n trs => withSent Search.phase s.searches n fun q =>
      if trs.Perm s.transactions then (q.find E trs).map fun trlist => { s with
        searches := s.searches.set n { q with phase := .replied (some trlist) } }
      else none
  | .searchFail n => withSent Search.phase s.searches n fun q => some { s with
      searches := s.searches.set n { q with phase := .replied none } }
  | .searchReply n => withReply Search.phase s.searches n fun q r =>
      let s : State α := { s with searches := s.searches.set n { q with phase := .done r } }
      some (match r with
        | some trlist =>
            (onTrlist q.qrid_to_indices trlist).acts.foldl State.handleDbPollAnswer s
        | none => s)
  | .write tr => some { s with transactions := s.transactions ++ [tr] }
  | .remove k => some { s with transactions := s.transactions.eraseIdx k }

section StepCases

variable [Payment α] [DecidableEq α] (s : State α)

/-- What a step does, case by case. -/
inductive Step : Event α → State α → Prop where
  | register (p : Poll) :
      Step (.register p) { s with polls := s.polls ++ [{ p with active := true }] }
  | timeout (idx : ℕ) : Step (.timeout idx) (s.answer idx none)
  | nopolls {w : WorkerId} (limit : Option ℕ) (hempty : (elements s.polls w).isEmpty) :
      Step (.tick w limit) s
  | nosearch {w : WorkerId} {limit : Option ℕ} {err : Js.Exn}
      (hne : ¬ (elements s.polls w).isEmpty)
      (hsearch : (search s.polls w limit : Except Js.Exn (Search α)) = .error err) :
      Step (.tick w limit) s
  | search {w : WorkerId} {limit : Option ℕ} {q : Search α}
      (hne : ¬ (elements s.polls w).isEmpty) (hsearch : Polling.search s.polls w limit = .ok q) :
      Step (.tick w limit) { s with searches := s.searches ++ [q] }
  | searchDb {n : ℕ} {trs trlist : List α} {q : Search α} (hq : s.searches[n]? = some q)
      (hp : q.phase = .sent) (hperm : trs.Perm s.transactions)
      (hfind : q.find E trs = some trlist) :
      Step (.searchDb n trs) { s with
        searches := s.searches.set n { q with phase := .replied (some trlist) } }
  | searchFail {n : ℕ} {q : Search α} (hq : s.searches[n]? = some q) (hp : q.phase = .sent) :
      Step (.searchFail n) { s with
        searches := s.searches.set n { q with phase := .replied none } }
  | deliver {n : ℕ} {q : Search α} {trlist : List α} (hq : s.searches[n]? = some q)
      (hp : q.phase = .replied (some trlist)) :
      Step (.searchReply n) ((onTrlist q.qrid_to_indices trlist).acts.foldl
        State.handleDbPollAnswer
        { s with searches := s.searches.set n { q with phase := .done (some trlist) } })
  | searchError {n : ℕ} {q : Search α} (hq : s.searches[n]? = some q)
      (hp : q.phase = .replied none) :
      Step (.searchReply n) { s with
        searches := s.searches.set n { q with phase := .done none } }
  | write (tr : α) : Step (.write tr) { s with transactions := s.transactions ++ [tr] }
  | remove (k : ℕ) : Step (.remove k) { s with transactions := s.transactions.eraseIdx k }

variable {E s} {s' : State α}

theorem step_cases {e : Event α} (hs : step E s e = some s') : Step E s e s' := by
  cases e with
  | register p =>
      cases hs
      exact .register p
  | timeout idx =>
      cases hs
      exact .timeout idx
  | tick w limit =>
      rw [step] at hs
      split at hs
      next hempty =>
        cases hs
        exact .nopolls limit hempty
      next hne =>
        split at hs
        next q hsearch =>
          cases hs
          exact .search hne hsearch
        next err hsearch =>
          cases hs
          exact .nosearch hne hsearch
  | searchDb n trs =>
      obtain ⟨q, hq, hp, hs⟩ := withSent_eq_some.mp hs
      split at hs
      next hperm =>
        obtain ⟨trlist, hfind, rfl⟩ := Option.map_eq_some_iff.mp hs
        exact .searchDb hq hp hperm hfind
      next => cases hs
  | searchFail n =>
      obtain ⟨q, hq, hp, hs⟩ := withSent_eq_some.mp hs
      cases hs
      exact .searchFail hq hp
  | searchReply n =>
      obtain ⟨q, r, hq, hp, hs⟩ := withReply_eq_some.mp hs
      cases hs
      cases r with
      | some trlist => exact .deliver hq hp
      | none => exact .searchError hq hp
  | write tr =>
      cases hs
      exact .write tr
  | remove k =>
      cases hs
      exact .remove k

end StepCases

/-! ## Samples -/

/-- A poll of worker `0`, for runs on fixed inputs. -/
def somePoll (qrid : String) (date : ℚ) : Poll := ⟨0, ⟨0, none⟩, date, some (.str qrid), true⟩

/-- A payment of 1 to the owner of a QR-ID. -/
def somePayment (id : ObjectId) (qrid : String) (time : Time) : ObjectId × Booking :=
  let profile : Profile := ⟨none, none, none, none, none, none, .missing⟩
  (id, {
    sender := profile, recipient := { profile with qrid := .str qrid }, tax_recipient := 0
    time := time, amount_sent := 1, amount_received := 1, amount_tax := 0, percent_tax := 0
    comment := none })

end Polling

end SchuleAlsStaat
