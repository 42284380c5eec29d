import SchuleAlsStaat.Db.Transactions
import SchuleAlsStaat.Lib.Runs

/-!
# Reading a balance while entries are written

The three aggregations of one `getBalance` call read the ledger at three
moments, and workers append entries in between.  The sum that is passed on is
the balance at one moment of the call if the reads agree on what they miss.
An entry that is written meanwhile must be seen by all aggregations it adds to,
or be missed by all of them, and after an entry was missed no entry may be
seen.
-/

namespace SchuleAlsStaat

/-- What an entry adds to a sum. -/
def Aggregation.adds (b : Booking) (id : ObjectId) : Aggregation → ℚ
  | .income => if b.recipient.reference = some id then b.amount_received else 0
  | .payments => if b.sender.reference = some id then b.amount_sent else 0
  | .taxincome => if b.tax_recipient = id then b.amount_tax else 0

theorem Aggregation.run_concat (a : Aggregation) (L : Ledger) (b : Booking) (id : ObjectId) :
    a.run (L ++ [b]) id = a.run L id + a.adds b id := by
  cases a with
  | income => exact L.income_concat b id
  | payments => exact L.payments_concat b id
  | taxincome => exact L.taxincome_concat b id

namespace Aggregations

/-- The aggregation has been executed, or has failed. -/
def isRead (s : Aggregations) (a : Aggregation) : Prop := (s.get a).outcome ≠ none

/-- The sum that was read, if any, is the one on `L`. -/
def Agrees (s : Aggregations) (L : Ledger) (id : ObjectId) (a : Aggregation) : Prop :=
  ∀ v ∈ (s.get a).outcome, ∀ q ∈ v, q = a.run L id

instance (s : Aggregations) (a : Aggregation) : Decidable (s.isRead a) := by
  unfold isRead; infer_instance

instance (s : Aggregations) (L : Ledger) (id : ObjectId) (a : Aggregation) :
    Decidable (s.Agrees L id a) := by unfold Agrees; infer_instance

theorem get_set_of_ne {s : Aggregations} {a a' : Aggregation} (h : a' ≠ a)
    (p : Calls.Phase (Option ℚ)) : (s.set p a).get a' = s.get a' := by
  cases a <;> cases a' <;> first | rfl | exact absurd rfl h

/-- Sums that were all read on one ledger add up to its balance. -/
theorem complete_eq_balance {s : Aggregations} {L : Ledger} {id : ObjectId} {v : ℚ}
    (h : ∀ a, s.Agrees L id a) (hv : s.aggregationComplete = some v) : v = L.balance id := by
  rw [aggregationComplete] at hv
  split at hv
  next i p t hi hp ht =>
    cases hv
    have h1 : i = L.income id := h .income (some i) (by simp [get, hi]) i rfl
    have h2 : p = L.payments id := h .payments (some p) (by simp [get, hp]) p rfl
    have h3 : t = L.taxincome id := h .taxincome (some t) (by simp [get, ht]) t rfl
    rw [Ledger.balance, h1, h2, h3]
  next => cases hv

end Aggregations

namespace Reading

open Runs (Run exists_run_of_exec)

/-! ## One call and the ledger -/

structure State where
  transactions : Ledger
  sums : Aggregations
  /-- What was passed to the callback, with the ledger at that moment. -/
  passed : Option (ℚ × Ledger)
deriving DecidableEq

/-- The call is issued. -/
def State.init (L : Ledger) : State := ⟨L, .start, none⟩

inductive Event where
  /-- A worker appends an entry. -/
  | write (b : Booking)
  | sumDb (a : Aggregation) (ok : Bool)
  | sumReply (a : Aggregation)
deriving DecidableEq

variable (id : ObjectId)

/-- One step of the call or of another worker, if the event is enabled. -/
def step (s : State) : Event → Option State
  | .write b => some { s with transactions := s.transactions ++ [b] }
  | .sumDb a ok => match s.sums.get a with
      | .sent => some { s with
          sums := s.sums.set (.replied (if ok then some (a.run s.transactions id) else none)) a }
      | _ => none
  | .sumReply a => match s.sums.get a with
      | .replied r =>
          let sums := s.sums.set (.done r) a
          some { s with
            sums := sums
            passed := match r, sums.aggregationComplete with
              | some _, some v => some (v, s.transactions)
              | _, _ => s.passed }
      | _ => none

/-- The entry is seen by every aggregation that it adds to, and none was missed
so far, or it is missed by every aggregation that it adds to. -/
def Coherent (s : State) : Event → Prop
  | .write b =>
      (∀ a, s.sums.isRead a → a.adds b id = 0 ∧ s.sums.Agrees s.transactions id a) ∨
        ∀ a, ¬ s.sums.isRead a → a.adds b id = 0
  | _ => True

/-- What has been read, and what is still to be read, is the same on the first
`n` entries. -/
structure Meets (s : State) (n : ℕ) : Prop where
  agrees : ∀ a, s.sums.Agrees (s.transactions.take n) id a
  unread : ∀ a, ¬ s.sums.isRead a → a.run s.transactions id = a.run (s.transactions.take n) id

/-- There is a moment since the call was issued that the reads meet, and what
was passed on is the balance at such a moment. -/
structure Consistent (L : Ledger) (s : State) : Prop where
  moment : ∃ n, L.length ≤ n ∧ n ≤ s.transactions.length ∧ Meets id s n
  passed : ∀ v L', s.passed = some (v, L') →
    ∃ n, L.length ≤ n ∧ n ≤ L'.length ∧ v = Ledger.balance (L'.take n) id

instance {P : Aggregation → Prop} [DecidablePred P] : Decidable (∀ a, P a) :=
  decidable_of_iff (P .income ∧ P .payments ∧ P .taxincome)
    ⟨fun h a => by cases a; exacts [h.1, h.2.1, h.2.2], fun h => ⟨h _, h _, h _⟩⟩

instance (s : State) (e : Event) : Decidable (Coherent id s e) := by
  cases e <;> unfold Coherent <;> infer_instance

variable {id} {L : Ledger} {s s' : State}

theorem Meets.write {n : ℕ} (h : Meets id s n) (hn : n ≤ s.transactions.length) (b : Booking)
    (hb : ∀ a, ¬ s.sums.isRead a → a.adds b id = 0) :
    Meets id { s with transactions := s.transactions ++ [b] } n := by
  have htake : (s.transactions ++ [b]).take n = s.transactions.take n :=
    List.take_append_of_le_length hn
  refine ⟨fun a => ?_, fun a ha => ?_⟩
  · show s.sums.Agrees ((s.transactions ++ [b]).take n) id a
    rw [htake]
    exact h.agrees a
  · show a.run (s.transactions ++ [b]) id = a.run ((s.transactions ++ [b]).take n) id
    rw [htake, a.run_concat, hb a ha, add_zero]
    exact h.unread a ha

/-- An entry that every read sum leaves out moves the moment behind itself. -/
theorem meets_behind (b : Booking)
    (hb : ∀ a, s.sums.isRead a → a.adds b id = 0 ∧ s.sums.Agrees s.transactions id a) :
    Meets id { s with transactions := s.transactions ++ [b] } (s.transactions ++ [b]).length := by
  refine ⟨fun a v hv q hq => ?_, fun a _ => ?_⟩
  · have hread : s.sums.isRead a := by
      intro hnone
      rw [Option.mem_def, hnone] at hv
      cases hv
    obtain ⟨hadds, hagrees⟩ := hb a hread
    show q = a.run ((s.transactions ++ [b]).take _) id
    rw [List.take_length, a.run_concat, hadds, add_zero]
    exact hagrees v hv q hq
  · rw [List.take_length]

/-- An aggregation is executed, or fails. -/
theorem Meets.execute {n : ℕ} (h : Meets id s n) {a : Aggregation} (hsent : s.sums.get a = .sent)
    (ok : Bool) :
    Meets id { s with
      sums := s.sums.set (.replied (if ok then some (a.run s.transactions id) else none)) a } n := by
  have hunread : ¬ s.sums.isRead a := by simp [Aggregations.isRead, hsent]
  refine ⟨fun a' v hv q hq => ?_, fun a' ha' => ?_⟩
  · by_cases ha : a' = a
    · subst ha
      rw [Aggregations.get_set] at hv
      cases ok with
      | true =>
          cases hv
          cases hq
          exact h.unread a' hunread
      | false =>
          cases hv
          cases hq
    · rw [Aggregations.get_set_of_ne ha] at hv
      exact h.agrees a' v hv q hq
  · by_cases ha : a' = a
    · subst ha
      exact h.unread a' hunread
    · rw [Aggregations.isRead, Aggregations.get_set_of_ne ha] at ha'
      exact h.unread a' ha'

/-- Running a callback does not change what was read. -/
theorem Meets.deliver {n : ℕ} (h : Meets id s n) {a : Aggregation} {r : Option ℚ}
    (hr : s.sums.get a = .replied r) (passed : Option (ℚ × Ledger)) :
    Meets id { s with sums := s.sums.set (.done r) a, passed := passed } n := by
  have houtcome : ∀ a', ((s.sums.set (.done r) a).get a').outcome = (s.sums.get a').outcome := by
    intro a'
    by_cases ha : a' = a
    · rw [ha, Aggregations.get_set, hr]
      rfl
    · rw [Aggregations.get_set_of_ne ha]
  refine ⟨fun a' v hv => ?_, fun a' ha' => ?_⟩
  · rw [houtcome] at hv
    exact h.agrees a' v hv
  · rw [Aggregations.isRead, houtcome] at ha'
    exact h.unread a' ha'

theorem Consistent.init (L : Ledger) : Consistent id L (State.init L) := by
  refine ⟨⟨L.length, le_rfl, le_rfl, fun a v hv => ?_, fun a _ => ?_⟩, fun v L' h => by cases h⟩
  · cases a <;> simp [State.init, Aggregations.start, Aggregations.get] at hv
  · simp [State.init]

theorem Consistent.step (h : Consistent id L s) {e : Event} (hok : Coherent id s e)
    (hs : Reading.step id s e = some s') : Consistent id L s' := by
  obtain ⟨n, hL, hn, meets⟩ := h.moment
  cases e with
  | write b =>
      cases hs
      have hlength : s.transactions.length ≤ (s.transactions ++ [b]).length := by
        rw [List.length_append]
        exact Nat.le_add_right ..
      rcases hok with hseen | hmissed
      · exact ⟨⟨_, (hL.trans hn).trans hlength, le_rfl, meets_behind b hseen⟩, h.passed⟩
      · exact ⟨⟨n, hL, hn.trans hlength, meets.write hn b hmissed⟩, h.passed⟩
  | sumDb a ok =>
      simp only [Reading.step] at hs
      split at hs
      next hsent =>
        cases hs
        exact ⟨⟨n, hL, hn, meets.execute hsent ok⟩, h.passed⟩
      next => cases hs
  | sumReply a =>
      simp only [Reading.step] at hs
      split at hs
      next r hr =>
        cases hs
        have hmeets := fun passed => meets.deliver hr passed
        refine ⟨⟨n, hL, hn, hmeets _⟩, fun v L' hp => ?_⟩
        dsimp only at hp
        split at hp
        next q b hb =>
          cases hp
          exact ⟨n, hL, hn, Aggregations.complete_eq_balance (hmeets none).agrees hb⟩
        next => exact h.passed v L' hp
      next => cases hs

/-- The ledger at the moment of the callback is an earlier state of the
ledger. -/
theorem passed_prefix {ok : State → Event → Prop} (run : Run (step id) ok (State.init L) s) :
    ∀ v L', s.passed = some (v, L') → L' <+: s.transactions := by
  refine run.invariant (I := fun s => ∀ v L', s.passed = some (v, L') → L' <+: s.transactions)
    (fun v L' h => by cases h) fun s e s' ih _ hs => ?_
  cases e with
  | write b =>
      cases hs
      exact fun v L' h => (ih v L' h).trans (List.prefix_append _ _)
  | sumDb a ok =>
      simp only [Reading.step] at hs
      split at hs
      next =>
        cases hs
        exact ih
      next => cases hs
  | sumReply a =>
      simp only [Reading.step] at hs
      split at hs
      next r hr =>
        cases hs
        intro v L' hp
        dsimp only at hp
        split at hp
        next =>
          cases hp
          exact List.prefix_rfl
        next => exact ih v L' hp
      next => cases hs

/-- Coherent writes keep the reads on one ledger. -/
theorem consistent_of_run (run : Run (step id) (Coherent id) (State.init L) s) :
    Consistent id L s :=
  run.invariant (Consistent.init L) fun _ _ _ ih hok hs => ih.step hok hs

/-- In every run whose writes are coherent with the reads, the value passed to
the callback is the balance on a ledger between the start of the call and the
callback. -/
theorem passes_a_balance (run : Run (step id) (Coherent id) (State.init L) s) :
    ∀ v L', s.passed = some (v, L') →
      ∃ n, L.length ≤ n ∧ n ≤ L'.length ∧ v = Ledger.balance (L'.take n) id :=
  (consistent_of_run run).passed

section Sample

/-- A profile that references an account. -/
def party (id : ObjectId) : Profile := ⟨some id, none, none, none, none, none, .str (toString id)⟩

/-- An untaxed entry. -/
def booking (sender recipient : ObjectId) (amount : ℚ) : Booking where
  sender := party sender
  recipient := party recipient
  tax_recipient := 0
  time := 0
  amount_sent := amount
  amount_received := amount
  amount_tax := 0
  percent_tax := 0
  comment := none

/-- The other two aggregations are executed, and all callbacks run. -/
def finish : List Event :=
  [.sumDb .payments true, .sumDb .taxincome true, .sumReply .income, .sumReply .payments,
    .sumReply .taxincome]

/-- Account `1` is paid before its income is read, and again after it. -/
def paidTwice : List Event :=
  [.write (booking 2 1 20), .sumDb .income true, .write (booking 2 1 50)] ++ finish

theorem passes_a_balance_paidTwice :
    ∃ s, Run (step 1) (Coherent 1) (State.init [booking 2 1 100]) s ∧
      s.passed = some (120, [booking 2 1 100, booking 2 1 20, booking 2 1 50]) ∧
      ∀ v L', s.passed = some (v, L') →
        ∃ n, [booking 2 1 100].length ≤ n ∧ n ≤ L'.length ∧
          v = Ledger.balance (L'.take n) 1 := by
  obtain ⟨s, run, h⟩ : ∃ s, Run (step 1) (Coherent 1) (State.init [booking 2 1 100]) s ∧
      s.passed = some (120, [booking 2 1 100, booking 2 1 20, booking 2 1 50]) :=
    exists_run_of_exec paidTwice (by decide +kernel)
  exact ⟨s, run, h, passes_a_balance run⟩

/-- Account `1` is paid after its income is read, and pays before its payments
are read. -/
def paidAndPays : List Event :=
  [.sumDb .income true, .write (booking 2 1 50), .write (booking 1 2 120)] ++ finish

/-- The value passed on is a balance that account `1` never had. -/
theorem passes_no_balance : ¬ ∀ (id : ObjectId) (L : Ledger) (s : State),
    Runs.AnyRun (step id) (State.init L) s → ∀ v L', s.passed = some (v, L') →
      ∃ n, L.length ≤ n ∧ n ≤ L'.length ∧ v = Ledger.balance (L'.take n) id := by
  intro claim
  obtain ⟨s, run, h⟩ : ∃ s, Runs.AnyRun (step 1) (State.init [booking 2 1 100]) s ∧
      s.passed = some (-20, [booking 2 1 100, booking 2 1 50, booking 1 2 120]) :=
    exists_run_of_exec paidAndPays (by decide +kernel)
  obtain ⟨n, h1, h3, hv⟩ := claim _ _ _ run _ _ h
  have never : ∀ n ≤ 3, (-20 : ℚ) ≠
      Ledger.balance ([booking 2 1 100, booking 2 1 50, booking 1 2 120].take n) 1 := by
    decide +kernel
  exact never n h3 hv

end Sample

end Reading

end SchuleAlsStaat
