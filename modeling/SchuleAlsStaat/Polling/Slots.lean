import SchuleAlsStaat.Polling.Model

/-!
# The slots of polls

Every poll has an index of `polls` for good: indices are only handed out at the
end of the array and `delete` leaves a hole.  So an index that a query has
captured still means the same poll when the query returns, or a hole, and the
transactions that are delivered there have the QR-ID of the poll.
-/

namespace SchuleAlsStaat.Polling

open Js (JsVal)
open Calls (Phase forall_mem_set forall_mem_concat mem_of_getElem?)
open Payment (recipient_qrid)
open Runs (Run AnyRun)
open Server (Poll)

variable {E : Ext} {α : Type} {s s' : State α}

/-! ## Slots stay -/

/-- Every poll is still at its index, answered or not. -/
def Keeps (polls polls' : List Poll) : Prop :=
  ∀ (n : ℕ) (p : Poll), polls[n]? = some p → ∃ a, polls'[n]? = some { p with active := a }

namespace Keeps

variable {polls polls' polls'' : List Poll}

theorem refl (polls : List Poll) : Keeps polls polls := fun _ p hp => ⟨p.active, hp⟩

theorem trans (h : Keeps polls polls') (h' : Keeps polls' polls'') : Keeps polls polls'' := by
  intro n p hp
  obtain ⟨a, ha⟩ := h n p hp
  obtain ⟨a', ha'⟩ := h' n _ ha
  exact ⟨a', ha'⟩

theorem append (polls new : List Poll) : Keeps polls (polls ++ new) := by
  intro n p hp
  exact ⟨p.active, Calls.getElem?_append_of_some hp new⟩

theorem set {n : ℕ} {p : Poll} (hp : polls[n]? = some p) (a : Bool) :
    Keeps polls (polls.set n { p with active := a }) := by
  intro m p' hp'
  by_cases hm : n = m
  · subst hm
    cases hp.symm.trans hp'
    exact ⟨a, List.getElem?_set_self (List.getElem?_eq_some_iff.mp hp).1⟩
  · exact ⟨p'.active, by rw [List.getElem?_set_ne hm]; exact hp'⟩

end Keeps

theorem keeps_answer (s : State α) (idx : ℕ) (m : Option (List α)) :
    Keeps s.polls (s.answer idx m).polls := by
  rcases s.answer_cases idx m with hsame | ⟨p, hp, -, hset⟩
  · rw [hsame]
    exact .refl _
  · rw [hset]
    exact .set hp false

section Step

variable [Payment α] [DecidableEq α]

/-- No step takes an index over. -/
theorem keeps_step {e : Event α} (hs : step E s e = some s') : Keeps s.polls s'.polls := by
  cases step_cases hs with
  | register p => exact .append s.polls _
  | timeout idx => exact keeps_answer s idx none
  | deliver hq hp =>
      refine foldl_handleDbPollAnswer (P := fun t => Keeps s.polls t.polls) _ (.refl _) ?_
      intro t d _ ht
      exact ht.trans (keeps_answer t d.idx _)
  | _ => exact .refl _

theorem keeps_run {ok : State α → Event α → Prop} (run : Run (step E) ok s s') :
    Keeps s.polls s'.polls :=
  run.invariant (I := fun t => Keeps s.polls t.polls) (.refl _) fun _ _ _ ih _ hs =>
    ih.trans (keeps_step hs)

end Step

/-! ## Tracking indices -/

/-- The number of answers that the poll at an index can have had. -/
def used (polls : List Poll) (n : ℕ) : ℕ :=
  match polls[n]? with
  | some p => if p.active then 0 else 1
  | none => 0

/-- Every index has had at most the answer that made its hole, and an index that
a query has captured is that of a poll whose condition is in the query. -/
structure Tracked (s : State α) : Prop where
  once : ∀ n, s.answers.countP (fun a => a.1 = n) ≤ used s.polls n
  captured : ∀ q ∈ s.searches, ∀ c ∈ q.qrid_to_indices, ∃ p : Poll,
    s.polls[c.2]? = some p ∧ p.qrid.toStr = .ok c.1 ∧ ⟨dateOf p.date, p.qrid⟩ ∈ q.or

namespace Tracked

theorem init (L : List α) : Tracked (State.init L) where
  once _ := Nat.le_of_eq (by simp [State.init, used])
  captured _ h := absurd h List.not_mem_nil

/-- An answered index is the index of a poll. -/
theorem lt_length (h : Tracked s) {a : ℕ × Option (List α)} (ha : a ∈ s.answers) :
    a.1 < s.polls.length := by
  by_contra hge
  have hnone : s.polls[a.1]? = none := List.getElem?_eq_none (not_lt.mp hge)
  have hcount := h.once a.1
  rw [used, hnone] at hcount
  have hpos : 0 < s.answers.countP fun b => b.1 = a.1 :=
    List.countP_pos_iff.mpr ⟨a, ha, by simp⟩
  exact absurd hpos (not_lt.mpr hcount)

theorem captured_of_keeps (h : Tracked s) {polls' : List Poll} (hk : Keeps s.polls polls') :
    ∀ q ∈ s.searches, ∀ c ∈ q.qrid_to_indices, ∃ p : Poll,
      polls'[c.2]? = some p ∧ p.qrid.toStr = .ok c.1 ∧ ⟨dateOf p.date, p.qrid⟩ ∈ q.or := by
  intro q hq c hc
  obtain ⟨p, hp, hrest⟩ := h.captured q hq c hc
  obtain ⟨a, ha⟩ := hk c.2 p hp
  exact ⟨_, ha, hrest⟩

theorem register (h : Tracked s) (p : Poll) :
    Tracked { s with polls := s.polls ++ [{ p with active := true }] } := by
  refine ⟨fun n => (h.once n).trans ?_, h.captured_of_keeps (.append _ _)⟩
  show used s.polls n ≤ used (s.polls ++ [{ p with active := true }]) n
  rw [used, used]
  cases hn : s.polls[n]? with
  | none => exact Nat.zero_le _
  | some p' => rw [Calls.getElem?_append_of_some hn]

theorem answer (h : Tracked s) (idx : ℕ) (m : Option (List α)) : Tracked (s.answer idx m) := by
  rcases s.answer_cases idx m with hsame | ⟨p, hp, hactive, hset⟩
  · rw [hsame]
    exact h
  rw [hset]
  have hlt : idx < s.polls.length := (List.getElem?_eq_some_iff.mp hp).1
  refine ⟨fun n => ?_, h.captured_of_keeps (.set hp false)⟩
  have hn := h.once n
  show (s.answers ++ [(idx, m)]).countP (fun a => a.1 = n) ≤ used (s.polls.set idx _) n
  rw [List.countP_append, List.countP_singleton]
  by_cases hidx : idx = n
  · subst hidx
    have hzero : used s.polls idx = 0 := by
      rw [used, hp]
      exact if_pos hactive
    have hnone : s.answers.countP (fun a => a.1 = idx) = 0 := by
      rw [hzero] at hn
      exact Nat.le_zero.mp hn
    have hone : used (s.polls.set idx { p with active := false }) idx = 1 := by
      rw [used, List.getElem?_set_self hlt]
      rfl
    rw [hone, hnone]
    simp
  · have hsame : used (s.polls.set idx { p with active := false }) n = used s.polls n := by
      rw [used, used, List.getElem?_set_ne hidx]
    rw [hsame]
    simpa [hidx] using hn

theorem setSearch (h : Tracked s) {n : ℕ} {q : Search α} (hq : s.searches[n]? = some q)
    (phase : Phase (Option (List α))) :
    Tracked { s with searches := s.searches.set n { q with phase := phase } } :=
  ⟨h.once, forall_mem_set n h.captured (h.captured q (mem_of_getElem? hq))⟩

theorem tick (h : Tracked s) {w : WorkerId} {limit : Option ℕ} {q : Search α}
    (hq : search s.polls w limit = .ok q) : Tracked { s with searches := s.searches ++ [q] } := by
  obtain ⟨hor, hq2i, -, -⟩ := search_eq_ok hq
  refine ⟨h.once, forall_mem_concat h.captured ?_⟩
  rintro ⟨key, idx⟩ hc
  obtain ⟨p, hp, hkey⟩ := (mem_qridToIndices hq2i).mp hc
  refine ⟨p, (mem_elements.mp hp).1, hkey, ?_⟩
  rw [hor]
  exact List.mem_map.mpr ⟨(p, idx), hp, rfl⟩

theorem step [Payment α] [DecidableEq α] (h : Tracked s) {e : Event α}
    (hs : Polling.step E s e = some s') : Tracked s' := by
  cases step_cases hs with
  | register p => exact h.register p
  | timeout idx => exact h.answer idx none
  | nopolls | nosearch => exact h
  | search hne hsearch => exact h.tick hsearch
  | searchDb hq hp hperm hfind => exact h.setSearch hq _
  | searchFail hq hp | searchError hq hp => exact h.setSearch hq _
  | deliver hq hp =>
      exact foldl_handleDbPollAnswer (P := Tracked) _ (h.setSearch hq _)
        fun t d _ ht => ht.answer d.idx _
  | write | remove => exact ⟨h.once, h.captured⟩

end Tracked

/-! ## Addressing -/

/-- The list is for a poll with this QR-ID. -/
def AddressedTo [Payment α] (v : JsVal) (l : List α) : Prop :=
  ∀ tr ∈ l, ∃ qrid, v = some (.str qrid) ∧ recipient_qrid tr = .str qrid

/-- All QR-IDs that are polled are strings, and every list is for its poll. -/
structure Addressed [Payment α] (s : State α) : Prop where
  strings : ∀ p ∈ s.polls, ∃ qrid, p.qrid = some (.str qrid)
  asked : ∀ q ∈ s.searches, ∀ c ∈ q.or, ∃ qrid, c.qrid = some (.str qrid)
  found : ∀ q ∈ s.searches, ∀ l, q.phase.outcome = some (some l) →
    ∀ tr ∈ l, ∃ qrid, recipient_qrid tr = .str qrid
  given : ∀ a ∈ s.answers, ∀ l, a.2 = some l → ∃ p, s.polls[a.1]? = some p ∧ AddressedTo p.qrid l

/-- A poll that is registered has a string as its QR-ID. -/
def StringPolls (_ : State α) : Event α → Prop
  | .register p => ∃ qrid, p.qrid = some (.str qrid)
  | _ => True

namespace Addressed

variable [Payment α]

theorem init (L : List α) : Addressed (State.init L) where
  strings _ h := absurd h List.not_mem_nil
  asked _ h := absurd h List.not_mem_nil
  found _ h := absurd h List.not_mem_nil
  given _ h := absurd h List.not_mem_nil

/-- The poll that an answer belongs to stays. -/
theorem given_of_keeps (h : Addressed s) {polls' : List Poll} (hk : Keeps s.polls polls') :
    ∀ a ∈ s.answers, ∀ l, a.2 = some l → ∃ p, polls'[a.1]? = some p ∧ AddressedTo p.qrid l := by
  intro a ha l hl
  obtain ⟨p, hp, hto⟩ := h.given a ha l hl
  obtain ⟨b, hb⟩ := hk a.1 p hp
  exact ⟨_, hb, hto⟩

theorem register (h : Addressed s) {p : Poll} {qrid : String} (hp : p.qrid = some (.str qrid)) :
    Addressed { s with polls := s.polls ++ [{ p with active := true }] } :=
  ⟨forall_mem_concat h.strings ⟨qrid, hp⟩, h.asked, h.found, h.given_of_keeps (.append _ _)⟩

theorem answer (h : Addressed s) {idx : ℕ} {m : Option (List α)}
    (hm : ∀ l p, m = some l → s.polls[idx]? = some p → AddressedTo p.qrid l) :
    Addressed (s.answer idx m) := by
  rcases s.answer_cases idx m with hsame | ⟨p, hp, -, hset⟩
  · rw [hsame]
    exact h
  rw [hset]
  refine ⟨forall_mem_set idx h.strings (h.strings p (mem_of_getElem? hp)), h.asked, h.found,
    forall_mem_concat (h.given_of_keeps (.set hp false)) fun l hl => ?_⟩
  exact ⟨_, List.getElem?_set_self (List.getElem?_eq_some_iff.mp hp).1, hm l p hl hp⟩

theorem setSearch (h : Addressed s) {n : ℕ} {q : Search α} (hq : s.searches[n]? = some q)
    {phase : Phase (Option (List α))}
    (hfound : ∀ l, phase.outcome = some (some l) → ∀ tr ∈ l, ∃ qrid, recipient_qrid tr = .str qrid) :
    Addressed { s with searches := s.searches.set n { q with phase := phase } } where
  strings := h.strings
  asked := forall_mem_set n h.asked (h.asked q (mem_of_getElem? hq))
  found := forall_mem_set n h.found hfound
  given := h.given

/-- What a query by strings finds has a QR-ID. -/
theorem qrid_of_find {q : Search α} {trs l : List α} (hfind : q.find E trs = some l)
    (hasked : ∀ c ∈ q.or, ∃ qrid, c.qrid = some (.str qrid)) :
    ∀ tr ∈ l, ∃ qrid, recipient_qrid tr = .str qrid := by
  intro tr htr
  rw [Search.find] at hfind
  split at hfind
  next =>
    cases hfind
    obtain ⟨-, hany⟩ := List.mem_filter.mp (Newest.mem_of_mem_newest htr)
    obtain ⟨c, hc, hholds⟩ := List.any_eq_true.mp hany
    obtain ⟨qrid, hqrid⟩ := hasked c hc
    refine ⟨qrid, ?_⟩
    rw [Condition.holds] at hholds
    split at hholds
    next =>
      rw [hqrid, matchesQrid] at hholds
      simpa using (Bool.and_eq_true_iff.mp hholds).2
    next => cases hholds
  next => cases hfind

/-- The deliveries of a query reach the polls that it was made for. -/
theorem deliver (h : Addressed s) (ht : Tracked s) {n : ℕ} {q : Search α}
    (hq : s.searches[n]? = some q) {trlist : List α}
    (hphase : q.phase.outcome = some (some trlist)) :
    Addressed ((onTrlist q.qrid_to_indices trlist).acts.foldl State.handleDbPollAnswer s) := by
  have hmem := mem_of_getElem? hq
  have hend := foldl_handleDbPollAnswer
    (P := fun t => Addressed t ∧ Keeps s.polls t.polls)
    (onTrlist q.qrid_to_indices trlist).acts ⟨h, .refl _⟩ fun t d hd ⟨haddressed, hkeeps⟩ => by
      refine ⟨haddressed.answer fun l p hl hp => ?_, hkeeps.trans (keeps_answer t d.idx _)⟩
      cases hl
      obtain ⟨key, hcaptured, hgroup⟩ := mem_onTrlist hd
      obtain ⟨p₀, hp₀, hkey, -⟩ := ht.captured q hmem _ hcaptured
      obtain ⟨qrid₀, hqrid₀⟩ := h.strings p₀ (mem_of_getElem? hp₀)
      obtain ⟨a, ha⟩ := hkeeps _ _ hp₀
      cases hp.symm.trans ha
      intro tr htr
      rw [hgroup] at htr
      obtain ⟨htr, hkey'⟩ := List.mem_filter.mp htr
      obtain ⟨qrid, htrqrid⟩ := h.found q hmem trlist hphase tr htr
      rw [hqrid₀] at hkey
      cases hkey
      refine ⟨key, hqrid₀, ?_⟩
      rw [groupKey, htrqrid, Text.key_str, decide_eq_true_eq] at hkey'
      rw [htrqrid, hkey']
  exact hend.1

variable [DecidableEq α]

theorem step (h : Addressed s) (ht : Tracked s) {e : Event α} (hok : StringPolls s e)
    (hs : Polling.step E s e = some s') : Addressed s' := by
  cases step_cases hs with
  | register p =>
      obtain ⟨qrid, hqrid⟩ := hok
      exact h.register hqrid
  | timeout idx => exact h.answer fun l p hl => by cases hl
  | nopolls | nosearch => exact h
  | search hne hsearch =>
      obtain ⟨hor, -, -, hphase⟩ := search_eq_ok hsearch
      refine ⟨h.strings, forall_mem_concat h.asked ?_, forall_mem_concat h.found ?_, h.given⟩
      · intro c hc
        rw [hor] at hc
        obtain ⟨⟨p, idx⟩, hp, rfl⟩ := List.mem_map.mp hc
        exact h.strings p (mem_of_getElem? (mem_elements.mp hp).1)
      · intro l hl
        rw [hphase] at hl
        cases hl
  | searchDb hq hp hperm hfind =>
      refine h.setSearch hq fun l hl => ?_
      cases hl
      exact qrid_of_find hfind (h.asked _ (mem_of_getElem? hq))
  | searchFail hq hp | searchError hq hp => exact h.setSearch hq fun l hl => by cases hl
  | @deliver n q trlist hq hp =>
      have hfound : ∀ tr ∈ trlist, ∃ qrid, recipient_qrid tr = .str qrid :=
        h.found q (mem_of_getElem? hq) trlist (by rw [hp]; rfl)
      have hset : Addressed { s with
          searches := s.searches.set n { q with phase := .done (some trlist) } } :=
        h.setSearch hq fun l hl => by
          cases hl
          exact hfound
      exact hset.deliver (ht.setSearch hq _)
        (List.getElem?_set_self (List.getElem?_eq_some_iff.mp hq).1) rfl
  | write | remove => exact ⟨h.strings, h.asked, h.found, h.given⟩

end Addressed

section Run

variable [Payment α] [DecidableEq α] {L : List α}

/-- In every run with polls whose QR-IDs are strings, an index is answered at
most once, it is never taken over, and the transactions that it is answered with
have the QR-ID of its poll. -/
theorem polls_answered_once (run : Run (step E) StringPolls (.init L) s) :
    (∀ idx, s.answers.countP (fun a => a.1 = idx) ≤ 1) ∧
      (∀ s' : State α, AnyRun (step E) s s' → ∀ (idx : ℕ) (p : Poll), s.polls[idx]? = some p →
        ∃ a, s'.polls[idx]? = some { p with active := a }) ∧
      ∀ (idx : ℕ) (l : List α), (idx, some l) ∈ s.answers →
        ∃ p : Poll, s.polls[idx]? = some p ∧ ∀ tr ∈ l, ∃ qrid,
          p.qrid = some (.str qrid) ∧ recipient_qrid tr = .str qrid := by
  have h : Tracked s ∧ Addressed s :=
    run.invariant (I := fun s => Tracked s ∧ Addressed s) ⟨.init L, .init L⟩
      fun _ _ _ ih hok hs => ⟨ih.1.step hs, ih.2.step ih.1 hok hs⟩
  refine ⟨fun idx => (h.1.once idx).trans ?_, fun s' run' => keeps_run run', ?_⟩
  · rw [used]
    split
    · split <;> decide
    · decide
  · intro idx l hl
    exact h.2.given (idx, some l) hl l rfl

end Run

section Sample

/-- A poll of the QR-ID `1` at worker `0`, a payment to it and one tick. -/
def pollOnce : List (Event (ObjectId × Booking)) :=
  [.register (somePoll "1" 0), .write (somePayment 1 "1" 1000), .tick 0 (some 50),
    .searchDb 0 [somePayment 1 "1" 1000], .searchReply 0]

theorem polls_answered_once_pollOnce : ∃ s,
    Run (step Ext.simple) StringPolls (.init ([] : List (ObjectId × Booking))) s ∧
      s.answers.map Prod.fst = [0] ∧ s.answers.countP (fun a => a.1 = 0) ≤ 1 := by
  have hexec : (Runs.exec (step Ext.simple) (fun _ _ => True)
      (.init ([] : List (ObjectId × Booking))) pollOnce).map (·.answers.map Prod.fst) =
        some [0] := by decide +kernel
  have hstrings : ∀ e ∈ pollOnce, StringPolls (.init ([] : List (ObjectId × Booking))) e := by
    intro e he
    simp only [pollOnce, List.mem_cons, List.not_mem_nil, or_false] at he
    rcases he with rfl | rfl | rfl | rfl | rfl <;> first | trivial | exact ⟨"1", rfl⟩
  obtain ⟨s, run, hanswers⟩ := Runs.exists_run_of_exec_forall hstrings hexec
  have run' : Run (step Ext.simple) StringPolls (.init ([] : List (ObjectId × Booking))) s :=
    run.mono fun t e hok => by cases e <;> first | trivial | exact hok.1
  exact ⟨s, run', hanswers, (polls_answered_once run').1 0⟩

end Sample

end SchuleAlsStaat.Polling
