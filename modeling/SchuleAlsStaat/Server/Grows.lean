import SchuleAlsStaat.Actions.Bookings
import SchuleAlsStaat.Pending.Underway
import SchuleAlsStaat.Server.Bank

/-!
# What a step of the server adds

`acts` is the code that a step of the server runs.  `Grows` says that entries,
polls and lists appear only where these acts or the regular search put them.  The
ledger grows only by an entry on its way, and the students change only when a call
is executed.
-/

namespace SchuleAlsStaat.Server


variable {E : Ext} {K : Keys} {s s' : State}

/-- The acts that a step performs. -/
def State.acts (E : Ext) (K : Keys) (s : State) : Event → List Act
  | .request _ env name post => (prepare_action E K env ⟨s.received.length, none⟩ name post).acts
  | .callReply n env =>
      match s.calls[n]? with
      | some ⟨_, client, query, .replied (some r)⟩ => (onReply E env client query r).acts
      | _ => []
  | _ => []

theorem acts_callReply {n : ℕ} {env : Env} {c : Call} {r : Reply} (hc : s.calls[n]? = some c)
    (hp : c.phase = .replied (some r)) :
    s.acts E K (.callReply n env) = (onReply E env c.client c.query r).acts := by
  obtain ⟨w, client, query, phase⟩ := c
  cases hp
  simp only [State.acts, hc]

/-- An error is passed to no callback. -/
theorem acts_callReply_none {n : ℕ} {env : Env} {c : Call} (hc : s.calls[n]? = some c)
    (hp : c.phase = .replied none) : s.acts E K (.callReply n env) = [] := by
  obtain ⟨w, client, query, phase⟩ := c
  cases hp
  simp only [State.acts, hc]

theorem draft_of_internal {e : Pending.Event} (h : internal e = true) : e.draft = none := by
  cases e <;> first | rfl | cases h

/-! ## What a step adds -/

/-- What is new in a state: the entries, polls and lists come from acts or from
the regular search. -/
structure Grows (acts : List Act) (e : Event) (s s' : State) : Prop where
  underway : ∀ d ∈ s'.bank.underway, d ∈ s.bank.underway ∨ ∃ a ∈ acts, a.draft = some d
  polls : ∀ p ∈ s'.polls, p.active = true → p ∈ s.polls ∨ ∃ a ∈ acts, ∃ w, startedPoll w a = some p
  answers : ∀ x ∈ s'.answers, x ∈ s.answers ∨ x.2.isList = false ∨
    (∃ a ∈ acts, givenAnswer a = some x) ∨ ∃ n trgroup, e = .handleDbPollAnswer n trgroup

/-- An act adds at most its entry. -/
theorem mem_underway_perform {w : WorkerId} {now : Time} {a : Act} {d : Draft}
    (hd : d ∈ (s.perform w now a).bank.underway) : d ∈ s.bank.underway ∨ a.draft = some d := by
  cases a with
  | intent client sender entry =>
      exact Pending.mem_underway_step (e := .intent w now sender entry client) rfl hd
  | spawn client entry => exact Pending.mem_underway_step (e := .spawn entry client) rfl hd
  | _ => exact .inl hd

theorem mem_underway_performAll {w : WorkerId} {now : Time} {acts : List Act} {d : Draft}
    (hd : d ∈ (s.performAll w now acts).bank.underway) :
    d ∈ s.bank.underway ∨ ∃ a ∈ acts, a.draft = some d := by
  induction acts generalizing s with
  | nil => exact .inl hd
  | cons a acts ih =>
      rcases ih hd with hd | ⟨b, hb, hdraft⟩
      · exact (mem_underway_perform hd).imp_right fun hdraft =>
          ⟨a, List.mem_cons_self .., hdraft⟩
      · exact .inr ⟨b, List.mem_cons_of_mem _ hb, hdraft⟩

namespace Grows

variable {acts : List Act} {e : Event}

/-- The phase of a call changes. -/
theorem setCall (acts : List Act) (e : Event) (s : State) (n : ℕ) (c : Call) :
    Grows acts e s { s with calls := s.calls.set n c } :=
  ⟨fun _ h => .inl h, fun _ h _ => .inl h, fun _ h => .inl h⟩

theorem send (h : Grows acts e s s') {client : Client} {m : Answer} (hm : m.isList = false) :
    Grows acts e s (s'.send client m) :=
  { h with answers := Calls.forall_mem_concat h.answers (.inr (.inl hm)) }

theorem performAll (h : Grows acts e s s') (w : WorkerId) (now : Time) :
    Grows acts e s (s'.performAll w now acts) where
  underway d hd := (mem_underway_performAll hd).elim (h.underway d) .inr
  polls p hp hactive := by
    rw [State.performAll_polls] at hp
    rcases List.mem_append.mp hp with hp | hp
    · exact h.polls p hp hactive
    · obtain ⟨a, ha, hstarted⟩ := List.mem_filterMap.mp hp
      exact .inr ⟨a, ha, w, hstarted⟩
  answers x hx := by
    rw [State.performAll_answers] at hx
    rcases List.mem_append.mp hx with hx | hx
    · exact h.answers x hx
    · exact .inr (.inr (.inl (List.mem_filterMap.mp hx)))

/-- An answered poll is not active any more. -/
theorem takeOff {n : ℕ} {p : Poll} (m : Answer)
    (hm : m.isList = false ∨ ∃ n trgroup, e = .handleDbPollAnswer n trgroup) :
    Grows acts e s
      { s.send p.client m with polls := s.polls.set n { p with active := false } } := by
  refine ⟨fun _ h => .inl h, ?_, ?_⟩
  · exact Calls.forall_mem_set n (fun _ h _ => .inl h) fun hactive => by cases hactive
  · exact Calls.forall_mem_concat (fun _ h => .inl h)
      (hm.elim (fun hm => .inr (.inl hm)) fun he => .inr (.inr (.inr he)))

/-- The pending transactions take a step by themselves. -/
theorem bank {b : Pending.Event} {bank : Pending.State} (hb : b.draft = none)
    (hs : Pending.step s.bank b = some bank) : Grows acts e s { s with bank := bank } where
  underway d hd := .inl ((Pending.mem_underway_step hs hd).resolve_right fun h => by
    rw [hb] at h
    cases h)
  polls _ h _ := .inl h
  answers _ h := .inl h

end Grows

/-- A step adds nothing but what its acts and the regular search add. -/
theorem grows_step {e : Event} (hs : step E K s e = some s') :
    Grows (s.acts E K e) e s s' := by
  cases step_cases hs with
  | request w env name post =>
      have hreceived : Grows (s.acts E K (.request w env name post)) (.request w env name post) s
          { s with received := s.received ++ [⟨name, post⟩] } :=
        ⟨fun _ h => .inl h, fun _ h _ => .inl h, fun _ h => .inl h⟩
      exact hreceived.performAll w env.now
  | @removeDb n k c id bank hc hp hq hb =>
      have hdelete : Grows (s.acts E K (.removeDb n k)) (.removeDb n k) s
          { s with bank := bank } := .bank (b := .delete k) rfl hb
      exact ⟨hdelete.underway, hdelete.polls, hdelete.answers⟩
  | @callReply n c r env hc hp =>
      have hall := (Grows.setCall (s.acts E K (.callReply n env)) (.callReply n env) s n
        { c with phase := .done (some r) }).performAll c.worker env.now
      rw [acts_callReply hc hp] at hall ⊢
      exact hall
  | @callError n c env hc hp hcb =>
      exact (Grows.setCall _ (.callReply n env) s n { c with phase := .done none }).send rfl
  | sumError | sumComplete =>
      exact ⟨fun _ h => .inl h, fun _ h _ => .inl h,
        Calls.forall_mem_concat (fun _ h => .inl h) (.inr (.inl rfl))⟩
  | pollTimeout hp ha => exact .takeOff _ (.inl rfl)
  | @handleDbPollAnswer n p trgroup hp ha => exact .takeOff _ (.inr ⟨n, trgroup, rfl⟩)
  | bank hi hb => exact .bank (draft_of_internal hi) hb
  | _ => exact ⟨fun _ h => .inl h, fun _ h _ => .inl h, fun _ h => .inl h⟩

/-- The ledger grows only by an entry on its way. -/
theorem mem_transactions_step {e : Event} (hs : step E K s e = some s') {b : Booking}
    (hb : b ∈ s'.bank.transactions) :
    b ∈ s.bank.transactions ∨ ∃ d ∈ s.bank.underway, d.cast = some b := by
  rcases ledger_step hs with h | ⟨m, c, b', rfl, -, -, -⟩ | ⟨n, k, -, h⟩
  · rw [h] at hb
    exact .inl hb
  · simp only [step, internal, if_true] at hs
    obtain ⟨bank, hbank, rfl⟩ := Option.map_eq_some_iff.mp hs
    exact Pending.mem_transactions_step hbank hb
  · rw [h] at hb
    exact .inl (List.mem_of_mem_eraseIdx hb)

/-- What a step does to the requests and the students: a request arrives, a call
is executed, or both stay. -/
theorem frame_step {e : Event} (hs : step E K s e = some s') :
    (s'.received = s.received ∧ s'.students = s.students) ∨
    (∃ w env name post, e = .request w env name post ∧
      s'.received = s.received ++ [⟨name, post⟩] ∧ s'.students = s.students) ∨
    ∃ n r c t, e = .callDb n r ∧ s.calls[n]? = some c ∧ execute E s c.query r = some t ∧
      s'.received = s.received ∧ s'.bank = s.bank ∧ s'.students = t.students := by
  cases step_cases hs with
  | request w env name post =>
      obtain ⟨hreceived, hstudents, -⟩ := State.performAll_frame w env.now
        (prepare_action E K env ⟨s.received.length, none⟩ name post).acts
        { s with received := s.received ++ [⟨name, post⟩] }
      exact .inr (.inl ⟨w, env, name, post, rfl, hreceived, hstudents⟩)
  | @callDb n r c S m hc hp hx => exact .inr (.inr ⟨n, r, c, _, rfl, hc, hx, rfl, rfl, rfl⟩)
  | @callReply n c r env hc hp =>
      obtain ⟨hreceived, hstudents, -⟩ := State.performAll_frame c.worker env.now
        (onReply E env c.client c.query r).acts
        { s with calls := s.calls.set n { c with phase := .done (some r) } }
      exact .inl ⟨hreceived, hstudents⟩
  | _ => exact .inl ⟨rfl, rfl⟩

/-- The students change only when a call to the database is executed, and with
them nothing of the pending transactions. -/
theorem students_step {e : Event} (hs : step E K s e = some s') :
    s'.students = s.students ∨ s'.bank = s.bank ∧ ∃ n r c t, e = .callDb n r ∧
      s.calls[n]? = some c ∧ execute E s c.query r = some t ∧ s'.students = t.students := by
  rcases frame_step hs with ⟨-, hstudents⟩ | ⟨w, env, name, post, -, -, hstudents⟩ |
    ⟨n, r, c, t, he, hc, ht, -, hbank, hstudents⟩
  · exact .inl hstudents
  · exact .inl hstudents
  · exact .inr ⟨hbank, n, r, c, t, he, hc, ht, hstudents⟩

/-- A request that has arrived stays where it is. -/
theorem received_step {e : Event} (hs : step E K s e = some s') {r : ReqId} {q : Received}
    (hq : s.received[r]? = some q) : s'.received[r]? = some q := by
  rcases frame_step hs with ⟨h, -⟩ | ⟨w, env, name, post, -, h, -⟩ | ⟨n, r', c, t, -, -, -, h, -, -⟩
  · rw [h, hq]
  · rw [h, Calls.getElem?_append_of_some hq]
  · rw [h, hq]

end SchuleAlsStaat.Server
