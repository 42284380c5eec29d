import SchuleAlsStaat.Polling.Interference
import SchuleAlsStaat.Polling.Ownership

/-!
# Ticks and callbacks that return

A tick of the regular search and the callback of its query run outside of any
`try`.  They use the polled QR-IDs as the names of properties: a tick throws at the
name of an inherited property, and a callback at a transaction whose QR-ID is not
the name of a poll.  `completes_iff` says that nothing else makes them throw, in
any state that the service reaches.
-/

namespace SchuleAlsStaat.Polling

open Calls (Phase forall_mem_set forall_mem_concat mem_of_getElem? withReply_eq_some)
open Js (JS)
open Runs (Run AnyRun exec exists_run_of_exec)
open Server (Poll)

/-! ## The callback -/

section Callback

variable {α : Type} [Payment α] {q2i : List (String × ℕ)} {trlist : List α}

omit [Payment α] in
theorem indices_ne_nil {key : String} : indices q2i key ≠ [] ↔ ∃ idx, (key, idx) ∈ q2i := by
  rw [indices, ne_eq, List.map_eq_nil_iff, List.filter_eq_nil_iff]
  push Not
  constructor
  · rintro ⟨⟨k, idx⟩, hmem, hk⟩
    have hk : k = key := by simpa using hk
    exact ⟨idx, hk ▸ hmem⟩
  · rintro ⟨idx, hmem⟩
    exact ⟨(key, idx), hmem, by simp⟩

/-- The loop returns when it finds indices for every group. -/
theorem handleGroups_result {keys : List String} :
    (handleGroups q2i trlist keys).result = .ok () ↔ ∀ key ∈ keys, ∃ idx, (key, idx) ∈ q2i := by
  induction keys with
  | nil => simp [handleGroups]
  | cons key keys ih =>
      rw [List.forall_mem_cons, ← ih, ← indices_ne_nil, handleGroups]
      split
      next hnil => simp [hnil]
      next hne =>
        rw [JS.bind_result_ok rfl]
        exact ⟨fun h => ⟨hne, h⟩, And.right⟩

theorem groupKeys_eq_ok {keys : List String} (h : groupKeys trlist = .ok keys) :
    ∀ key, key ∈ keys ↔ ∃ tr ∈ trlist, groupKey tr = key := by
  rw [groupKeys] at h
  split at h
  next => cases h
  next =>
    cases h
    intro key
    rw [mem_keyOrder, List.mem_eraseDups, List.mem_map]

/-- The callback returns when the QR-ID of every transaction has an index, where no
name of an inherited property has one. -/
theorem onTrlist_result (hproto : ∀ key idx, (key, idx) ∈ q2i → key ∉ objectPrototype) :
    (onTrlist q2i trlist).result = .ok () ↔
      ∀ tr ∈ trlist, ∃ idx, (groupKey tr, idx) ∈ q2i := by
  cases hkeys : groupKeys trlist with
  | error err =>
      have hthrows : (onTrlist q2i trlist).result = .error err := by
        rw [onTrlist, hkeys]
        rfl
      rw [hthrows]
      refine ⟨fun h => (by cases h), fun hall => ?_⟩
      rw [groupKeys] at hkeys
      split at hkeys
      next hany =>
        obtain ⟨tr, htr, hmem⟩ := List.any_eq_true.mp hany
        obtain ⟨idx, hidx⟩ := hall tr htr
        exact absurd (by simpa using hmem) (hproto _ idx hidx)
      next => cases hkeys
  | ok keys =>
      rw [onTrlist, hkeys, JS.lift_ok_bind, handleGroups_result]
      constructor
      · intro h tr htr
        exact h _ ((groupKeys_eq_ok hkeys _).mpr ⟨tr, htr, rfl⟩)
      · intro h key hkey
        obtain ⟨tr, htr, rfl⟩ := (groupKeys_eq_ok hkeys key).mp hkey
        exact h tr htr

end Callback

/-! ## Queries and polls -/

/-- The indices of a query are those of the polls in it, and none has the name of an
inherited property. -/
structure Search.Built {α : Type} (q : Search α) : Prop where
  keys : ∀ key, (∃ idx, (key, idx) ∈ q.qrid_to_indices) ↔ ∃ c ∈ q.or, c.qrid.toStr = .ok key
  proto : ∀ key idx, (key, idx) ∈ q.qrid_to_indices → key ∉ objectPrototype

theorem built_of_search {α : Type} {polls : List Poll} {w : WorkerId} {limit : Option ℕ}
    {q : Search α} (h : search polls w limit = .ok q) : q.Built := by
  obtain ⟨hor, hq2i, -, -⟩ := search_eq_ok h
  refine ⟨fun key => ?_, fun key idx hmem => ?_⟩
  · simp only [mem_qridToIndices hq2i, hor]
    constructor
    · rintro ⟨idx, p, hp, hkey⟩
      exact ⟨_, List.mem_map_of_mem hp, hkey⟩
    · rintro ⟨c, hc, hkey⟩
      obtain ⟨⟨p, idx⟩, hp, rfl⟩ := List.mem_map.mp hc
      exact ⟨idx, p, hp, hkey⟩
  · obtain ⟨p, hp, hkey⟩ := (mem_qridToIndices hq2i).mp hmem
    obtain ⟨key', hkey', hproto⟩ := qridToIndices_isOk.mp ⟨_, hq2i⟩ _ hp
    cases hkey.symm.trans hkey'
    exact hproto

/-- What the database returns satisfies the query. -/
theorem holds_of_find {α : Type} [Payment α] {E : Ext} {q : Search α} {trs trlist : List α}
    (h : q.find E trs = some trlist) : ∀ tr ∈ trlist, ∃ c ∈ q.or, c.holds E tr = true := by
  intro tr htr
  rw [Search.find] at h
  split at h
  next =>
    cases h
    exact List.any_eq_true.mp (List.mem_filter.mp (Newest.mem_of_mem_newest htr)).2
  next => cases h

/-- A transaction that a string is matched with has the string as its QR-ID. -/
theorem groupKey_of_holds {α : Type} [Payment α] {E : Ext} {c : Condition} {tr : α} {qrid : String}
    (hc : c.qrid = some (.str qrid)) (h : c.holds E tr = true) : groupKey tr = qrid := by
  rw [Condition.holds] at h
  split at h
  next =>
    have hmatch := (Bool.and_eq_true_iff.mp h).2
    rw [hc, matchesQrid, decide_eq_true_eq] at hmatch
    rw [groupKey, hmatch, Text.key_str]
  next => cases h

/-- The polls that wait have a string form, the queries are built, and what was
returned satisfies them. -/
structure Named (E : Ext) (s : Service) : Prop where
  polls : ∀ p ∈ s.server.polls, p.active = true → ∃ key, p.qrid.toStr = .ok key
  searches : ∀ q ∈ s.searches, q.Built
  returned : ∀ q ∈ s.searches, ∀ trlist, q.phase = .replied (some trlist) →
    ∀ tr ∈ trlist, ∃ c ∈ q.or, c.holds E tr = true

namespace Named

variable {E : Ext} {K : Keys} {s s' : Service}

theorem init (S : Students) (L : Ledger) : Named E (.init S L) where
  polls _ h := absurd h List.not_mem_nil
  searches _ h := absurd h List.not_mem_nil
  returned _ h := absurd h List.not_mem_nil

theorem setSearch (h : Named E s) {n : ℕ} {q : Search Booking} (hq : s.searches[n]? = some q)
    {phase : Phase (Option (List Booking))}
    (hphase : ∀ trlist, phase = .replied (some trlist) →
      ∀ tr ∈ trlist, ∃ c ∈ q.or, c.holds E tr = true) :
    Named E { s with searches := s.searches.set n { q with phase := phase } } := by
  have hbuilt := h.searches q (mem_of_getElem? hq)
  exact ⟨h.polls, forall_mem_set n h.searches ⟨hbuilt.keys, hbuilt.proto⟩,
    forall_mem_set n h.returned hphase⟩

/-- A poll that starts was logged with its QR-ID. -/
theorem server (h : Named E s) {e : Server.Event} {server : Server.State}
    (hs : Server.step E K s.server e = some server) : Named E { s with server := server } := by
  refine ⟨fun p hp hactive => ?_, h.searches, h.returned⟩
  rcases (Server.grows_step hs).polls p hp hactive with hp | ⟨a, ha, w, hstarted⟩
  · exact h.polls p hp hactive
  · cases a with
    | poll client date qrid =>
        cases hstarted
        rcases Service.acts_cases ha with hcalm | ⟨c, r, env, -, -, ha⟩
        · exact hcalm.elim
        · obtain ⟨_, _, _, _, _, -, -, -, -, -, hkey, -⟩ := mem_onReply_poll ha
          exact hkey
    | _ => cases hstarted

theorem deliver (h : Named E s) (d : Delivery Booking) : Named E (s.handleDbPollAnswer d) := by
  rcases handleDbPollAnswer_cases s d with hsame | ⟨p, hp, -, hset⟩
  · rw [hsame]
    exact h
  · rw [hset]
    exact ⟨forall_mem_set d.idx h.polls (fun hfalse => by cases hfalse), h.searches, h.returned⟩

/-- A step of the queries. -/
theorem search (h : Named E s) {e : Event Booking} {u : State Booking} (he : isSearch e = true)
    (hs : Polling.step E s.view e = some u) : Named E { s with searches := u.searches } := by
  cases step_cases hs with
  | nopolls | nosearch => exact h
  | search hne hsearch =>
      obtain ⟨-, -, -, hsent⟩ := search_eq_ok hsearch
      refine ⟨h.polls, forall_mem_concat h.searches (built_of_search hsearch),
        forall_mem_concat h.returned fun trlist hphase => ?_⟩
      rw [hsent] at hphase
      cases hphase
  | searchDb hq hp hperm hfind =>
      refine h.setSearch hq fun trlist hphase => ?_
      cases hphase
      exact holds_of_find hfind
  | searchFail hq hp => exact h.setSearch hq fun trlist hphase => by cases hphase
  | _ => cases he

theorem step (h : Named E s) {e : ServiceEvent} (hs : s.step E K e = some s') : Named E s' := by
  cases serviceStep_cases hs with
  | server _ hserver => exact h.server hserver
  | search he hu => exact h.search he hu
  | searchError hq _ => exact h.setSearch hq fun trlist hdone => by cases hdone
  | deliver hq _ =>
      refine foldl_deliveries _ (h.setSearch hq fun trlist hdone => ?_) fun t d _ ht => ht.deliver d
      cases hdone

end Named

/-! ## Completion -/

/-- The next tick of every worker returns, and so does every callback that has
a list to deal with. -/
structure Completes (s : Service) : Prop where
  tick : ∀ (w : WorkerId) (limit : Option ℕ),
    ∃ q, search s.server.polls w limit = .ok (q : Search Booking)
  callback : ∀ q ∈ s.searches, ∀ trlist, q.phase = .replied (some trlist) →
    (onTrlist q.qrid_to_indices trlist).result = .ok ()

/-- No QR-ID that is polled is the name of an inherited property, and every
transaction that was returned has a QR-ID that its query asks for by name. -/
structure AskedByName (s : Service) : Prop where
  polled : ∀ p ∈ s.server.polls, p.active = true → ∀ key, p.qrid.toStr = .ok key →
    key ∉ objectPrototype
  returned : ∀ q ∈ s.searches, ∀ trlist, q.phase = .replied (some trlist) →
    ∀ tr ∈ trlist, ∃ c ∈ q.or, c.qrid.toStr = .ok (groupKey tr)

namespace Named

variable {E : Ext} {s : Service}

/-- The ticks return when no poll has the name of an inherited property. -/
theorem tick_iff (h : Named E s) :
    (∀ (w : WorkerId) (limit : Option ℕ),
        ∃ q, Polling.search s.server.polls w limit = .ok (q : Search Booking)) ↔
      ∀ p ∈ s.server.polls, p.active = true → ∀ key, p.qrid.toStr = .ok key →
        key ∉ objectPrototype := by
  constructor
  · intro htick p hp hactive key hkey
    obtain ⟨idx, hidx⟩ := List.mem_iff_getElem?.mp hp
    obtain ⟨q, hq⟩ := htick p.worker none
    obtain ⟨-, hq2i, -, -⟩ := search_eq_ok hq
    obtain ⟨key', hkey', hproto⟩ :=
      qridToIndices_isOk.mp ⟨_, hq2i⟩ (p, idx) (mem_elements.mpr ⟨hidx, hactive, rfl⟩)
    cases hkey.symm.trans hkey'
    exact hproto
  · intro hproto w limit
    have hall : ∀ p ∈ elements s.server.polls w, ∃ key, p.1.qrid.toStr = .ok key ∧
        key ∉ objectPrototype := by
      rintro ⟨p, idx⟩ hp
      obtain ⟨hidx, hactive, -⟩ := mem_elements.mp hp
      obtain ⟨key, hkey⟩ := h.polls p (mem_of_getElem? hidx) hactive
      exact ⟨key, hkey, hproto p (mem_of_getElem? hidx) hactive key hkey⟩
    obtain ⟨q2i, hq2i⟩ := qridToIndices_isOk.mpr hall
    refine ⟨⟨w, conditions (elements s.server.polls w), q2i, limit, .sent⟩, ?_⟩
    rw [Polling.search, hq2i]
    rfl

/-- A callback returns when every QR-ID was asked for by name. -/
theorem callback_iff (h : Named E s) {q : Search Booking} (hq : q ∈ s.searches)
    (trlist : List Booking) :
    (onTrlist q.qrid_to_indices trlist).result = .ok () ↔
      ∀ tr ∈ trlist, ∃ c ∈ q.or, c.qrid.toStr = .ok (groupKey tr) := by
  have hbuilt := h.searches q hq
  rw [onTrlist_result hbuilt.proto]
  exact forall₂_congr fun tr _ => hbuilt.keys (groupKey tr)

theorem completes (h : Named E s) : Completes s ↔ AskedByName s := by
  constructor
  · rintro ⟨htick, hcallback⟩
    exact ⟨h.tick_iff.mp htick, fun q hq trlist hphase =>
      (h.callback_iff hq trlist).mp (hcallback q hq trlist hphase)⟩
  · rintro ⟨hpolled, hreturned⟩
    exact ⟨h.tick_iff.mpr hpolled, fun q hq trlist hphase =>
      (h.callback_iff hq trlist).mpr (hreturned q hq trlist hphase)⟩

/-- What a query by strings returns was asked for by name. -/
theorem returned_of_strings (h : Named E s) {q : Search Booking} (hq : q ∈ s.searches)
    (hstr : ∀ c ∈ q.or, ∃ qrid, c.qrid = some (.str qrid)) {trlist : List Booking}
    (hphase : q.phase = .replied (some trlist)) :
    ∀ tr ∈ trlist, ∃ c ∈ q.or, c.qrid.toStr = .ok (groupKey tr) := by
  intro tr htr
  obtain ⟨c, hc, hholds⟩ := h.returned q hq trlist hphase tr htr
  obtain ⟨qrid, hqrid⟩ := hstr c hc
  refine ⟨c, hc, ?_⟩
  rw [groupKey_of_holds hqrid hholds, hqrid]
  rfl

end Named

theorem named_of_run {E : Ext} {K : Keys} {S : Students} {L : Ledger} {s : Service}
    {ok : Service → ServiceEvent → Prop} (run : Run (Service.step E K) ok (.init S L) s) :
    Named E s :=
  run.invariant (I := Named E) (.init S L) fun _ _ _ ih _ hs => ih.step hs

/-- Polls for strings that are not the name of an inherited property bring no worker
down. -/
theorem completes_of_strings {E : Ext} {K : Keys} {S : Students} {L : Ledger} {s : Service}
    (run : AnyRun (Service.step E K) (.init S L) s)
    (hpolls : ∀ p ∈ s.server.polls, p.active = true →
      ∃ qrid, p.qrid = some (.str qrid) ∧ qrid ∉ objectPrototype)
    (hsearches : ∀ q ∈ s.searches, ∀ c ∈ q.or, ∃ qrid, c.qrid = some (.str qrid)) :
    Completes s := by
  have hnamed := named_of_run run
  refine hnamed.completes.mpr ⟨fun p hp hactive key hkey => ?_, fun q hq trlist hphase => ?_⟩
  · obtain ⟨qrid, hqrid, hproto⟩ := hpolls p hp hactive
    rw [hqrid] at hkey
    cases hkey
    exact hproto
  · exact hnamed.returned_of_strings hq (hsearches q hq) hphase

section Sample

open Server (lookup)

end Sample

end SchuleAlsStaat.Polling
