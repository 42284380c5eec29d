import SchuleAlsStaat.Polling.Slots

/-!
# The app as a polling client

`longpolling` of the app.  It polls with the date `last_sync`, waits for the
answer, and then takes the time of the first transaction as its next date.  It
has one poll at a time, at any worker.

The times of transactions are whole seconds, and a transaction is written at
any moment after its time was taken.  `none_lost` says under which condition no
transaction to the app gets between `last_sync` and the ledger unseen.
-/

namespace SchuleAlsStaat.Polling

open Calls (Phase forall_mem_concat mem_of_getElem?)
open Newest (newest)
open Payment (time recipient_qrid)
open Runs (Run AnyRun)
open Server (Poll)

/-! ## The app -/

/-- What the app stores, and the transactions it was answered. -/
structure App (α : Type) where
  qrid : String
  last_sync : Time
  /-- The index of the poll that `polling_active` stands for. -/
  waiting : Option ℕ
  received : List α

/-- The callback of `action_poll`. -/
def App.onAnswer {α : Type} [Payment α] (a : App α) : Option (List α) → App α
  | some (tr :: res) => { a with
      last_sync := time tr, received := a.received ++ tr :: res, waiting := none }
  | _ => { a with waiting := none }

/-- The server and one app. -/
structure System (α : Type) where
  polling : State α
  app : App α

/-- An app that starts with a date on a given ledger. -/
def System.init {α : Type} (L : List α) (qrid : String) (date : Time) : System α :=
  ⟨.init L, ⟨qrid, date, none, []⟩⟩

inductive AppEvent (α : Type) where
  | server (e : Event α)
  /-- The app polls at a worker. -/
  | poll (w : WorkerId) (client : Client)
  /-- The answer reaches the app. -/
  | receive

variable (E : Ext) {α : Type} [Payment α]

/-- A transaction is written with a time in whole seconds. -/
def Event.inSeconds : Event α → Bool
  | .write tr => time tr % 1000 = 0
  | _ => true

/-- One step, if the event is enabled. -/
def System.step [DecidableEq α] (s : System α) : AppEvent α → Option (System α)
  | .server e => if e.inSeconds then (Polling.step E s.polling e).map fun t => { s with polling := t }
      else none
  | .poll w client => if s.app.waiting.isNone then
      (Polling.step E s.polling
        (.register ⟨w, client, s.app.last_sync, some (.str s.app.qrid), true⟩)).map fun t =>
          { polling := t, app := { s.app with waiting := some s.polling.polls.length } }
      else none
  | .receive => s.app.waiting.bind fun idx =>
      (s.polling.answers.find? fun a => a.1 = idx).map fun a => { s with app := s.app.onAnswer a.2 }

/-! ## The condition -/

/-- The list that a query has read for an index. -/
def Search.readFor (q : Search α) (qrid : String) (idx : ℕ) : Option (List α) :=
  match q.phase with
  | .replied (some trlist) =>
      if (qrid, idx) ∈ q.qrid_to_indices then some (group trlist qrid) else none
  | _ => none

/-- The lists that are on their way to the app. -/
def System.lists (s : System α) : List (List α) :=
  match s.app.waiting with
  | none => []
  | some idx =>
      s.polling.answers.filterMap (fun a => if a.1 = idx then a.2 else none) ++
        if Waiting s.polling idx then s.polling.searches.filterMap (·.readFor s.app.qrid idx) else []

/-- The limit keeps all transactions to the QR-ID that are later than the date,
or all to the QR-ID are cut off. -/
def Uncut (q : Search α) (trs : List α) (qrid : String) (date : Time) : Prop :=
  let asked := trs.filter fun tr => q.or.any fun c => c.holds E tr
  (∀ tr ∈ asked, recipient_qrid tr = .str qrid → date < time tr → tr ∈ newest time q.limit asked) ∨
    ∀ tr ∈ newest time q.limit asked, groupKey tr ≠ qrid

/-- A transaction to the app is written while its time is later than `last_sync`
and than all transactions on their way to the app, and the query that reads for
the app is not cut between transactions to the app. -/
def Timely (date : Time) (s : System α) : AppEvent α → Prop
  | .server (.write tr) => recipient_qrid tr = .str s.app.qrid → date < time tr →
      s.app.last_sync < time tr ∧ ∀ l ∈ s.lists, ∀ x ∈ l, time x < time tr
  | .server (.searchDb n trs) => ∀ q ∈ s.polling.searches[n]?, ∀ idx ∈ s.app.waiting,
      Waiting s.polling idx → (s.app.qrid, idx) ∈ q.qrid_to_indices →
        Uncut E q trs s.app.qrid s.app.last_sync
  | _ => True

variable {E}

/-! ## Lists on their way -/

section Lists

variable {s : System α} {l : List α}

theorem readFor_eq_some {q : Search α} {qrid : String} {idx : ℕ} :
    q.readFor qrid idx = some l ↔ ∃ trlist, q.phase = .replied (some trlist) ∧
      (qrid, idx) ∈ q.qrid_to_indices ∧ l = group trlist qrid := by
  rw [Search.readFor]
  constructor
  · intro h
    split at h
    next trlist hphase =>
      split at h
      next hmem =>
        cases h
        exact ⟨trlist, hphase, hmem, rfl⟩
      next => cases h
    next => cases h
  · rintro ⟨trlist, hphase, hmem, rfl⟩
    rw [hphase]
    exact if_pos hmem

theorem mem_lists : l ∈ s.lists ↔ ∃ idx, s.app.waiting = some idx ∧
    ((idx, some l) ∈ s.polling.answers ∨ Waiting s.polling idx ∧
      ∃ q ∈ s.polling.searches, q.readFor s.app.qrid idx = some l) := by
  rw [System.lists]
  cases hw : s.app.waiting with
  | none => simp
  | some idx =>
      simp only [List.mem_append, Option.some.injEq, exists_eq_left']
      refine or_congr ?_ ?_
      · rw [List.mem_filterMap]
        constructor
        · rintro ⟨⟨n, m⟩, ha, hl⟩
          dsimp only at hl
          split at hl
          next hn =>
            subst hn
            cases hl
            exact ha
          next => cases hl
        · intro ha
          exact ⟨(idx, some l), ha, by simp⟩
      · by_cases hwait : Waiting s.polling idx
        · rw [if_pos hwait, List.mem_filterMap]
          exact ⟨fun h => ⟨hwait, h⟩, fun h => h.2⟩
        · rw [if_neg hwait]
          exact ⟨fun h => absurd h List.not_mem_nil, fun h => absurd h.1 hwait⟩

/-- A state with fewer answers, fewer replies and fewer polls has fewer lists
on their way. -/
theorem lists_subset {s' : System α} (happ : s'.app = s.app)
    (hanswers : ∀ idx l, s.app.waiting = some idx → (idx, some l) ∈ s'.polling.answers →
      l ∈ s.lists)
    (hwaiting : ∀ idx, Waiting s'.polling idx → Waiting s.polling idx)
    (hsearches : ∀ q ∈ s'.polling.searches, ∀ idx l, s.app.waiting = some idx →
      q.readFor s.app.qrid idx = some l → ∃ q' ∈ s.polling.searches,
        q'.readFor s.app.qrid idx = some l) :
    ∀ l ∈ s'.lists, l ∈ s.lists := by
  intro l hl
  obtain ⟨idx, hidx, hl⟩ := mem_lists.mp hl
  rw [happ] at hidx hl
  rcases hl with hl | ⟨hwait, q, hq, hread⟩
  · exact hanswers idx l hidx hl
  · exact mem_lists.mpr ⟨idx, hidx, .inr ⟨hwaiting idx hwait, hsearches q hq idx l hidx hread⟩⟩

end Lists

/-! ## The invariant -/

/-- Nothing up to `last_sync` is missing, and neither will it be when a list on
its way arrives. -/
structure Caught (date : Time) (s : System α) : Prop where
  tracked : Tracked s.polling
  waiting : ∀ idx, s.app.waiting = some idx → ∃ p : Poll, s.polling.polls[idx]? = some p ∧
    p.qrid = some (.str s.app.qrid) ∧ p.date = s.app.last_sync
  received : ∀ tr ∈ s.polling.transactions, recipient_qrid tr = .str s.app.qrid → date < time tr →
    time tr ≤ s.app.last_sync → tr ∈ s.app.received
  complete : ∀ l ∈ s.lists, ∀ tr ∈ s.polling.transactions, recipient_qrid tr = .str s.app.qrid →
    date < time tr → s.app.last_sync < time tr → ∀ x ∈ l, time tr ≤ time x → tr ∈ l

namespace Caught

variable {date : Time} {s s' : System α}

theorem init (L : List α) (qrid : String) (date : Time) : Caught date (.init L qrid date) where
  tracked := .init L
  waiting _ h := by cases h
  received _ _ _ hdate hsync := absurd (hdate.trans_le hsync) (lt_irrefl _)
  complete _ h := absurd h List.not_mem_nil

/-- A step that neither adds transactions nor lists on their way. -/
theorem frame (h : Caught date s) {t : State α} (htracked : Tracked t)
    (hkeeps : Keeps s.polling.polls t.polls)
    (htransactions : ∀ tr ∈ t.transactions, tr ∈ s.polling.transactions)
    (hlists : ∀ l ∈ ({ s with polling := t } : System α).lists, l ∈ s.lists) :
    Caught date { s with polling := t } where
  tracked := htracked
  waiting idx hidx := by
    obtain ⟨p, hp, hqrid, hdate⟩ := h.waiting idx hidx
    obtain ⟨a, ha⟩ := hkeeps idx p hp
    exact ⟨_, ha, hqrid, hdate⟩
  received tr htr := h.received tr (htransactions tr htr)
  complete l hl tr htr := h.complete l (hlists l hl) tr (htransactions tr htr)

/-- The poll that an app waits for is the one whose index a query has captured. -/
theorem key_eq (h : Caught date s) {q : Search α} (hq : q ∈ s.polling.searches) {key : String}
    {idx : ℕ} (hidx : s.app.waiting = some idx) (hkey : (key, idx) ∈ q.qrid_to_indices) :
    key = s.app.qrid ∧ ⟨dateOf s.app.last_sync, some (.str s.app.qrid)⟩ ∈ q.or := by
  obtain ⟨p, hp, hqrid, hdate⟩ := h.waiting idx hidx
  obtain ⟨p', hp', hkey', hor⟩ := h.tracked.captured q hq (key, idx) hkey
  cases hp.symm.trans hp'
  rw [hqrid] at hkey' hor
  rw [hdate] at hor
  cases hkey'
  exact ⟨rfl, hor⟩

theorem timeout (h : Caught date s) (idx : ℕ) :
    Caught date { s with polling := s.polling.answer idx none } := by
  refine h.frame (h.tracked.answer idx none) (keeps_answer _ idx none) (fun tr htr => ?_) ?_
  · rw [answer_transactions] at htr
    exact htr
  · refine lists_subset rfl (fun n l hn hl => ?_) (fun n hwait => waiting_of_answer hwait)
      fun q hq n l _ hread => ⟨q, by rwa [answer_searches] at hq, hread⟩
    rcases mem_answer hl with hl | ⟨-, -, hnone⟩
    · exact mem_lists.mpr ⟨n, hn, .inl hl⟩
    · cases hnone

/-- A query moves to a phase in which it holds no list for the app, or one that
it already held. -/
theorem setSearch (h : Caught date s) {n : ℕ} {q : Search α} (hq : s.polling.searches[n]? = some q)
    {phase : Phase (Option (List α))}
    (hread : ∀ idx l, ({ q with phase := phase } : Search α).readFor s.app.qrid idx = some l →
      q.readFor s.app.qrid idx = some l) :
    Caught date { s with polling := { s.polling with
      searches := s.polling.searches.set n { q with phase := phase } } } := by
  refine h.frame (h.tracked.setSearch hq phase) (.refl _) (fun tr htr => htr) ?_
  refine lists_subset rfl (fun idx l hidx hl => mem_lists.mpr ⟨idx, hidx, .inl hl⟩)
    (fun idx hwait => hwait) fun q' hq' idx l _ hl => ?_
  rcases List.mem_or_eq_of_mem_set hq' with hq' | rfl
  · exact ⟨q', hq', hl⟩
  · exact ⟨q, mem_of_getElem? hq, hread idx l hl⟩

theorem tick (h : Caught date s) {w : WorkerId} {limit : Option ℕ} {q : Search α}
    (hq : search s.polling.polls w limit = .ok q) :
    Caught date { s with polling := { s.polling with searches := s.polling.searches ++ [q] } } := by
  refine h.frame (h.tracked.tick hq) (.refl _) (fun tr htr => htr) ?_
  refine lists_subset rfl (fun idx l hidx hl => mem_lists.mpr ⟨idx, hidx, .inl hl⟩)
    (fun idx hwait => hwait) fun q' hq' idx l _ hl => ?_
  rcases List.mem_append.mp hq' with hq' | hq'
  · exact ⟨q', hq', hl⟩
  · cases List.mem_singleton.mp hq'
    obtain ⟨trlist, hphase, -⟩ := readFor_eq_some.mp hl
    obtain ⟨-, -, -, hsent⟩ := search_eq_ok hq
    rw [hsent] at hphase
    cases hphase

theorem register (h : Caught date s) (p : Poll) :
    Caught date { s with polling := { s.polling with
      polls := s.polling.polls ++ [{ p with active := true }] } } := by
  refine h.frame (h.tracked.register p) (.append _ _) (fun tr htr => htr) ?_
  intro l hl
  obtain ⟨idx, hidx, hl⟩ := mem_lists.mp hl
  refine mem_lists.mpr ⟨idx, hidx, hl.imp_right fun ⟨⟨p', hp', hactive⟩, hread⟩ => ?_⟩
  obtain ⟨p₀, hp₀, -⟩ := h.waiting idx hidx
  have hlt : idx < s.polling.polls.length := (List.getElem?_eq_some_iff.mp hp₀).1
  have hp' : (s.polling.polls ++ [{ p with active := true }])[idx]? = some p' := hp'
  rw [List.getElem?_append_left hlt] at hp'
  exact ⟨⟨p', hp', hactive⟩, hread⟩

/-- The query that reads for the app finds all transactions since `last_sync`, or none. -/
theorem searchDb [DecidableEq α] (h : Caught date s) {n : ℕ} {trs trlist : List α} {q : Search α}
    (hq : s.polling.searches[n]? = some q)
    (hperm : trs.Perm s.polling.transactions) (hfind : q.find E trs = some trlist)
    (huncut : ∀ idx ∈ s.app.waiting, Waiting s.polling idx →
      (s.app.qrid, idx) ∈ q.qrid_to_indices → Uncut E q trs s.app.qrid s.app.last_sync) :
    Caught date { s with polling := { s.polling with
      searches := s.polling.searches.set n { q with phase := .replied (some trlist) } } } where
  tracked := h.tracked.setSearch hq _
  waiting := h.waiting
  received := h.received
  complete := by
    intro l hl tr htr hto hdate hsync x hx hle
    obtain ⟨idx, hidx, hl⟩ := mem_lists.mp hl
    have hold : ∀ q' ∈ s.polling.searches, Waiting s.polling idx →
        q'.readFor s.app.qrid idx = some l → tr ∈ l := fun q' hq' hwait hread =>
      h.complete l (mem_lists.mpr ⟨idx, hidx, .inr ⟨hwait, q', hq', hread⟩⟩) tr htr hto hdate
        hsync x hx hle
    rcases hl with hl | ⟨hwait, q', hq', hread⟩
    · exact h.complete l (mem_lists.mpr ⟨idx, hidx, .inl hl⟩) tr htr hto hdate hsync x hx hle
    rcases List.mem_or_eq_of_mem_set hq' with hq' | rfl
    · exact hold q' hq' hwait hread
    -- the list is the one that was read in this step
    obtain ⟨_, hphase, hcaptured, rfl⟩ := readFor_eq_some.mp hread
    cases hphase
    rw [Search.find] at hfind
    split at hfind
    next hvalid =>
      cases hfind
      obtain ⟨-, hor⟩ := h.key_eq (mem_of_getElem? hq) hidx hcaptured
      obtain ⟨hx, hkey⟩ := List.mem_filter.mp hx
      rcases huncut idx hidx hwait hcaptured with hall | hnone
      · refine List.mem_filter.mpr ⟨hall tr ?_ hto hsync, by simp [groupKey, hto]⟩
        refine List.mem_filter.mpr ⟨hperm.mem_iff.mpr htr, List.any_eq_true.mpr ⟨_, hor, ?_⟩⟩
        have hsome := List.all_eq_true.mp hvalid _ hor
        obtain ⟨c, hc⟩ := Option.isSome_iff_exists.mp hsome
        have hc : dateOf (s.app.last_sync : ℚ) = some c := hc
        have hlt : c < time tr := by
          rw [eq_of_dateOf_intCast hc]
          exact hsync
        simp [Condition.holds, hc, hlt, matchesQrid, hto]
      · exact absurd (by simpa using hkey) (hnone x hx)
    next => cases hfind

/-- What a query has read for the app is on its way already before it is delivered. -/
theorem deliver (h : Caught date s) {n : ℕ} {q : Search α} (hq : s.polling.searches[n]? = some q)
    {trlist : List α} (hphase : q.phase = .replied (some trlist)) :
    Caught date { s with
      polling := (onTrlist q.qrid_to_indices trlist).acts.foldl State.handleDbPollAnswer
        { s.polling with
          searches := s.polling.searches.set n { q with phase := .done (some trlist) } } } := by
  have hmem := mem_of_getElem? hq
  have hset := h.tracked.setSearch hq (.done (some trlist))
  have htracked := foldl_handleDbPollAnswer (P := fun t => Tracked t ∧ Keeps s.polling.polls t.polls)
    (onTrlist q.qrid_to_indices trlist).acts ⟨hset, .refl _⟩ fun t d _ ht =>
      ⟨ht.1.answer d.idx _, ht.2.trans (keeps_answer t d.idx _)⟩
  have hafter := after_deliveries { s.polling with
    searches := s.polling.searches.set n { q with phase := .done (some trlist) } }
      (onTrlist q.qrid_to_indices trlist).acts
  refine h.frame htracked.1 htracked.2 (fun tr htr => hafter.transactions ▸ htr) ?_
  refine lists_subset rfl (fun idx l hidx hl => ?_) hafter.waiting fun q' hq' idx l _ hread => ?_
  · rcases hafter.answers idx _ hl with hl | ⟨hwait, d, hd, rfl, hgroup⟩
    · exact mem_lists.mpr ⟨idx, hidx, .inl hl⟩
    · obtain ⟨key, hcaptured, hkey⟩ := mem_onTrlist hd
      obtain ⟨rfl, -⟩ := h.key_eq hmem hidx hcaptured
      refine mem_lists.mpr ⟨d.idx, hidx, .inr ⟨hwait, q, hmem, ?_⟩⟩
      exact readFor_eq_some.mpr ⟨trlist, hphase, hcaptured, (Option.some.inj hgroup).trans hkey⟩
  · rw [hafter.searches] at hq'
    rcases List.mem_or_eq_of_mem_set hq' with hq' | rfl
    · exact ⟨q', hq', hread⟩
    · obtain ⟨_, hdone, -⟩ := readFor_eq_some.mp hread
      cases hdone

theorem write (h : Caught date s) {tr : α} (htimely : recipient_qrid tr = .str s.app.qrid →
    date < time tr → s.app.last_sync < time tr ∧ ∀ l ∈ s.lists, ∀ x ∈ l, time x < time tr) :
    Caught date { s with polling := { s.polling with
      transactions := s.polling.transactions ++ [tr] } } where
  tracked := ⟨h.tracked.once, h.tracked.captured⟩
  waiting := h.waiting
  received := by
    refine forall_mem_concat h.received fun hto hdate hle => ?_
    exact absurd ((htimely hto hdate).1.trans_le hle) (lt_irrefl _)
  complete l hl := by
    refine forall_mem_concat (h.complete l hl) fun hto hdate _ x hx hle => ?_
    exact absurd (((htimely hto hdate).2 l hl x hx).trans_le hle) (lt_irrefl _)

theorem remove (h : Caught date s) (k : ℕ) :
    Caught date { s with polling := { s.polling with
      transactions := s.polling.transactions.eraseIdx k } } :=
  h.frame ⟨h.tracked.once, h.tracked.captured⟩ (.refl _)
    (fun _ htr => List.mem_of_mem_eraseIdx htr) fun _ hl => hl

/-- A new poll has nothing on its way yet. -/
theorem poll (h : Caught date s) {p : Poll} (hqrid : p.qrid = some (.str s.app.qrid))
    (hdate : p.date = s.app.last_sync) :
    Caught date {
      polling := { s.polling with polls := s.polling.polls ++ [{ p with active := true }] }
      app := { s.app with waiting := some s.polling.polls.length } } where
  tracked := h.tracked.register p
  waiting idx hidx := by
    cases hidx
    exact ⟨{ p with active := true }, by simp, hqrid, hdate⟩
  received := h.received
  complete l hl := by
    obtain ⟨idx, hidx, hl⟩ := mem_lists.mp hl
    cases hidx
    rcases hl with hl | ⟨-, q, hq, hread⟩
    · exact absurd (h.tracked.lt_length hl) (lt_irrefl _)
    · obtain ⟨trlist, -, hcaptured, -⟩ := readFor_eq_some.mp hread
      obtain ⟨p', hp', -⟩ := h.tracked.captured q hq _ hcaptured
      exact absurd (List.getElem?_eq_some_iff.mp hp').1 (lt_irrefl _)

/-- An answer brings everything up to the time of its first transaction. -/
theorem receive (h : Caught date s) {idx : ℕ} {m : Option (List α)} (hidx : s.app.waiting = some idx)
    (hanswer : (idx, m) ∈ s.polling.answers) : Caught date { s with app := s.app.onAnswer m } := by
  have hnothing : Caught date { s with app := { s.app with waiting := none } } :=
    ⟨h.tracked, fun _ hn => (by cases hn), h.received, fun _ hl => absurd hl List.not_mem_nil⟩
  match m with
  | none => exact hnothing
  | some [] => exact hnothing
  | some (x :: l) =>
      refine ⟨h.tracked, fun _ hn => (by cases hn), fun tr htr hto hdate hle => ?_,
        fun _ hl => absurd hl List.not_mem_nil⟩
      have hle : time tr ≤ time x := hle
      show tr ∈ s.app.received ++ x :: l
      by_cases hold : time tr ≤ s.app.last_sync
      · exact List.mem_append_left _ (h.received tr htr hto hdate hold)
      · refine List.mem_append_right _ (h.complete (x :: l) ?_ tr htr hto hdate (not_le.mp hold) x
          (List.mem_cons_self ..) hle)
        exact mem_lists.mpr ⟨idx, hidx, .inl hanswer⟩

variable [DecidableEq α]

theorem server (h : Caught date s) {e : Event α} {t : State α}
    (hok : Timely E date s (.server e)) (hs : Polling.step E s.polling e = some t) :
    Caught date { s with polling := t } := by
  cases step_cases hs with
  | register p => exact h.register p
  | timeout idx => exact h.timeout idx
  | nopolls | nosearch => exact h
  | search hne hsearch => exact h.tick hsearch
  | searchDb hq hp hperm hfind => exact h.searchDb hq hperm hfind (hok _ hq)
  | searchFail hq hp | searchError hq hp =>
      refine h.setSearch hq fun idx l hread => ?_
      obtain ⟨_, hphase, -⟩ := readFor_eq_some.mp hread
      cases hphase
  | deliver hq hp => exact h.deliver hq hp
  | write tr => exact h.write hok
  | remove k => exact h.remove k

theorem step (h : Caught date s) {e : AppEvent α} (hok : Timely E date s e)
    (hs : System.step E s e = some s') : Caught date s' := by
  cases e with
  | server e =>
      simp only [System.step] at hs
      split at hs
      next =>
        obtain ⟨t, ht, rfl⟩ := Option.map_eq_some_iff.mp hs
        exact h.server hok ht
      next => cases hs
  | poll w client =>
      simp only [System.step] at hs
      split at hs
      next =>
        cases hs
        exact h.poll rfl rfl
      next => cases hs
  | receive =>
      obtain ⟨idx, hidx, hs⟩ := Option.bind_eq_some_iff.mp hs
      obtain ⟨⟨n, m⟩, hfound, rfl⟩ := Option.map_eq_some_iff.mp hs
      have hn : n = idx := by simpa using List.find?_some hfound
      exact h.receive hidx (hn ▸ List.mem_of_find?_eq_some hfound)

end Caught

/-! ## Runs -/

section Run

variable [DecidableEq α] {L : List α} {qrid : String} {date : Time} {s : System α}

/-- In every run in which transactions to the app are written in time and no
query for it is cut, the app was answered every transaction to it up to
`last_sync`. -/
theorem none_lost (run : Run (System.step E) (Timely E date) (.init L qrid date) s) :
    ∀ tr ∈ s.polling.transactions, recipient_qrid tr = .str s.app.qrid → date < time tr →
      time tr ≤ s.app.last_sync → tr ∈ s.app.received :=
  have h : Caught date s := run.invariant (.init L qrid date) fun _ _ _ ih hok hs => ih.step hok hs
  h.received

end Run

section Sample

instance [DecidableEq α] (q : Search α) (trs : List α) (qrid : String) (date : Time) :
    Decidable (Uncut E q trs qrid date) :=
  inferInstanceAs (Decidable (_ ∨ _))

instance [DecidableEq α] (date : Time) (s : System α) (e : AppEvent α) :
    Decidable (Timely E date s e) :=
  match e with
  | .server (.write _) => inferInstanceAs (Decidable (_ → _ → _))
  | .server (.searchDb _ _) => inferInstanceAs (Decidable (∀ _ ∈ _, _))
  | .server (.register _) | .server (.timeout _) | .server (.tick _ _) | .server (.searchFail _)
  | .server (.searchReply _) | .server (.remove _) | .poll _ _ | .receive => isTrue trivial

/-- The app is answered a payment, and a second one is written in the same second. -/
def sameSecond : List (AppEvent (ObjectId × Booking)) :=
  [.poll 0 ⟨0, none⟩, .server (.write (somePayment 1 "1" 1000)), .server (.tick 0 (some 50)),
    .server (.searchDb 0 [somePayment 1 "1" 1000]), .server (.searchReply 0), .receive,
    .server (.write (somePayment 2 "1" 1000))]

/-- Two payments, a second apart. -/
def nextSecond : List (AppEvent (ObjectId × Booking)) :=
  sameSecond.dropLast ++ [.server (.write (somePayment 2 "1" 2000)), .poll 0 ⟨0, none⟩,
    .server (.tick 0 (some 50)), .server (.searchDb 1 [somePayment 1 "1" 1000, somePayment 2 "1" 2000]),
    .server (.searchReply 1), .receive]

theorem none_lost_nextSecond : ∃ s : System (ObjectId × Booking),
    s.app.last_sync = 2000 ∧ (∀ tr ∈ s.polling.transactions, tr.2.recipient.qrid = .str s.app.qrid →
      0 < tr.2.time → tr.2.time ≤ s.app.last_sync → tr ∈ s.app.received) ∧
      s.polling.transactions.map Prod.fst = [1, 2] := by
  have hexec : (Runs.exec (System.step Ext.simple) (Timely Ext.simple 0) (.init [] "1" 0)
      nextSecond).map (fun s => (s.app.last_sync, s.polling.transactions.map Prod.fst)) =
        some (2000, [1, 2]) := by decide +kernel
  obtain ⟨s, run, h⟩ := Runs.exists_run_of_exec nextSecond hexec
  obtain ⟨hsync, htransactions⟩ := Prod.mk.inj h
  exact ⟨s, hsync, none_lost run, htransactions⟩

/-- The second payment of a second is never answered. -/
theorem same_second_lost : ¬ ∀ (E : Ext) (L : List (ObjectId × Booking)) (qrid : String)
    (date : Time) (s : System (ObjectId × Booking)), AnyRun (System.step E) (.init L qrid date) s →
      ∀ tr ∈ s.polling.transactions, recipient_qrid tr = .str s.app.qrid → date < time tr →
        time tr ≤ s.app.last_sync → tr ∈ s.app.received := by
  intro claim
  have hexec : (Runs.exec (System.step Ext.simple) (fun _ _ => True) (.init [] "1" 0)
      sameSecond).map (fun s => (s.app.last_sync, s.app.qrid, s.app.received.map Prod.fst,
        decide (somePayment 2 "1" 1000 ∈ s.polling.transactions))) =
          some (1000, "1", [1], true) := by decide +kernel
  obtain ⟨s, run, h⟩ := Runs.exists_run_of_exec sameSecond hexec
  simp only [Prod.mk.injEq, decide_eq_true_eq] at h
  obtain ⟨hsync, hqrid, hreceived, hmem⟩ := h
  have hlost := claim .simple [] "1" 0 s run _ hmem (by rw [hqrid]; rfl) (by decide)
    (by rw [hsync]; decide)
  have hid : (2 : ObjectId) ∈ s.app.received.map Prod.fst := List.mem_map.mpr ⟨_, hlost, rfl⟩
  rw [hreceived] at hid
  exact absurd hid (by decide)

end Sample

end SchuleAlsStaat.Polling
