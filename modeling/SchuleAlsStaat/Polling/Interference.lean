import SchuleAlsStaat.Polling.Slots

/-!
# Interference between polls

All polls of a worker share one query, one limit and one callback.  `due` is
what a poll asks for by itself: the newest transactions to its QR-ID that are
later than its date.  `answered_iff` says when one tick answers a poll with
exactly this, whatever the other polls are.
-/

namespace SchuleAlsStaat.Polling

open Js (JS)
open Newest (newest)
open Payment (time recipient_qrid)
open Server (Poll)

variable (E : Ext) {α : Type} [Payment α]

/-! ## One tick -/

/-- A collection: its documents differ in their `_id`. -/
structure Collection (α : Type) where
  docs : List α
  nodup : docs.Nodup

/-- The answers of one tick with its callback, for a collection that is listed
in the order in which ties are resolved. -/
def tickAnswers (L : List α) (polls : List Poll) (w : WorkerId) (limit : Option ℕ) :
    List (ℕ × Option (List α)) :=
  match search polls w limit with
  | .error _ => []
  | .ok q => match q.find E L with
    | none => []
    | some trlist => ((onTrlist q.qrid_to_indices trlist).acts.foldl State.handleDbPollAnswer
        ⟨L, polls, [], []⟩).answers

/-- The transactions that a poll asks for. -/
def due (L : List α) (limit : Option ℕ) (qrid : String) (date : ℚ) : List α :=
  newest time limit (L.filter fun tr => recipient_qrid tr = .str qrid && date < time tr)

/-- The poll `p` of the string `qrid` waits at an index, and the QR-IDs of the
other polls of the worker are other strings. -/
structure Among (polls : List Poll) (w : WorkerId) (idx : ℕ) (p : Poll) (qrid : String) : Prop where
  self : (p, idx) ∈ elements polls w
  string : p.qrid = some (.str qrid)
  others : ∀ p' n, (p', n) ∈ elements polls w → n ≠ idx →
    ∃ qrid', p'.qrid = some (.str qrid') ∧ qrid' ≠ qrid

/-- The tick answers the poll with what it asks for, if there is anything. -/
def AnswersDue (L : List α) (polls : List Poll) (w : WorkerId) (limit : Option ℕ) (idx : ℕ)
    (p : Poll) (qrid : String) : Prop :=
  ∀ m, (idx, m) ∈ tickAnswers E L polls w limit ↔
    m = some (due L limit qrid p.date) ∧ due L limit qrid p.date ≠ []

/-- Nothing is due, or no QR-ID that is polled is a property of all objects, the
dates of all polls are valid, and what is due is among the newest transactions
that any of the polls asks for. -/
def Undisturbed (L : List α) (polls : List Poll) (w : WorkerId) (limit : Option ℕ)
    (p : Poll) (qrid : String) : Prop :=
  due L limit qrid p.date = [] ∨
    (∀ p' ∈ elements polls w, ∀ q, p'.1.qrid = some (.str q) → q ∉ objectPrototype) ∧
    (∀ p' ∈ elements polls w, (dateOf p'.1.date).isSome) ∧
    ∀ tr ∈ due L limit qrid p.date, tr ∈ newest time limit
      (L.filter fun tr => (conditions (elements polls w)).any fun c => c.holds E tr)

variable {E} {L : List α} {polls : List Poll} {w : WorkerId} {limit : Option ℕ} {idx : ℕ}
  {p : Poll} {qrid : String}

/-! ## The query -/

/-- Truncation does not let an earlier time through. -/
theorem lt_of_dateOf {d : ℚ} {c t : Time} (h : dateOf d = some c) (hc : c < t) : d < (t : ℚ) := by
  rw [dateOf] at h
  split at h
  next =>
    have hc : (c : ℚ) + 1 ≤ t := by exact_mod_cast hc
    rw [Option.some.injEq] at h
    split at h
    next =>
      have hd : d < (⌊d⌋ : ℚ) + 1 := Int.lt_floor_add_one d
      rw [h] at hd
      exact hd.trans_le hc
    next =>
      have hd : d ≤ (⌈d⌉ : ℚ) := Int.le_ceil d
      rw [h] at hd
      linarith
  next => cases h

theorem Among.strings (h : Among polls w idx p qrid) :
    ∀ p' ∈ elements polls w, ∃ q, p'.1.qrid = some (.str q) := by
  rintro ⟨p', n⟩ hp'
  by_cases hn : n = idx
  · subst hn
    have hsame : p' = p := by
      have h1 := (mem_elements.mp hp').1
      have h2 := (mem_elements.mp h.self).1
      exact Option.some.inj (h1.symm.trans h2)
    exact ⟨qrid, hsame ▸ h.string⟩
  · obtain ⟨q, hq, -⟩ := h.others p' n hp' hn
    exact ⟨q, hq⟩

/-- The indices can be collected unless a QR-ID is a property of all objects. -/
theorem qridToIndices_cases {ps : List (Poll × ℕ)}
    (h : ∀ p ∈ ps, ∃ q, p.1.qrid = some (.str q)) :
    (∃ q2i, qridToIndices ps = .ok q2i) ↔
      ∀ p ∈ ps, ∀ q, p.1.qrid = some (.str q) → q ∉ objectPrototype := by
  rw [qridToIndices_isOk]
  refine forall₂_congr fun p hp => ?_
  obtain ⟨q, hq⟩ := h p hp
  rw [hq]
  constructor
  · rintro ⟨key, ⟨⟩, hproto⟩ q' ⟨⟩
    exact hproto
  · intro hproto
    exact ⟨q, rfl, hproto q rfl⟩

/-- What a query finds, when all its dates are valid. -/
theorem find_cases {q : Search α} (hor : q.or = conditions (elements polls w))
    (hlimit : q.limit = limit) :
    q.find E L = if ∀ p' ∈ elements polls w, (dateOf p'.1.date).isSome then
      some (newest time limit
        (L.filter fun tr => (conditions (elements polls w)).any fun c => c.holds E tr)) else none := by
  rw [Search.find, hor, hlimit]
  have hall : ((conditions (elements polls w)).all fun c => c.gt.isSome) = true ↔
      ∀ p' ∈ elements polls w, (dateOf p'.1.date).isSome := by
    rw [List.all_eq_true, conditions]
    exact List.forall_mem_map
  by_cases h : ∀ p' ∈ elements polls w, (dateOf p'.1.date).isSome
  · rw [if_pos (hall.mpr h), if_pos h]
  · rw [if_neg (fun hc => h (hall.mp hc)), if_neg h]

/-- A transaction to the QR-ID is asked for by its own poll alone. -/
theorem Among.asked_iff (h : Among polls w idx p qrid) {tr : α}
    (htr : recipient_qrid tr = .str qrid) :
    ((conditions (elements polls w)).any fun c => c.holds E tr) = true ↔
      ∃ c, dateOf p.date = some c ∧ c < time tr := by
  rw [List.any_eq_true, conditions]
  constructor
  · rintro ⟨c, hc, hholds⟩
    obtain ⟨⟨p', n⟩, hp', rfl⟩ := List.mem_map.mp hc
    rw [Condition.holds] at hholds
    split at hholds
    next t ht =>
      obtain ⟨hlt, hmatch⟩ := Bool.and_eq_true_iff.mp hholds
      by_cases hn : n = idx
      · subst hn
        have h1 := (mem_elements.mp hp').1
        have h2 := (mem_elements.mp h.self).1
        cases h1.symm.trans h2
        exact ⟨t, ht, by simpa using hlt⟩
      · obtain ⟨q, hq, hne⟩ := h.others p' n hp' hn
        have hmatch : matchesQrid E p'.qrid (recipient_qrid tr) = true := hmatch
        rw [hq, htr, matchesQrid, decide_eq_true_eq] at hmatch
        exact absurd (Text.str.inj hmatch).symm hne
    next => cases hholds
  · rintro ⟨c, hc, hlt⟩
    refine ⟨⟨dateOf p.date, p.qrid⟩, List.mem_map.mpr ⟨(p, idx), h.self, rfl⟩, ?_⟩
    rw [Condition.holds]
    simp only [hc]
    rw [h.string, htr, matchesQrid]
    simpa using hlt

/-- Whatever is asked for has one of the polled strings as its QR-ID. -/
theorem Among.polled (h : Among polls w idx p qrid) {tr : α}
    (hasked : ((conditions (elements polls w)).any fun c => c.holds E tr) = true) :
    ∃ p' ∈ elements polls w, ∃ q, p'.1.qrid = some (.str q) ∧ recipient_qrid tr = .str q := by
  rw [List.any_eq_true, conditions] at hasked
  obtain ⟨c, hc, hholds⟩ := hasked
  obtain ⟨p', hp', rfl⟩ := List.mem_map.mp hc
  obtain ⟨q, hq⟩ := h.strings p' hp'
  refine ⟨p', hp', q, hq, ?_⟩
  rw [Condition.holds] at hholds
  split at hholds
  next =>
    have hmatch : matchesQrid E p'.1.qrid (recipient_qrid tr) = true :=
      (Bool.and_eq_true_iff.mp hholds).2
    rw [hq, matchesQrid, decide_eq_true_eq] at hmatch
    exact hmatch
  next => cases hholds

/-! ## The callback -/

section Callback

variable {q2i : List (String × ℕ)} {trlist : List α}

omit [Payment α] in
theorem mem_keyOrder {keys : List String} {k : String} : k ∈ keyOrder keys ↔ k ∈ keys := by
  rw [keyOrder, List.mem_append, List.mem_insertionSort, List.mem_filter, List.mem_filter]
  cases arrayIndex k <;> simp

/-- Where every key has an index, all groups are handled. -/
theorem mem_handleGroups_iff {keys : List String} {d : Delivery α}
    (h : ∀ k ∈ keys, indices q2i k ≠ []) :
    d ∈ (handleGroups q2i trlist keys).acts ↔
      ∃ k ∈ keys, (k, d.idx) ∈ q2i ∧ d.trgroup = group trlist k := by
  refine ⟨mem_handleGroups, ?_⟩
  induction keys with
  | nil => rintro ⟨k, hk, -⟩; cases hk
  | cons key keys ih =>
      rintro ⟨k, hk, hidx, hgroup⟩
      have hne := h key (List.mem_cons_self ..)
      have hmem : k = key → d.idx ∈ indices q2i key := by
        rintro rfl
        exact List.mem_map.mpr ⟨(k, d.idx), List.mem_filter.mpr ⟨hidx, by simp⟩, rfl⟩
      rw [handleGroups]
      split
      next hnil => exact absurd hnil hne
      next =>
        rw [JS.mem_bind_acts]
        rcases List.mem_cons.mp hk with rfl | hk
        · left
          refine List.mem_map.mpr ⟨d.idx, hmem rfl, ?_⟩
          rw [← hgroup]
        · right
          refine ⟨(), rfl, ih (fun k hk => h k (List.mem_cons_of_mem _ hk)) ⟨k, hk, hidx, hgroup⟩⟩

/-- Where every group has an index and none is a property of all objects, the
callback delivers all groups. -/
theorem mem_onTrlist_iff {d : Delivery α} (hproto : ∀ tr ∈ trlist, groupKey tr ∉ objectPrototype)
    (hidx : ∀ tr ∈ trlist, indices q2i (groupKey tr) ≠ []) :
    d ∈ (onTrlist q2i trlist).acts ↔
      ∃ tr ∈ trlist, (groupKey tr, d.idx) ∈ q2i ∧ d.trgroup = group trlist (groupKey tr) := by
  have hkeys : groupKeys trlist = .ok (keyOrder (trlist.map groupKey).eraseDups) := by
    refine if_neg fun hany => ?_
    obtain ⟨tr, htr, hmem⟩ := List.any_eq_true.mp hany
    exact hproto tr htr (by simpa using hmem)
  have hmem : ∀ k, k ∈ keyOrder (trlist.map groupKey).eraseDups ↔
      ∃ tr ∈ trlist, groupKey tr = k := by
    intro k
    rw [mem_keyOrder, List.mem_eraseDups, List.mem_map]
  have hindices : ∀ k ∈ keyOrder (trlist.map groupKey).eraseDups, indices q2i k ≠ [] := by
    intro k hk
    obtain ⟨tr, htr, rfl⟩ := (hmem k).mp hk
    exact hidx tr htr
  rw [onTrlist, hkeys, JS.lift_ok_bind, mem_handleGroups_iff hindices]
  constructor
  · rintro ⟨k, hk, hcaptured, hgroup⟩
    obtain ⟨tr, htr, rfl⟩ := (hmem k).mp hk
    exact ⟨tr, htr, hcaptured, hgroup⟩
  · rintro ⟨tr, htr, hcaptured, hgroup⟩
    exact ⟨groupKey tr, (hmem _).mpr ⟨tr, htr, rfl⟩, hcaptured, hgroup⟩

end Callback

section Fold

variable {s : State α} {m : Option (List α)} {g : List α}

omit [Payment α]

/-- When all deliveries at an index are the same list, it is answered with this
list if it waits and there is one. -/
theorem mem_answers_of_deliveries {ds : List (Delivery α)}
    (hsame : ∀ d ∈ ds, d.idx = idx → d.trgroup = g) :
    (idx, m) ∈ (ds.foldl State.handleDbPollAnswer s).answers ↔
      (idx, m) ∈ s.answers ∨ Waiting s idx ∧ m = some g ∧ ∃ d ∈ ds, d.idx = idx := by
  induction ds generalizing s with
  | nil => simp
  | cons d ds ih =>
      have hrest := @ih (s.handleDbPollAnswer d) fun d' hd' => hsame d' (List.mem_cons_of_mem _ hd')
      rw [List.foldl_cons, hrest, State.handleDbPollAnswer]
      by_cases hd : d.idx = idx
      · have hg : d.trgroup = g := hsame d (List.mem_cons_self ..) hd
        rw [hd, hg]
        by_cases hw : Waiting s idx
        · obtain ⟨hanswers, hgone⟩ := answer_of_waiting hw (some g)
          rw [hanswers]
          constructor
          · rintro (hmem | ⟨hwait, -⟩)
            · rcases List.mem_append.mp hmem with hmem | hmem
              · exact .inl hmem
              · cases List.mem_singleton.mp hmem
                exact .inr ⟨hw, rfl, d, List.mem_cons_self .., hd⟩
            · exact absurd hwait hgone
          · rintro (hmem | ⟨-, rfl, -⟩)
            · exact .inl (List.mem_append_left _ hmem)
            · exact .inl (List.mem_append_right _ (List.mem_singleton_self _))
        · rw [answer_of_not_waiting hw]
          exact or_congr_right ⟨fun h => absurd h.1 hw, fun h => absurd h.1 hw⟩
      · obtain ⟨hanswers, hwaiting⟩ := answer_of_ne (s := s) hd m (some d.trgroup)
        rw [hanswers, hwaiting]
        refine or_congr_right (and_congr_right fun _ => and_congr_right fun _ => ?_)
        constructor
        · rintro ⟨d', hd', hidx⟩
          exact ⟨d', List.mem_cons_of_mem _ hd', hidx⟩
        · rintro ⟨d', hd', hidx⟩
          rcases List.mem_cons.mp hd' with rfl | hd'
          · exact absurd hidx hd
          · exact ⟨d', hd', hidx⟩

/-- What is answered depends on the polls only. -/
theorem answers_congr {s t : State α} (ds : List (Delivery α)) (hp : s.polls = t.polls)
    (ha : s.answers = t.answers) :
    (ds.foldl State.handleDbPollAnswer s).answers =
      (ds.foldl State.handleDbPollAnswer t).answers := by
  induction ds generalizing s t with
  | nil => exact ha
  | cons d ds ih =>
      have hfirst : (s.handleDbPollAnswer d).polls = (t.handleDbPollAnswer d).polls ∧
          (s.handleDbPollAnswer d).answers = (t.handleDbPollAnswer d).answers := by
        simp only [State.handleDbPollAnswer, State.answer, hp]
        split
        · split
          · exact ⟨rfl, by rw [ha]⟩
          · exact ⟨hp, ha⟩
        · exact ⟨hp, ha⟩
      exact ih hfirst.1 hfirst.2

end Fold

/-! ## The answer -/

/-- The transactions to a QR-ID among the newest that are asked for. -/
def share (E : Ext) (L : List α) (polls : List Poll) (w : WorkerId) (limit : Option ℕ)
    (qrid : String) : List α :=
  (newest time limit
    (L.filter fun tr => (conditions (elements polls w)).any fun c => c.holds E tr)).filter
      fun tr => recipient_qrid tr = .str qrid

/-- What is found belongs to a poll whose index was captured, and its key is its
QR-ID. -/
theorem polled_of_found (h : Among polls w idx p qrid)
    (hproto : ∀ p' ∈ elements polls w, ∀ q, p'.1.qrid = some (.str q) → q ∉ objectPrototype)
    {q2i : List (String × ℕ)} (hq2i : qridToIndices (elements polls w) = .ok q2i) {tr : α}
    (hasked : (conditions (elements polls w)).any fun c => c.holds E tr) :
    recipient_qrid tr = .str (groupKey tr) ∧ groupKey tr ∉ objectPrototype ∧
      indices q2i (groupKey tr) ≠ [] := by
  obtain ⟨⟨p', n⟩, hp', q, hq, htrq⟩ := h.polled hasked
  have hkey : groupKey tr = q := by rw [groupKey, htrq, Text.key_str]
  rw [hkey]
  refine ⟨htrq, hproto _ hp' q hq, ?_⟩
  have hcaptured : (q, n) ∈ q2i :=
    (mem_qridToIndices hq2i).mpr ⟨p', hp', by rw [show p'.qrid = _ from hq]; rfl⟩
  exact List.ne_nil_of_mem
    (List.mem_map.mpr ⟨(q, n), List.mem_filter.mpr ⟨hcaptured, by simp⟩, rfl⟩)

/-- The index of the poll is captured under its QR-ID only. -/
theorem captured_self (h : Among polls w idx p qrid) {q2i : List (String × ℕ)}
    (hq2i : qridToIndices (elements polls w) = .ok q2i) (k : String) :
    (k, idx) ∈ q2i ↔ k = qrid := by
  rw [mem_qridToIndices hq2i]
  constructor
  · rintro ⟨p', hp', hstr⟩
    cases (mem_elements.mp hp').1.symm.trans (mem_elements.mp h.self).1
    rw [h.string] at hstr
    cases hstr
    rfl
  · rintro rfl
    exact ⟨p, h.self, by rw [h.string]; rfl⟩

/-- The callback of a query that finds `trlist` delivers to the poll the group of
its QR-ID, if there is one. -/
theorem deliveries_self (h : Among polls w idx p qrid)
    (hproto : ∀ p' ∈ elements polls w, ∀ q, p'.1.qrid = some (.str q) → q ∉ objectPrototype)
    {q2i : List (String × ℕ)} (hq2i : qridToIndices (elements polls w) = .ok q2i)
    {trlist : List α}
    (hasked : ∀ tr ∈ trlist, (conditions (elements polls w)).any fun c => c.holds E tr)
    (d : Delivery α) (hidx : d.idx = idx) :
    d ∈ (onTrlist q2i trlist).acts ↔ d.trgroup = group trlist qrid ∧ group trlist qrid ≠ [] := by
  have hfound := fun tr htr => polled_of_found h hproto hq2i (hasked tr htr)
  rw [mem_onTrlist_iff (fun tr htr => (hfound tr htr).2.1) fun tr htr => (hfound tr htr).2.2, hidx]
  simp only [captured_self h hq2i]
  constructor
  · rintro ⟨tr, htr, rfl, hgroup⟩
    exact ⟨hgroup, List.ne_nil_of_mem (List.mem_filter.mpr ⟨htr, decide_eq_true rfl⟩)⟩
  · rintro ⟨hgroup, hne⟩
    obtain ⟨tr, htr⟩ := List.exists_mem_of_ne_nil _ hne
    obtain ⟨htr, hkey⟩ := List.mem_filter.mp htr
    have hkey : groupKey tr = qrid := of_decide_eq_true hkey
    exact ⟨tr, htr, hkey, by rw [hgroup, hkey]⟩

/-- A tick that does not fail answers a poll with its share. -/
theorem mem_tickAnswers (h : Among polls w idx p qrid)
    (hproto : ∀ p' ∈ elements polls w, ∀ q, p'.1.qrid = some (.str q) → q ∉ objectPrototype)
    (hdates : ∀ p' ∈ elements polls w, (dateOf p'.1.date).isSome) {m : Option (List α)} :
    (idx, m) ∈ tickAnswers E L polls w limit ↔
      m = some (share E L polls w limit qrid) ∧ share E L polls w limit qrid ≠ [] := by
  obtain ⟨q2i, hq2i⟩ := (qridToIndices_cases h.strings).mpr hproto
  have hsearch : search polls w limit =
      .ok (⟨w, conditions (elements polls w), q2i, limit, .sent⟩ : Search α) := by
    rw [search, hq2i]
    rfl
  set trlist := newest time limit
    (L.filter fun tr => (conditions (elements polls w)).any fun c => c.holds E tr) with htrlist
  have hfind : Search.find E (⟨w, conditions (elements polls w), q2i, limit, .sent⟩ : Search α) L =
      some trlist := by
    rw [find_cases rfl rfl, if_pos hdates]
  have hanswers : tickAnswers E L polls w limit =
      ((onTrlist q2i trlist).acts.foldl State.handleDbPollAnswer ⟨L, polls, [], []⟩).answers := by
    rw [tickAnswers, hsearch]
    simp only [hfind]
  have hasked : ∀ tr ∈ trlist, (conditions (elements polls w)).any fun c => c.holds E tr :=
    fun tr htr => (List.mem_filter.mp (Newest.mem_of_mem_newest htr)).2
  have hshare : group trlist qrid = share E L polls w limit qrid := by
    rw [group, share, ← htrlist]
    refine List.filter_congr fun tr htr => decide_eq_decide.mpr ?_
    rw [(polled_of_found h hproto hq2i (hasked tr htr)).1, Text.str.injEq]
  have hmem := deliveries_self h hproto hq2i hasked
  rw [hshare] at hmem
  have hwaiting : Waiting (⟨L, polls, [], []⟩ : State α) idx :=
    ⟨p, (mem_elements.mp h.self).1, (mem_elements.mp h.self).2.1⟩
  rw [hanswers, mem_answers_of_deliveries fun d hd hidx => ((hmem d hidx).mp hd).1]
  constructor
  · rintro (hnil | ⟨-, rfl, d, hd, hidx⟩)
    · cases hnil
    · exact ⟨rfl, ((hmem d hidx).mp hd).2⟩
  · rintro ⟨rfl, hne⟩
    exact .inr ⟨hwaiting, rfl, ⟨idx, share E L polls w limit qrid⟩, (hmem _ rfl).mpr ⟨rfl, hne⟩, rfl⟩

/-- A tick that fails answers nothing. -/
theorem tickAnswers_of_failed (h : Among polls w idx p qrid)
    (hfail : ¬ ((∀ p' ∈ elements polls w, ∀ q, p'.1.qrid = some (.str q) → q ∉ objectPrototype) ∧
      ∀ p' ∈ elements polls w, (dateOf p'.1.date).isSome)) :
    tickAnswers E L polls w limit = [] := by
  rw [tickAnswers]
  cases hsearch : (search polls w limit : Except Js.Exn (Search α)) with
  | error e => rfl
  | ok q =>
      obtain ⟨hor, hq2i, hlimit, -⟩ := search_eq_ok hsearch
      have hproto := (qridToIndices_cases h.strings).mp ⟨_, hq2i⟩
      have hdates : ¬ ∀ p' ∈ elements polls w, (dateOf p'.1.date).isSome :=
        fun hdates => hfail ⟨hproto, hdates⟩
      simp only [find_cases hor hlimit, if_neg hdates]

/-- The share of a poll is the start of what is due. -/
theorem share_prefix_due (h : Among polls w idx p qrid) (hdate : (dateOf p.date).isSome) :
    share E L polls w limit qrid <+: due L limit qrid p.date := by
  obtain ⟨c, hc⟩ := Option.isSome_iff_exists.mp hdate
  set dueOnes := L.filter fun tr => recipient_qrid tr = .str qrid && p.date < time tr with hdue
  have hasked : (L.filter fun tr => (conditions (elements polls w)).any fun c => c.holds E tr).filter
      (fun tr => recipient_qrid tr = .str qrid) = dueOnes.filter fun tr => c < time tr := by
    rw [hdue, List.filter_filter, List.filter_filter]
    refine List.filter_congr fun tr _ => ?_
    rw [Bool.eq_iff_iff]
    simp only [Bool.and_eq_true, decide_eq_true_eq]
    constructor
    · rintro ⟨hto, hask⟩
      obtain ⟨c', hc', hlt⟩ := (h.asked_iff hto).mp hask
      cases hc.symm.trans hc'
      exact ⟨hlt, hto, lt_of_dateOf hc hlt⟩
    · rintro ⟨hlt, hto, -⟩
      exact ⟨hto, (h.asked_iff hto).mpr ⟨c, hc, hlt⟩⟩
  have hshare : share E L polls w limit qrid <+:
      newest time limit (dueOnes.filter fun tr => c < time tr) := by
    rw [← hasked]
    exact Newest.filter_newest_isPrefix
  refine Newest.prefix_cut (hshare.trans ?_) fun n hn => ?_
  · refine (Newest.cut_isPrefix limit _).trans ?_
    rw [← Newest.filter_sort]
    exact Newest.filter_lt_isPrefix c (Newest.pairwise_sort _)
  · exact hshare.length_le.trans (Newest.length_cut_le hn)

/-- One tick answers a poll with what it asks for exactly when the other polls
do not disturb it. -/
theorem answered_iff (L : Collection α) (h : Among polls w idx p qrid) :
    AnswersDue E L.docs polls w limit idx p qrid ↔
      Undisturbed E L.docs polls w limit p qrid := by
  by_cases hgood : (∀ p' ∈ elements polls w, ∀ q, p'.1.qrid = some (.str q) → q ∉ objectPrototype) ∧
      ∀ p' ∈ elements polls w, (dateOf p'.1.date).isSome
  · obtain ⟨hproto, hdates⟩ := hgood
    have hprefix : share E L.docs polls w limit qrid <+: due L.docs limit qrid p.date :=
      share_prefix_due h (hdates (p, idx) h.self)
    have hanswers : ∀ m, (idx, m) ∈ tickAnswers E L.docs polls w limit ↔
        m = some (share E L.docs polls w limit qrid) ∧ share E L.docs polls w limit qrid ≠ [] :=
      fun m => mem_tickAnswers h hproto hdates
    constructor
    · intro hdue
      by_cases hnil : due L.docs limit qrid p.date = []
      · exact .inl hnil
      · refine .inr ⟨hproto, hdates, fun tr htr => ?_⟩
        have hmem := (hdue _).mpr ⟨rfl, hnil⟩
        obtain ⟨hsame, -⟩ := (hanswers _).mp hmem
        rw [Option.some.inj hsame] at htr
        exact (List.mem_filter.mp htr).1
    · rintro (hnil | ⟨-, -, hall⟩) m
      · have hshare : share E L.docs polls w limit qrid = [] :=
          List.prefix_nil.mp (hnil ▸ hprefix)
        rw [hanswers, hshare, hnil]
      · have hsub : due L.docs limit qrid p.date ⊆ share E L.docs polls w limit qrid := by
          intro tr htr
          refine List.mem_filter.mpr ⟨hall tr htr, ?_⟩
          obtain ⟨-, hto⟩ := List.mem_filter.mp (Newest.mem_of_mem_newest htr)
          exact (Bool.and_eq_true_iff.mp hto).1
        have hnodup : (due L.docs limit qrid p.date).Nodup :=
          Newest.nodup_newest (L.nodup.filter _)
        have hsame : share E L.docs polls w limit qrid = due L.docs limit qrid p.date :=
          hprefix.eq_of_length_le (List.subperm_of_subset hnodup hsub).length_le
        rw [hanswers, hsame]
  · have hanswers : tickAnswers E L.docs polls w limit = [] := tickAnswers_of_failed h hgood
    constructor
    · intro hdue
      refine .inl ?_
      by_contra hnil
      have hmem := (hdue _).mpr ⟨rfl, hnil⟩
      rw [hanswers] at hmem
      cases hmem
    · rintro (hnil | ⟨hproto, hdates, -⟩) m
      · rw [hanswers]
        exact ⟨fun hmem => absurd hmem List.not_mem_nil, fun hm => absurd hnil hm.2⟩
      · exact absurd ⟨hproto, hdates⟩ hgood

/-- In two runs with any other polls, one tick answers a poll with what it asks
for, exactly when neither of the two groups of polls disturbs it. -/
theorem independent_iff (L : Collection α) {polls' : List Poll} {w' : WorkerId} {idx' : ℕ}
    (h : Among polls w idx p qrid) (h' : Among polls' w' idx' p qrid) :
    AnswersDue E L.docs polls w limit idx p qrid ∧ AnswersDue E L.docs polls' w' limit idx' p qrid ↔
      Undisturbed E L.docs polls w limit p qrid ∧ Undisturbed E L.docs polls' w' limit p qrid :=
  and_congr (answered_iff L h) (answered_iff L h')

/-- The tick of the system gives these answers. -/
theorem answers_of_tick [DecidableEq α] {s : State α}
    (helements : (elements polls w).isEmpty = false)
    (h : Runs.exec (step E) (fun _ _ => True) ⟨L, polls, [], []⟩
      [.tick w limit, .searchDb 0 L, .searchReply 0] = some s) :
    s.answers = tickAnswers E L polls w limit := by
  simp only [Runs.exec, if_true] at h
  obtain ⟨s₁, h₁, h⟩ := Option.bind_eq_some_iff.mp h
  obtain ⟨s₂, h₂, h⟩ := Option.bind_eq_some_iff.mp h
  obtain ⟨s₃, h₃, h⟩ := Option.bind_eq_some_iff.mp h
  cases h
  rw [step, helements, if_neg (by decide)] at h₁
  rw [tickAnswers]
  cases hsearch : (search polls w limit : Except Js.Exn (Search α)) with
  | error e =>
      rw [hsearch] at h₁
      cases h₁
      cases h₂
  | ok q =>
      rw [hsearch] at h₁
      cases h₁
      simp only [step, List.nil_append] at h₂ h₃
      obtain ⟨q', hq', -, h₂⟩ := Calls.withSent_eq_some.mp h₂
      cases hq'
      rw [if_pos (List.Perm.refl L)] at h₂
      obtain ⟨trlist, hfind, rfl⟩ := Option.map_eq_some_iff.mp h₂
      obtain ⟨q', r, hq', hphase, h₃⟩ := Calls.withReply_eq_some.mp h₃
      cases hq'
      cases hphase
      cases h₃
      simp only [hfind]
      exact answers_congr _ rfl rfl

section Sample

/-- Payments to three citizens. -/
def threePayments : Collection (ObjectId × Booking) :=
  ⟨[somePayment 1 "1" 1000, somePayment 2 "2" 2000, somePayment 3 "3" 500], by decide +kernel⟩

/-- The first poll is for the QR-ID `1` and the second one for another. -/
theorem among_first {qrid : String} (h : qrid ≠ "1") (date : ℚ) :
    Among [somePoll "1" 0, somePoll qrid date] 0 0 (somePoll "1" 0) "1" where
  self := mem_elements.mpr ⟨rfl, rfl, rfl⟩
  string := rfl
  others p' n hp' hn := by
    obtain ⟨hp', -, -⟩ := mem_elements.mp hp'
    match n with
    | 0 => exact absurd rfl hn
    | 1 =>
        cases hp'
        exact ⟨qrid, rfl, h⟩
    | n + 2 => cases hp'

/-- The same with the poll for `1` behind the other. -/
theorem among_second {qrid : String} (h : qrid ≠ "1") (date : ℚ) :
    Among [somePoll qrid date, somePoll "1" 0] 0 1 (somePoll "1" 0) "1" where
  self := mem_elements.mpr ⟨rfl, rfl, rfl⟩
  string := rfl
  others p' n hp' hn := by
    obtain ⟨hp', -, -⟩ := mem_elements.mp hp'
    match n with
    | 0 =>
        cases hp'
        exact ⟨qrid, rfl, h⟩
    | 1 => exact absurd rfl hn
    | n + 2 => cases hp'

/-- Polls for names that no object inherits, with valid dates, disturb nothing when the limit is
not reached. -/
theorem undisturbed_pair {a b : String} {d e : ℚ} (ha : a ∉ objectPrototype)
    (hb : b ∉ objectPrototype) (hd : (dateOf d).isSome) (he : (dateOf e).isSome)
    (hdue : ∀ tr ∈ due threePayments.docs (some 50) "1" 0, tr ∈ newest time (some 50)
      (threePayments.docs.filter fun tr =>
        (conditions (elements [somePoll a d, somePoll b e] 0)).any
          fun c => c.holds Ext.simple tr)) :
    Undisturbed Ext.simple threePayments.docs [somePoll a d, somePoll b e] 0 (some 50)
      (somePoll "1" 0) "1" := by
  have helements : elements [somePoll a d, somePoll b e] 0 = [(somePoll a d, 0), (somePoll b e, 1)] :=
    rfl
  refine .inr ⟨?_, ?_, hdue⟩
  · rw [helements]
    rintro p' (_ | ⟨_, _ | ⟨_, hp'⟩⟩) q hq
    · cases hq
      exact ha
    · cases hq
      exact hb
    · cases hp'
  · rw [helements]
    rintro p' (_ | ⟨_, _ | ⟨_, hp'⟩⟩)
    · exact hd
    · exact he
    · cases hp'

/-- The poll for `1` is answered alike beside a later poll for `2` and an earlier one for `3`. -/
theorem independent_iff_pairs :
    AnswersDue Ext.simple threePayments.docs [somePoll "1" 0, somePoll "2" 1500] 0 (some 50) 0
        (somePoll "1" 0) "1" ∧
      AnswersDue Ext.simple threePayments.docs [somePoll "3" 0, somePoll "1" 0] 0 (some 50) 1
        (somePoll "1" 0) "1" :=
  (independent_iff threePayments (among_first (by decide) 1500) (among_second (by decide) 0)).mpr
    ⟨undisturbed_pair (by decide) (by decide) (by decide +kernel) (by decide +kernel)
      (by decide +kernel),
    undisturbed_pair (by decide) (by decide) (by decide +kernel) (by decide +kernel)
      (by decide +kernel)⟩

/-- A poll with an invalid date keeps the payment from the first poll. -/
theorem invalid_date_disturbs : ¬ ∀ (E : Ext) (L : Collection (ObjectId × Booking))
    (polls polls' : List Poll) (w : WorkerId) (limit : Option ℕ) (idx idx' : ℕ) (p : Poll)
    (qrid : String), Among polls w idx p qrid → Among polls' w idx' p qrid →
      ∀ m, (idx, m) ∈ tickAnswers E L.docs polls w limit ↔
        (idx', m) ∈ tickAnswers E L.docs polls' w limit := by
  intro claim
  have hne : "2" ≠ "1" := by decide
  have hiff := claim .simple threePayments _ _ 0 (some 50) 0 0 _ "1"
    (among_first hne 1500) (among_first hne 9000000000000000)
  have hvalid : 0 ∈ (tickAnswers .simple threePayments.docs
      [somePoll "1" 0, somePoll "2" 1500] 0 (some 50)).map Prod.fst := by decide +kernel
  have hinvalid : (tickAnswers .simple threePayments.docs
      [somePoll "1" 0, somePoll "2" 9000000000000000] 0 (some 50)).length = 0 := by decide +kernel
  obtain ⟨⟨n, m⟩, hmem, rfl⟩ := List.mem_map.mp hvalid
  rw [List.eq_nil_of_length_eq_zero hinvalid] at hiff
  exact absurd ((hiff m).mp hmem) List.not_mem_nil

end Sample

end SchuleAlsStaat.Polling
