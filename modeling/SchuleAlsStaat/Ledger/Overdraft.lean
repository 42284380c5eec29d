import SchuleAlsStaat.Ledger.WellFormed
import SchuleAlsStaat.Pending.Chains

/-!
# Overdraft

A worker sums the balance of the sender and later writes the entry, if it is
covered.  Between the two nobody else may debit the sender.  That is what the
write permission is for, but a second permission for the same sender can be on
its way when the first one arrives.

`Alone` is the condition that a permission arrives when no chain debits the
sender.  Under it the balance that was summed is a lower bound until the entry
is inserted, since entries of other senders only add to it, and no account is
ever overdrawn.  The invariant is `Solvent`.
-/

namespace SchuleAlsStaat

open Js (Number JsVal except_bind_eq_ok)

/-! ## The requests of everyday operation -/

/-- The tax is not negative and is rounded to at least the decimal places that
are allowed in an amount. -/
structure Config.Regular (cfg : Config) : Prop where
  percent : ∃ p : ℚ, cfg.transaction_tax_percent.toNumber = .ok (.fin p) ∧ 0 ≤ p
  decplaces : cfg.hgc_tr_decimal_places ≤ cfg.hgc_decimal_places

/-- A request for a transaction, with or without taxes, or for spawned money
leads to the act. -/
def Requested (E : Ext) (act : Act) : Prop :=
  ∃ cfg a payload, Config.Regular cfg ∧
    a ∈ [MoneyAction.transaction, .transaction_taxfree, .spawn_money] ∧ Issues E cfg a payload act

theorem tax_of_normal {payload tax : JsVal} {q : Request}
    (h : (NormalArgs.read payload tax).map NormalArgs.request = .ok q) : q.tax = tax := by
  cases hread : NormalArgs.read payload tax with
  | error e =>
      rw [hread] at h
      cases h
  | ok args =>
      rw [hread] at h
      cases h
      rw [NormalArgs.read] at hread
      obtain ⟨_, -, hread⟩ := except_bind_eq_ok hread
      obtain ⟨_, -, hread⟩ := except_bind_eq_ok hread
      obtain ⟨_, -, hread⟩ := except_bind_eq_ok hread
      obtain ⟨_, -, hread⟩ := except_bind_eq_ok hread
      obtain ⟨_, -, hread⟩ := except_bind_eq_ok hread
      obtain ⟨_, -, hread⟩ := except_bind_eq_ok hread
      cases hread
      rfl

theorem tax_of_spawn_money {cfg : Config} {payload : JsVal} {q : Request}
    (h : MoneyAction.spawn_money.request cfg payload = .ok q) : q.tax = jsZero := by
  rw [MoneyAction.request] at h
  obtain ⟨_, -, h⟩ := except_bind_eq_ok h
  obtain ⟨_, -, h⟩ := except_bind_eq_ok h
  obtain ⟨_, -, h⟩ := except_bind_eq_ok h
  cases h
  rfl

theorem toNumber_jsZero : jsZero.toNumber = .ok (.fin 0) :=
  congrArg Except.ok (by decide +kernel)

/-- The entries of these requests are well formed. -/
theorem Requested.wellFormed {E : Ext} {act : Act} {e : Draft} (h : Requested E act)
    (he : act.draft = some e) : WellFormed e := by
  obtain ⟨cfg, a, payload, ⟨⟨p, hp, h0⟩, hle⟩, ha, hi⟩ := h
  obtain ⟨q, given, percent, hq, hadm, hef⟩ := entryFor_of_books ⟨act, hi, he⟩
  simp only [List.mem_cons, List.not_mem_nil, or_false] at ha
  rcases ha with rfl | rfl | rfl
  · have hrate := hef.rate
    rw [tax_of_normal hq, hp] at hrate
    cases hrate
    exact (hef.wellFormed_iff h0).mpr (fits_of_admitted hadm hef.checked hle h0)
  · have hrate := hef.rate
    rw [tax_of_normal hq, toNumber_jsZero] at hrate
    cases hrate
    exact (hef.wellFormed_iff le_rfl).mpr (fits_untaxed cfg given)
  · have hrate := hef.rate
    rw [tax_of_spawn_money hq, toNumber_jsZero] at hrate
    cases hrate
    exact (hef.wellFormed_iff le_rfl).mpr (fits_untaxed cfg given)

/-- An intent is queued for the sender of its entry. -/
theorem Requested.intent {E : Ext} {client : Client} {sender : ObjectId} {e : Draft}
    (h : Requested E (.intent client sender e)) : e.sender.reference = some sender := by
  obtain ⟨cfg, a, payload, -, -, hi⟩ := h
  rcases starts_of_issues hi with ⟨_, _, heq⟩ | ⟨q, -, -, hl⟩
  · cases heq
  · exact hl.1

/-- Spawned money has no sender account. -/
theorem Requested.spawn {E : Ext} {client : Client} {e : Draft}
    (h : Requested E (.spawn client e)) : e.sender.reference = none := by
  obtain ⟨cfg, a, payload, -, -, hi⟩ := h
  rcases starts_of_issues hi with ⟨_, _, heq⟩ | ⟨q, -, -, hl⟩
  · cases heq
  · exact hl.1

/-- A saved entry of a well-formed one credits the recipient and the tax
account. -/
theorem WellFormed.credits {e : Draft} {t : Booking} (h : WellFormed e) (ht : e.cast = some t) :
    Ledger.Credits t := by
  obtain ⟨sent, received, tax, -, hr, htax, -, -, htax0, hr0⟩ := h
  obtain ⟨-, -, -, -, hr', htax'⟩ := Entry.cast_eq_some ht
  rw [hr, Number.fin.injEq] at hr'
  rw [htax, Number.fin.injEq] at htax'
  exact ⟨hr' ▸ hr0, htax' ▸ htax0⟩

/-- The sender can pay what is sent. -/
def Covered (L : Ledger) (e : Draft) : Prop :=
  ∀ id, e.sender.reference = some id → ∀ sent, e.amount_sent = .fin sent → sent ≤ L.balance id

end SchuleAlsStaat

namespace SchuleAlsStaat.Pending

open Calls Runs
open Js (Number)

/-! ## Chains of one sender -/

/-- Chains of sender `id` that wait for the balance. -/
def summingFrom (l : List BalanceCall) (id : ObjectId) : ℕ :=
  l.countP fun c => c.pe.sender = id && c.sums.live

/-- Entries of sender `id` that are yet to be inserted. -/
def inserting (l : List WriteCall) (id : ObjectId) : ℕ :=
  l.countP fun c => c.entry.sender.reference = some id && c.phase = .sent

/-- Chains that are going to debit account `id`. -/
def debiting (s : State) (id : ObjectId) : ℕ := summingFrom s.balances id + inserting s.writes id

/-- A permission arrives when no other chain debits the sender. -/
def Alone (s : State) : Event → Prop
  | .checkReply n => ∀ c ∈ s.checks[n]?, c.phase = .replied (some true) →
      ∀ pe ∈ elemAt s.pending_transactions c.slot, debiting s pe.sender = 0
  | _ => True

instance (s : State) (e : Event) : Decidable (Alone s e) :=
  match e with
  | .checkReply _ => inferInstanceAs (Decidable (∀ _ ∈ _, _))
  | .intent .. | .spawn .. | .intentDb .. | .intentReply _ | .tick _ | .checkDb .. | .checkFail _
  | .sumDb .. | .sumReply .. | .writeDb .. | .writeReply _ | .removeDb .. | .expire _
  | .delete _ => isTrue trivial

/-- Entries come from requests and are not deleted. -/
def FromRequests (E : Ext) : Event → Prop
  | .intent _ _ sender entry answer => Requested E (.intent answer sender entry)
  | .spawn entry answer => Requested E (.spawn answer entry)
  | .delete _ => False
  | _ => True

section Counts

variable (id : ObjectId)

theorem summingFrom_concat (l : List BalanceCall) (c : BalanceCall) :
    summingFrom (l ++ [c]) id =
      summingFrom l id + if c.pe.sender = id ∧ c.sums.live then 1 else 0 := by
  simp [summingFrom, List.countP_append, List.countP_singleton]

theorem summingFrom_set {l : List BalanceCall} {n : ℕ} {c : BalanceCall} (h : l[n]? = some c)
    (c' : BalanceCall) :
    summingFrom (l.set n c') id + (if c.pe.sender = id ∧ c.sums.live then 1 else 0) =
      summingFrom l id + if c'.pe.sender = id ∧ c'.sums.live then 1 else 0 := by
  simpa [summingFrom] using countP_set (fun c : BalanceCall => c.pe.sender = id && c.sums.live) h c'

theorem inserting_concat (l : List WriteCall) (c : WriteCall) :
    inserting (l ++ [c]) id =
      inserting l id + if c.entry.sender.reference = some id ∧ c.phase = .sent then 1 else 0 := by
  simp [inserting, List.countP_append, List.countP_singleton]

theorem inserting_set {l : List WriteCall} {n : ℕ} {c : WriteCall} (h : l[n]? = some c)
    (c' : WriteCall) :
    inserting (l.set n c') id +
        (if c.entry.sender.reference = some id ∧ c.phase = .sent then 1 else 0) =
      inserting l id +
        if c'.entry.sender.reference = some id ∧ c'.phase = .sent then 1 else 0 := by
  simpa [inserting] using
    countP_set (fun c : WriteCall => c.entry.sender.reference = some id && c.phase = .sent) h c'

end Counts

/-! ## The invariant -/

/-- A well-formed entry with sender `id`. -/
structure Debits (e : Draft) (id : ObjectId) : Prop where
  wellFormed : WellFormed e
  sender : e.sender.reference = some id

/-- No account is overdrawn, and what a chain has summed or is about to insert
is covered. -/
structure Solvent (s : State) : Prop where
  intents : ∀ c ∈ s.intents, Debits c.entry c.pt.sender
  elems : ∀ i pe, elemAt s.pending_transactions i = some pe → Debits pe.entry pe.sender
  balances : ∀ c ∈ s.balances, Debits c.pe.entry c.pe.sender ∧
    (c.sums.live = true → c.sums.Bounds s.transactions c.pe.sender)
  writes : ∀ c ∈ s.writes, WellFormed c.entry ∧ (c.phase = .sent → Covered s.transactions c.entry)
  one : ∀ id, debiting s id ≤ 1
  nonneg : ∀ id, 0 ≤ s.transactions.balance id

namespace Solvent

variable {s : State}

theorem init {L : Ledger} (h : ∀ id, 0 ≤ L.balance id) : Solvent (State.init L) := by
  refine ⟨?_, ?_, ?_, ?_, ?_, h⟩ <;>
    simp [State.init, elemAt, debiting, summingFrom, inserting]

/-- Taking an element out of its slot. -/
theorem deleteSlot (h : Solvent s) (i : ℕ) : Solvent (s.deleteSlot i) := by
  refine ⟨h.intents, fun j pe he => ?_, h.balances, h.writes, h.one, h.nonneg⟩
  rw [State.deleteSlot, elemAt_deleteAt] at he
  split at he
  · cases he
  · exact h.elems j pe he

/-- A permission starts the only chain of its sender. -/
theorem onWritePermission (h : Solvent s) {i : ℕ} {trid : ObjectId}
    (alone : ∀ pe ∈ elemAt s.pending_transactions i, debiting s pe.sender = 0) :
    Solvent (s.onWritePermission i trid) := by
  rw [State.onWritePermission]
  cases he : elemAt s.pending_transactions i with
  | none => exact h
  | some pe =>
      refine ⟨h.intents, h.elems, forall_mem_concat h.balances ⟨h.elems i pe he, fun _ =>
        Aggregations.bounds_start _ _⟩, h.writes, fun id => ?_, h.nonneg⟩
      have h1 := h.one id
      rw [debiting] at h1 ⊢
      simp only [summingFrom_concat, Aggregations.live_start, and_true]
      split
      next heq =>
        subst heq
        have h2 := alone pe he
        rw [debiting] at h2
        omega
      next => omega

/-- The sums of a chain change and stay bounds. -/
theorem setSums (h : Solvent s) {n : ℕ} {c : BalanceCall} (hc : s.balances[n]? = some c)
    {sums : Aggregations} (live : sums.live = true → c.sums.live = true)
    (bounds : c.sums.Bounds s.transactions c.pe.sender →
      sums.Bounds s.transactions c.pe.sender) :
    Solvent { s with balances := s.balances.set n { c with sums := sums } } := by
  obtain ⟨hdebits, hbounds⟩ := h.balances c (mem_of_getElem? hc)
  refine ⟨h.intents, h.elems, forall_mem_set n h.balances ⟨hdebits, fun hl =>
    bounds (hbounds (live hl))⟩, h.writes, fun id => ?_, h.nonneg⟩
  have h1 := h.one id
  have h2 := summingFrom_set id hc { c with sums := sums }
  have h3 : (if c.pe.sender = id ∧ sums.live = true then 1 else 0) ≤
      if c.pe.sender = id ∧ c.sums.live = true then 1 else 0 := by
    split
    next hl => rw [if_pos ⟨hl.1, live hl.2⟩]
    next => exact Nat.zero_le _
  rw [debiting] at h1 ⊢
  dsimp only at h2 ⊢
  omega

/-- The last sum arrives, and the entry is refused or goes on to be inserted. -/
theorem sumReply (h : Solvent s) {n : ℕ} {c : BalanceCall} (hc : s.balances[n]? = some c)
    {a : Aggregation} {r : Option ℚ} (hr : c.sums.get a = .replied r) {bal : ℚ}
    (hb : (c.sums.set (.done r) a).aggregationComplete = some bal) :
    Solvent (State.onBalance { s with
      balances := s.balances.set n { c with sums := c.sums.set (.done r) a } }
      { c with sums := c.sums.set (.done r) a } bal) := by
  have hlive := Aggregations.live_of_complete hr hb
  have hdead : (c.sums.set (.done r) a).live = false := by simp [Aggregations.live, hb]
  obtain ⟨hdebits, hbounds⟩ := h.balances c (mem_of_getElem? hc)
  have hset := h.setSums hc (Aggregations.live_of_live_done hr) fun hb => hb.deliver hr
  rw [State.onBalance]
  split
  next => exact ⟨hset.intents, (hset.deleteSlot c.slot).elems, hset.balances, hset.writes,
    hset.one, hset.nonneg⟩
  next hle =>
    refine ⟨hset.intents, hset.elems, hset.balances, forall_mem_concat hset.writes
      ⟨hdebits.wellFormed, fun _ id hid sent hsent => ?_⟩, fun id => ?_, hset.nonneg⟩
    · -- the balance was summed for this sender and is at least the amount
      have hsender : c.pe.sender = id := Option.some.inj (hdebits.sender.symm.trans hid)
      have hamount : c.pe.entry.amount_sent = .fin sent := hsent
      dsimp only at hle
      rw [hamount, Number.fin_sub, Number.fin_lt_fin] at hle
      have hbal := ((hbounds hlive).deliver hr).complete_le hb
      rw [hsender] at hbal
      have : 0 ≤ bal - sent := by simpa using hle
      dsimp only [State.transaction_write]
      linarith
    · -- the chain goes on from summing to inserting
      have h1 := h.one id
      have h2 := summingFrom_set id hc { c with sums := c.sums.set (.done r) a }
      simp only [hlive, hdead, and_true, Bool.false_eq_true, and_false, if_false] at h2
      rw [debiting] at h1 ⊢
      simp only [State.transaction_write, inserting_concat, hdebits.sender, Option.some.injEq,
        and_true]
      omega

/-- A write moves to another phase without touching the ledger. -/
theorem setWrite (h : Solvent s) {n : ℕ} {c : WriteCall} (hc : s.writes[n]? = some c)
    {p : Phase Bool} (hp : p ≠ .sent) :
    Solvent { s with writes := s.writes.set n { c with phase := p } } := by
  obtain ⟨hwf, -⟩ := h.writes c (mem_of_getElem? hc)
  refine ⟨h.intents, h.elems, h.balances, forall_mem_set n h.writes ⟨hwf, fun heq => absurd heq hp⟩,
    fun id => ?_, h.nonneg⟩
  have h1 := h.one id
  have h2 := inserting_set id hc { c with phase := p }
  simp only [hp, and_false, if_false] at h2
  rw [debiting] at h1 ⊢
  dsimp only
  omega

/-- A covered entry is inserted. -/
theorem writeDb (h : Solvent s) {n : ℕ} {c : WriteCall} (hc : s.writes[n]? = some c)
    (hp : c.phase = .sent) {t : Booking} (ht : c.entry.cast = some t) :
    Solvent { s with
      writes := s.writes.set n { c with phase := .replied true }
      transactions := s.transactions ++ [t] } := by
  obtain ⟨hwf, hcov⟩ := h.writes c (mem_of_getElem? hc)
  have hset := h.setWrite hc (p := .replied true) (by simp)
  have hcredits := hwf.credits ht
  obtain ⟨hsender, -, -, hsent, -, -⟩ := Entry.cast_eq_some ht
  -- no other chain debits the sender of this entry
  have none : ∀ id, t.sender.reference = some id → summingFrom s.balances id = 0 ∧
      inserting (s.writes.set n { c with phase := .replied true }) id = 0 := by
    intro id hid
    have h1 := h.one id
    have h2 := inserting_set id hc { c with phase := .replied true }
    rw [hsender] at hid
    simp [hid, hp] at h2
    rw [debiting] at h1
    omega
  refine ⟨h.intents, h.elems, fun k hk => ⟨(h.balances k hk).1, fun hl => ?_⟩, fun k hk =>
    ⟨(hset.writes k hk).1, fun hk' id hid sent hs => ?_⟩, hset.one, fun id => ?_⟩
  · refine ((h.balances k hk).2 hl).concat hcredits fun hid => ?_
    have : 0 < summingFrom s.balances k.pe.sender :=
      List.countP_pos_iff.mpr ⟨k, hk, by simp [hl]⟩
    have := (none _ hid).1
    omega
  · have ne : t.sender.reference ≠ some id := fun heq => by
      have : 0 < inserting (s.writes.set n { c with phase := .replied true }) id :=
        List.countP_pos_iff.mpr ⟨k, hk, by simp [hid, hk']⟩
      have := (none _ heq).2
      omega
    exact ((hset.writes k hk).2 hk' id hid sent hs).trans
      (Ledger.balance_le_concat_of_ne hcredits ne)
  · by_cases hid : t.sender.reference = some id
    · have h1 := hcov hp id (hsender ▸ hid) t.amount_sent hsent
      have h2 := Ledger.balance_sub_le_concat (L := s.transactions) hcredits hid
      dsimp only
      linarith
    · exact (h.nonneg id).trans (Ledger.balance_le_concat_of_ne hcredits hid)

/-- Every step on requests keeps the balances if permissions arrive alone. -/
theorem step (h : Solvent s) {E : Ext} {e : Event} (hreq : FromRequests E e) (hok : Alone s e)
    {s' : State} (hs : Pending.step s e = some s') : Solvent s' := by
  cases step_cases hs with
  | intent w now sender entry answer =>
      exact ⟨forall_mem_concat h.intents ⟨hreq.wellFormed rfl, hreq.intent⟩, h.elems, h.balances,
        h.writes, h.one, h.nonneg⟩
  | spawn entry answer =>
      refine ⟨h.intents, h.elems, h.balances, forall_mem_concat h.writes
        ⟨hreq.wellFormed rfl, fun _ id hid => ?_⟩, fun id => ?_, h.nonneg⟩
      · cases hreq.spawn.symm.trans hid
      · have h1 := h.one id
        rw [debiting] at h1 ⊢
        simp only [State.transaction_write, inserting_concat, hreq.spawn]
        simpa using h1
  | @intentDb n c ok hc hp =>
      exact ⟨forall_mem_set n h.intents (h.intents c (mem_of_getElem? hc)), h.elems, h.balances,
        h.writes, h.one, h.nonneg⟩
  | @queued n c hc hp =>
      have hdebits := h.intents c (mem_of_getElem? hc)
      refine ⟨forall_mem_set n h.intents hdebits, fun i pe he => ?_, h.balances, h.writes, h.one,
        h.nonneg⟩
      rcases elemAt_concat he with he | rfl
      · exact h.elems i pe he
      · exact hdebits
  | @intentError n c hc hp =>
      exact ⟨forall_mem_set n h.intents (h.intents c (mem_of_getElem? hc)), h.elems, h.balances,
        h.writes, h.one, h.nonneg⟩
  | @permitted n c hc hp =>
      have same : Solvent { s with checks := s.checks.set n { c with phase := .done (some true) } } :=
        ⟨h.intents, h.elems, h.balances, h.writes, h.one, h.nonneg⟩
      exact same.onWritePermission fun pe hpe => hok c hc hp pe hpe
  | sumDb ok hc hp =>
      exact h.setSums hc (Aggregations.live_of_live_replied hp) fun hb => hb.execute _ ok
  | sumError hc hp | sumWaits hc hp hb =>
      have hset := h.setSums hc (Aggregations.live_of_live_done hp) fun hb => hb.deliver hp
      exact ⟨hset.intents, hset.elems, hset.balances, hset.writes, hset.one, hset.nonneg⟩
  | sumComplete hc hp hb => exact h.sumReply hc hp hb
  | saved hc hp hb => exact h.writeDb hc hp hb
  | writeFail hc hp => exact h.setWrite hc (by simp)
  | @written n c hc hp =>
      have hset := h.setWrite hc (p := .done true) (by simp)
      obtain ho | ⟨i, t, ho⟩ := c.origin_cases
      · rw [State.onWritten_none ho]
        exact ⟨hset.intents, hset.elems, hset.balances, hset.writes, hset.one, hset.nonneg⟩
      · rw [State.onWritten_some ho]
        exact ⟨hset.intents, (hset.deleteSlot i).elems, hset.balances, hset.writes, hset.one,
          hset.nonneg⟩
  | writeError hc hp =>
      have hset := h.setWrite hc (p := .done false) (by simp)
      exact ⟨hset.intents, hset.elems, hset.balances, hset.writes, hset.one, hset.nonneg⟩
  | tick | checkDb | checkFail | refused | checkError | removeDb | expire =>
      exact ⟨h.intents, h.elems, h.balances, h.writes, h.one, h.nonneg⟩
  | delete => exact absurd hreq id

end Solvent

/-! ## No overdraft -/

/-- When every permission arrives alone, no account is overdrawn. -/
theorem no_overdraft {E : Ext} {L : Ledger} {s : State} (h : ∀ id, 0 ≤ L.balance id)
    (r : Run step (fun s e => FromRequests E e ∧ Alone s e) (State.init L) s) (id : ObjectId) :
    0 ≤ s.transactions.balance id := by
  have inv : Solvent s := r.invariant (.init h) fun _ _ _ h ok hs => h.step ok.1 ok.2 hs
  exact inv.nonneg id

section Sample

open Js (JsVal)

/-- The payload of a transaction of ten from account `1` to account `2`. -/
def paysTen : JsVal :=
  some (.obj [("sender", .str "1"), ("recipient", .str "2"), ("sender_password", .str "pw"),
    ("amount_received", .num ⟨10, 0⟩), ("comment", .null)])

/-- The sample payment comes from a request. -/
theorem requested_payment (n : ReqId) :
    Requested Ext.simple (.intent ⟨n, some 1⟩ 1 (payment 11 10 1)) := by
  have hpos : 0 < Js.Decimal.value ⟨10, 0⟩ := by norm_num [Js.Decimal.value]
  have hread : NormalArgs.read paysTen Config.defaults.transaction_tax_percent = .ok
      ⟨some (.str "1"), some (.str "2"), some (.str "pw"), some .null, jsFalse,
        some (.num ⟨10, 0⟩), some (.str "10")⟩ := rfl
  have hs : JsVal.looseEq (some (.str "1")) "Zentralbank" = .ok false := by decide +kernel
  have hd : JsVal.looseEq (some (.str "2")) "Zentralbank" = .ok false := by decide +kernel
  have hr := reaches_handOver_normal (E := Ext.simple) .start ⟨n, none⟩ (s := someStudent 1) hread
    rfl rfl (by decide +kernel) (by decide +kernel) hs hd (checkAmounts_net hpos rfl) toNumber_ten
    (someStudent 0) (someStudent 2)
  have amounts : Given.amounts Config.defaults (.fin 10) (.net ⟨_, hpos⟩) =
      ⟨.fin 11, .fin 10, .fin 1⟩ := by
    have hten : Js.Decimal.value ⟨10, 0⟩ = 10 := by norm_num [Js.Decimal.value]
    have htax : Grid.roundUp Config.defaults.scale (10 / 100 * 10) = 1 := by decide +kernel
    simp only [Given.amounts, net2tax_fin, hten, htax, Number.fin_add]
    norm_num
  rw [show Env.start.cfg = Config.defaults from rfl, amounts] at hr
  exact ⟨.defaults, .transaction, paysTen, ⟨⟨10, toNumber_ten, by norm_num⟩, by decide⟩, by simp,
    .start, ⟨n, none⟩, rfl, hr⟩

theorem fromRequests_queueEvents (n : ℕ) : ∀ e ∈ queueEvents n 11 10 1,
    FromRequests Ext.simple e := by
  intro e he
  simp only [queueEvents, List.mem_cons, List.not_mem_nil, or_false] at he
  rcases he with rfl | rfl | rfl
  · exact requested_payment n
  · trivial
  · trivial

theorem balance_endowment_nonneg (id : ObjectId) : 0 ≤ endowment.balance id := by
  have h : Ledger.balance [] id ≤ Ledger.balance ([] ++ endowment) id :=
    Ledger.balance_le_concat_of_ne ⟨by norm_num, le_rfl⟩ (by simp [magicAccount])
  simpa [Ledger.balance, Ledger.income, Ledger.taxincome, Ledger.payments] using h

theorem fromRequests_twoPayments : ∀ e ∈ twoPayments, FromRequests Ext.simple e := by
  have rest : ∀ e ∈ [Event.tick 0, .tick 0, .checkDb 0 (some 0), .checkDb 1 (some 0),
      .checkDb 2 (some 0), .checkReply 0, .checkReply 1], FromRequests Ext.simple e := by
    simp [FromRequests]
  have queued := forall_mem_append (fromRequests_queueEvents 0) (fromRequests_queueEvents 1)
  refine forall_mem_append (forall_mem_append (forall_mem_append
    (forall_mem_append queued rest) ?_) ?_) ?_ <;> simp [sumEvents, FromRequests]

/-- Account `1` asks for two payments of 11 with 20 on it, and one is written. -/
theorem no_overdraft_twoPayments :
    ∃ s, Run step (fun s e => FromRequests Ext.simple e ∧ Alone s e) (State.init endowment) s ∧
      (s.intents.length, s.transactions.length) = (2, 2) ∧ ∀ id, 0 ≤ s.transactions.balance id := by
  obtain ⟨s, r, h⟩ : ∃ s, Run step (fun s e => FromRequests Ext.simple e ∧ Alone s e)
      (State.init endowment) s ∧ (s.intents.length, s.transactions.length) = (2, 2) :=
    exists_run_of_exec_forall fromRequests_twoPayments (by decide +kernel)
  exact ⟨s, r, h, no_overdraft balance_endowment_nonneg r⟩

/-- Two chains of one sender read the same balance and both are written. -/
theorem two_ticks_overdraw :
    ¬ ∀ (E : Ext) (L : Ledger) (s : State), (∀ id, 0 ≤ L.balance id) →
      Run step (fun _ e => FromRequests E e) (State.init L) s →
      ∀ id, 0 ≤ s.transactions.balance id := by
  intro claim
  obtain ⟨s, r, h⟩ : ∃ s, Run step (fun s e => FromRequests Ext.simple e ∧ NoError s e)
      (State.init endowment) s ∧ s.transactions.balance 1 = -2 := by
    have rest : ∀ e ∈ [Event.tick 0, .tick 0, .checkDb 0 (some 0), .checkDb 1 (some 0),
        .checkReply 0, .checkReply 1] ++ sumEvents 0 ++ sumEvents 1 ++
        [.writeDb 0 true, .writeDb 1 true], FromRequests Ext.simple e := by
      simp [sumEvents, FromRequests]
    exact exists_run_of_exec_forall (forall_mem_append (fromRequests_queueEvents 0) rest)
      (by decide +kernel)
  have := claim Ext.simple endowment s balance_endowment_nonneg (r.mono fun _ _ h => h.1) 1
  rw [h] at this
  norm_num at this

end Sample

end SchuleAlsStaat.Pending
