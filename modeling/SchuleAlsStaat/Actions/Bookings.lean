import SchuleAlsStaat.Actions.Callbacks

/-!
# From a payload to an entry

`Reaches` follows the callbacks of an action: it relates the acts of a stretch
of code to the acts that its queries lead to, whatever the database replies and
however long it takes.  For the actions that move money every entry reached in
this way is the one that `EntryFor` describes.
-/

namespace SchuleAlsStaat

open Js (Exn Number JsVal JS except_bind_eq_ok)

/-! ## Reachable acts -/

/-- An act that code performs, now or in the callbacks of its queries, under
one configuration. -/
inductive Reaches (E : Ext) (cfg : Config) : List Act → Act → Prop where
  | here {acts : List Act} {a : Act} : a ∈ acts → Reaches E cfg acts a
  | later {acts : List Act} {a : Act} {env : Env} {client : Client} {q : Query} {r : Reply} :
      Act.query client q ∈ acts → env.cfg = cfg →
      Reaches E cfg (onReply E env client q r).acts a → Reaches E cfg acts a

/-- A predicate that every callback hands on holds of all reachable acts. -/
theorem Reaches.invariant {E : Ext} {cfg : Config} {acts : List Act} {a : Act} {P : Act → Prop}
    (h : Reaches E cfg acts a) (start : ∀ b ∈ acts, P b)
    (next : ∀ env client q r, env.cfg = cfg → P (.query client q) →
      ∀ b ∈ (onReply E env client q r).acts, P b) : P a := by
  induction h with
  | here hmem => exact start _ hmem
  | later hq hcfg _ ih => exact ih fun b hb => next _ _ _ _ hcfg (start _ hq) b hb

/-! ## What each function does -/

section Spec

variable {E : Ext} {env : Env} {client : Client} {a : Act}

theorem mem_onRecipient {t : Transfer} {taxinc : Student} {sender recipient : Party}
    (h : a ∈ (onRecipient E env client t taxinc sender recipient).acts) :
    ∃ percent, t.tax.toNumber = .ok percent ∧
      let entry := t.entry E taxinc sender recipient percent (t.given.amounts env.cfg percent) env.now
      (sender = .magic_account ∧ a = .spawn client entry) ∨
        ∃ st, sender = .account st ∧ a = .intent client st._id entry := by
  rw [onRecipient, JS.mem_lift_bind_acts] at h
  obtain ⟨percent, hp, h⟩ := h
  refine ⟨percent, hp, ?_⟩
  cases sender with
  | magic_account => exact .inl ⟨rfl, List.mem_singleton.mp h⟩
  | account st => exact .inr ⟨st, rfl, List.mem_singleton.mp h⟩

theorem mem_onSender {t : Transfer} {taxinc : Student} {sender : Party}
    (h : a ∈ (onSender E env client t taxinc sender).acts) :
    (t.destroy_money = true ∧ a ∈ (onRecipient E env client t taxinc sender .magic_account).acts) ∨
      (t.destroy_money = false ∧ a = .query client (.student "stdb.getByQridLean"
        t.recipient_qrid (.transaction_recipient t taxinc sender))) := by
  rw [onSender] at h
  split at h
  next hd => exact .inl ⟨hd, h⟩
  next hd => exact .inr ⟨by simpa using hd, List.mem_singleton.mp h⟩

theorem mem_transaction {sender_qrid recipient_qrid amount_sent amount_received tax comment : JsVal}
    (h : a ∈ (transaction env client sender_qrid recipient_qrid amount_sent amount_received tax
      comment).acts) :
    ∃ spawn destroy, sender_qrid.looseEq env.cfg.magic_account = .ok spawn ∧
      recipient_qrid.looseEq env.cfg.magic_account = .ok destroy ∧
      ((∃ e, checkAmounts amount_sent amount_received = .error e ∧ a = .answer client (.text e)) ∨
        ∃ given, checkAmounts amount_sent amount_received = .ok given ∧
          a = .query client (.student "stdb.getByQridLean" (some (.str env.cfg.taxinc_qrid))
            (.transaction_taxinc ⟨sender_qrid, recipient_qrid, given, tax, comment,
              env.cfg.magic_account, spawn, destroy⟩))) := by
  rw [transaction, JS.mem_lift_bind_acts] at h
  obtain ⟨spawn, hs, h⟩ := h
  rw [JS.mem_lift_bind_acts] at h
  obtain ⟨destroy, hd, h⟩ := h
  refine ⟨spawn, destroy, hs, hd, ?_⟩
  split at h
  next e he =>
    rw [answer_acts] at h
    exact .inl ⟨e, he, List.mem_singleton.mp h⟩
  next given hg => exact .inr ⟨given, hg, List.mem_singleton.mp h⟩

theorem mem_normal {args : NormalArgs} (h : a ∈ (normal env client args).acts) :
    (∃ m, a = .answer client m) ∨
      (tooManyDecplaces env.cfg args.sent = .ok false ∧
        tooManyDecplaces env.cfg args.received = .ok false ∧
        a = .query client (.student "stdb.getByQridLean" args.sender
          (.transaction_normal args))) := by
  rw [normal, JS.mem_lift_bind_acts] at h
  obtain ⟨long, -, h⟩ := h
  split at h
  next =>
    rw [answer_acts] at h
    exact .inl ⟨_, List.mem_singleton.mp h⟩
  next =>
    rw [JS.mem_lift_bind_acts] at h
    obtain ⟨sent, hs, h⟩ := h
    split at h
    next =>
      rw [answer_acts] at h
      exact .inl ⟨_, List.mem_singleton.mp h⟩
    next hsent =>
      rw [JS.mem_lift_bind_acts] at h
      obtain ⟨received, hr, h⟩ := h
      split at h
      next =>
        rw [answer_acts] at h
        exact .inl ⟨_, List.mem_singleton.mp h⟩
      next hreceived =>
        refine .inr ⟨?_, ?_, List.mem_singleton.mp h⟩
        · rw [hs, Bool.eq_false_iff.mpr hsent]
        · rw [hr, Bool.eq_false_iff.mpr hreceived]

theorem mem_transaction_normal_cb {args : NormalArgs} {st : Option Student}
    (h : a ∈ (transaction_normal_cb E env client args st).acts) :
    (∃ m, a = .answer client m) ∨
      ∃ s, st = some s ∧ check_password E s args.sender_password = .ok true ∧
        a ∈ (transaction env { client with auth := some s._id } args.sender args.recipient
          args.sent args.received args.tax args.comment).acts := by
  cases st with
  | none =>
      rw [transaction_normal_cb, answer_acts] at h
      exact .inl ⟨_, List.mem_singleton.mp h⟩
  | some s =>
      rw [transaction_normal_cb, JS.mem_lift_bind_acts] at h
      obtain ⟨ok, hok, h⟩ := h
      cases ok with
      | false =>
          simp only [Bool.not_false, if_true, answer_acts] at h
          exact .inl ⟨_, List.mem_singleton.mp h⟩
      | true => exact .inr ⟨s, rfl, hok, h⟩

theorem mem_transaction_taxinc_cb {t : Transfer} {st : Option Student}
    (h : a ∈ (transaction_taxinc_cb E env client t st).acts) :
    (∃ m, a = .answer client m) ∨
      ∃ taxinc, st = some taxinc ∧
        ((t.spawn_money = true ∧ a ∈ (onSender E env client t taxinc .magic_account).acts) ∨
          (t.spawn_money = false ∧ a = .query client (.student "stdb.getByQridLean" t.sender_qrid
            (.transaction_sender t taxinc)))) := by
  cases st with
  | none =>
      rw [transaction_taxinc_cb, answer_acts] at h
      exact .inl ⟨_, List.mem_singleton.mp h⟩
  | some taxinc =>
      refine .inr ⟨taxinc, rfl, ?_⟩
      rw [transaction_taxinc_cb] at h
      split at h
      next hs => exact .inl ⟨hs, h⟩
      next hs => exact .inr ⟨by simpa using hs, List.mem_singleton.mp h⟩

theorem mem_transaction_sender_cb {t : Transfer} {taxinc : Student} {st : Option Student}
    (h : a ∈ (transaction_sender_cb E env client t taxinc st).acts) :
    (∃ m, a = .answer client m) ∨
      ∃ s, st = some s ∧ a ∈ (onSender E env client t taxinc (.account s)).acts := by
  cases st with
  | none =>
      rw [transaction_sender_cb, answer_acts] at h
      exact .inl ⟨_, List.mem_singleton.mp h⟩
  | some s => exact .inr ⟨s, rfl, h⟩

theorem mem_transaction_recipient_cb {t : Transfer} {taxinc : Student} {sender : Party}
    {st : Option Student}
    (h : a ∈ (transaction_recipient_cb E env client t taxinc sender st).acts) :
    (∃ m, a = .answer client m) ∨
      ∃ s, st = some s ∧ a ∈ (onRecipient E env client t taxinc sender (.account s)).acts := by
  cases st with
  | none =>
      rw [transaction_recipient_cb, answer_acts] at h
      exact .inl ⟨_, List.mem_singleton.mp h⟩
  | some s => exact .inr ⟨s, rfl, h⟩

end Spec

/-! ## The request of an action -/

/-- The arguments of `transaction`. -/
structure Request where
  sender_qrid : JsVal
  recipient_qrid : JsVal
  amount_sent : JsVal
  amount_received : JsVal
  tax : JsVal
  comment : JsVal

def NormalArgs.request (args : NormalArgs) : Request :=
  ⟨args.sender, args.recipient, args.sent, args.received, args.tax, args.comment⟩

/-- What an action reads from its payload and passes to `transaction`. -/
def MoneyAction.request (cfg : Config) (payload : JsVal) : MoneyAction → Except Exn Request
  | .transaction =>
      (NormalArgs.read payload cfg.transaction_tax_percent).map NormalArgs.request
  | .transaction_taxfree => (NormalArgs.read payload jsZero).map NormalArgs.request
  | .spawn_money => do
      let recipient ← payload.prop "recipient"
      let amount ← payload.prop "amount"
      let comment ← moneyComment "spawn_money" payload
      return ⟨some (.str cfg.magic_account), recipient, amount, jsFalse, jsZero, comment⟩
  | .destroy_money => do
      let sender ← payload.prop "sender"
      let amount ← payload.prop "amount"
      let comment ← moneyComment "destroy_money" payload
      return ⟨sender, some (.str cfg.magic_account), amount, jsFalse, jsZero, comment⟩
  | .master_transaction => do
      let tax_percent ← taxPercent cfg payload
      let sender ← payload.prop "sender"
      let recipient ← payload.prop "recipient"
      let sent ← propOrFalse payload "amount_sent"
      let received ← propOrFalse payload "amount_received"
      let comment ← propOrFalse payload "comment"
      return ⟨sender, recipient, sent, received, tax_percent, comment⟩

/-- The action limits the decimal places of its amounts. -/
def MoneyAction.limitsDecplaces : MoneyAction → Bool
  | .transaction => true
  | .transaction_taxfree => true
  | _ => false

/-- What is checked about the amounts of a request before `transaction`. -/
def Admitted (cfg : Config) (limit : Bool) (q : Request) : Prop :=
  limit = true → tooManyDecplaces cfg q.amount_sent = .ok false ∧
    tooManyDecplaces cfg q.amount_received = .ok false

theorem admitted_unlimited (cfg : Config) (q : Request) : Admitted cfg false q :=
  fun h => by cases h

/-- The entry belongs to a request. -/
structure EntryFor (cfg : Config) (q : Request) (given : Given) (percent : Number)
    (e : Draft) : Prop where
  checked : checkAmounts q.amount_sent q.amount_received = .ok given
  rate : q.tax.toNumber = .ok percent
  amount_sent : e.amount_sent = (given.amounts cfg percent).amount_sent
  amount_received : e.amount_received = (given.amounts cfg percent).amount_received
  amount_tax : e.amount_tax = (given.amounts cfg percent).amount_tax
  /-- Without a sender account the money is spawned. -/
  sender : e.sender.reference = none → q.sender_qrid.looseEq cfg.magic_account = .ok true

/-- The callbacks of `transaction` work on a request. -/
structure TransferFor (cfg : Config) (q : Request) (t : Transfer) : Prop where
  checked : checkAmounts q.amount_sent q.amount_received = .ok t.given
  tax : t.tax = q.tax
  spawn_money : q.sender_qrid.looseEq cfg.magic_account = .ok t.spawn_money

/-- The magic account is the sender only of spawned money. -/
def Party.Allowed (t : Transfer) : Party → Prop
  | .magic_account => t.spawn_money = true
  | .account _ => True

/-- The acts of a request on its way to an entry. -/
def Leads (cfg : Config) (q : Request) : Act → Prop
  | .answer _ _ => True
  | .query _ (.student _ _ (.transaction_normal args)) => args.request = q
  | .query _ (.student _ _ (.transaction_taxinc t)) => TransferFor cfg q t
  | .query _ (.student _ _ (.transaction_sender t _)) => TransferFor cfg q t
  | .query _ (.student _ _ (.transaction_recipient t _ sender)) =>
      TransferFor cfg q t ∧ sender.Allowed t
  | .intent _ sender e => e.sender.reference = some sender ∧
      ∃ given percent, EntryFor cfg q given percent e
  | .spawn _ e => e.sender.reference = none ∧ ∃ given percent, EntryFor cfg q given percent e
  | _ => False

namespace Leads

variable {E : Ext} {cfg : Config} {env : Env} {client : Client} {q : Request} {a : Act}

theorem onRecipient {t : Transfer} {taxinc : Student} {sender recipient : Party}
    (ht : TransferFor cfg q t) (hs : sender.Allowed t) (hcfg : env.cfg = cfg)
    (h : a ∈ (onRecipient E env client t taxinc sender recipient).acts) : Leads cfg q a := by
  subst hcfg
  obtain ⟨percent, hp, ⟨rfl, rfl⟩ | ⟨st, rfl, rfl⟩⟩ := mem_onRecipient h
  · have spawn : t.spawn_money = true := hs
    exact ⟨rfl, t.given, percent, ht.checked, ht.tax ▸ hp, rfl, rfl, rfl,
      fun _ => spawn ▸ ht.spawn_money⟩
  · exact ⟨rfl, t.given, percent, ht.checked, ht.tax ▸ hp, rfl, rfl, rfl, fun hnone => by cases hnone⟩

theorem onSender {t : Transfer} {taxinc : Student} {sender : Party}
    (ht : TransferFor cfg q t) (hs : sender.Allowed t) (hcfg : env.cfg = cfg)
    (h : a ∈ (onSender E env client t taxinc sender).acts) : Leads cfg q a := by
  rcases mem_onSender h with ⟨-, h⟩ | ⟨-, rfl⟩
  · exact onRecipient ht hs hcfg h
  · exact ⟨ht, hs⟩

theorem transaction (hcfg : env.cfg = cfg)
    (h : a ∈ (transaction env client q.sender_qrid q.recipient_qrid q.amount_sent
      q.amount_received q.tax q.comment).acts) : Leads cfg q a := by
  subst hcfg
  obtain ⟨spawn, destroy, hs, -, ⟨e, -, rfl⟩ | ⟨given, hg, rfl⟩⟩ := mem_transaction h
  · trivial
  · exact ⟨hg, rfl, hs⟩

/-- The callbacks of a request stay with it. -/
theorem onReply {c : Query} {r : Reply} (hcfg : env.cfg = cfg) (hc : Leads cfg q (.query client c))
    (h : a ∈ (onReply E env client c r).acts) : Leads cfg q a := by
  rw [Leads.eq_def] at hc
  split at hc
  next heq => cases heq
  next heq =>
    cases heq
    cases r with
    | student st =>
        subst hc
        rcases mem_transaction_normal_cb h with ⟨m, rfl⟩ | ⟨s, -, -, h⟩
        · trivial
        · exact transaction hcfg h
    | _ => cases h
  next heq =>
    cases heq
    cases r with
    | student st =>
        rcases mem_transaction_taxinc_cb h with ⟨m, rfl⟩ | ⟨taxinc, -, ⟨hs, h⟩ | ⟨-, rfl⟩⟩
        · trivial
        · exact onSender hc (show Party.Allowed _ .magic_account from hs) hcfg h
        · exact hc
    | _ => cases h
  next heq =>
    cases heq
    cases r with
    | student st =>
        rcases mem_transaction_sender_cb h with ⟨m, rfl⟩ | ⟨s, -, h⟩
        · trivial
        · exact onSender hc (show Party.Allowed _ (.account s) from trivial) hcfg h
    | _ => cases h
  next heq =>
    cases heq
    cases r with
    | student st =>
        rcases mem_transaction_recipient_cb h with ⟨m, rfl⟩ | ⟨s, -, h⟩
        · trivial
        · exact onRecipient hc.1 hc.2 hcfg h
    | _ => cases h
  next heq => cases heq
  next heq => cases heq
  next => cases hc

end Leads

/-! ## From the payload -/

section Run

variable {E : Ext} {cfg : Config} {env : Env} {client : Client} {payload : JsVal} {b : Act}

/-- An action answers, or it starts on its request. -/
def Starts (cfg : Config) (a : MoneyAction) (payload : JsVal) (b : Act) : Prop :=
  (∃ client m, b = .answer client m) ∨
    ∃ q, a.request cfg payload = .ok q ∧ Admitted cfg a.limitsDecplaces q ∧ Leads cfg q b

theorem starts_of_normal {a : MoneyAction} {tax : JsVal}
    (hreq : a.request env.cfg payload = (NormalArgs.read payload tax).map NormalArgs.request)
    (h : b ∈ (transaction_normal env client payload tax).acts) : Starts env.cfg a payload b := by
  rw [transaction_normal, JS.mem_lift_bind_acts] at h
  obtain ⟨args, hargs, h⟩ := h
  rcases mem_normal h with ⟨m, rfl⟩ | ⟨hs, hr, rfl⟩
  · exact .inl ⟨_, _, rfl⟩
  · refine .inr ⟨args.request, ?_, fun _ => ⟨hs, hr⟩, rfl⟩
    rw [hreq, hargs]
    rfl

/-- Every action that moves money starts on its request. -/
theorem starts_of_run (a : MoneyAction) (h : b ∈ (a.run env client payload).acts) :
    Starts env.cfg a payload b := by
  cases a with
  | transaction => exact starts_of_normal rfl h
  | transaction_taxfree => exact starts_of_normal rfl h
  | spawn_money =>
      rw [MoneyAction.run, SchuleAlsStaat.spawn_money, JS.mem_lift_bind_acts] at h
      obtain ⟨recipient, hr, h⟩ := h
      rw [JS.mem_lift_bind_acts] at h
      obtain ⟨amount, ha, h⟩ := h
      rw [JS.mem_lift_bind_acts] at h
      obtain ⟨comment, hc, h⟩ := h
      let q : Request := ⟨some (.str env.cfg.magic_account), recipient, amount, jsFalse, jsZero, comment⟩
      refine .inr ⟨q, ?_, admitted_unlimited _ _, Leads.transaction (q := q) rfl h⟩
      simp only [MoneyAction.request, hr, ha, hc]
      rfl
  | destroy_money =>
      rw [MoneyAction.run, SchuleAlsStaat.destroy_money, JS.mem_lift_bind_acts] at h
      obtain ⟨sender, hr, h⟩ := h
      rw [JS.mem_lift_bind_acts] at h
      obtain ⟨amount, ha, h⟩ := h
      rw [JS.mem_lift_bind_acts] at h
      obtain ⟨comment, hc, h⟩ := h
      let q : Request := ⟨sender, some (.str env.cfg.magic_account), amount, jsFalse, jsZero, comment⟩
      refine .inr ⟨q, ?_, admitted_unlimited _ _, Leads.transaction (q := q) rfl h⟩
      simp only [MoneyAction.request, hr, ha, hc]
      rfl
  | master_transaction =>
      rw [MoneyAction.run, SchuleAlsStaat.master_transaction, JS.mem_lift_bind_acts] at h
      obtain ⟨tax, htax, h⟩ := h
      rw [JS.mem_lift_bind_acts] at h
      obtain ⟨percent, hp, h⟩ := h
      split at h
      next =>
        rw [answer_acts] at h
        exact .inl ⟨_, _, List.mem_singleton.mp h⟩
      next hpos =>
        rw [JS.mem_lift_bind_acts] at h
        obtain ⟨sender, hs, h⟩ := h
        rw [JS.mem_lift_bind_acts] at h
        obtain ⟨recipient, hr, h⟩ := h
        rw [JS.mem_lift_bind_acts] at h
        obtain ⟨sent, ha, h⟩ := h
        rw [JS.mem_lift_bind_acts] at h
        obtain ⟨received, hb, h⟩ := h
        rw [JS.mem_lift_bind_acts] at h
        obtain ⟨comment, hc, h⟩ := h
        refine .inr ⟨⟨sender, recipient, sent, received, tax, comment⟩, ?_, admitted_unlimited _ _,
          Leads.transaction (q := ⟨sender, recipient, sent, received, tax, comment⟩) rfl h⟩
        simp only [MoneyAction.request, htax, hs, hr, ha, hb, hc]
        rfl

end Run

/-- The entry of an act that hands one over. -/
def Act.draft : Act → Option Draft
  | .intent _ _ e => some e
  | .spawn _ e => some e
  | _ => none

/-- An action on a payload leads to the act. -/
def Issues (E : Ext) (cfg : Config) (a : MoneyAction) (payload : JsVal) (act : Act) : Prop :=
  ∃ env client, env.cfg = cfg ∧ Reaches E cfg (a.run env client payload).acts act

/-- An action on a payload hands the entry over to be written. -/
def Books (E : Ext) (cfg : Config) (a : MoneyAction) (payload : JsVal) (e : Draft) : Prop :=
  ∃ act, Issues E cfg a payload act ∧ act.draft = some e

/-- An act that an action leads to is an answer or belongs to its request. -/
theorem starts_of_issues {E : Ext} {cfg : Config} {a : MoneyAction} {payload : JsVal} {act : Act}
    (h : Issues E cfg a payload act) : Starts cfg a payload act := by
  obtain ⟨env, client, rfl, hr⟩ := h
  refine hr.invariant (fun b hb => starts_of_run a hb) fun env' client c r hcfg hc b hb => ?_
  rcases hc with ⟨_, _, hc⟩ | ⟨q, hq, hadm, hc⟩
  · cases hc
  · exact .inr ⟨q, hq, hadm, Leads.onReply hcfg hc hb⟩

/-- Every entry that an action hands over belongs to its request. -/
theorem entryFor_of_books {E : Ext} {cfg : Config} {a : MoneyAction} {payload : JsVal} {e : Draft}
    (h : Books E cfg a payload e) : ∃ q given percent, a.request cfg payload = .ok q ∧
      Admitted cfg a.limitsDecplaces q ∧ EntryFor cfg q given percent e := by
  obtain ⟨act, hi, he⟩ := h
  rcases starts_of_issues hi with ⟨_, _, rfl⟩ | ⟨q, hq, hadm, hl⟩
  · cases he
  · cases act with
    | intent client sender e' =>
        cases he
        obtain ⟨-, given, percent, hef⟩ := hl
        exact ⟨q, given, percent, hq, hadm, hef⟩
    | spawn client e' =>
        cases he
        obtain ⟨-, given, percent, hef⟩ := hl
        exact ⟨q, given, percent, hq, hadm, hef⟩
    | _ => cases he

/-- The entry belongs to the request as it is read from the payload. -/
theorem Books.entryFor {E : Ext} {cfg : Config} {a : MoneyAction} {payload : JsVal} {e : Draft}
    {q : Request} {given : Given} {percent : Number} (h : Books E cfg a payload e)
    (hq : a.request cfg payload = .ok q)
    (hg : checkAmounts q.amount_sent q.amount_received = .ok given)
    (hp : q.tax.toNumber = .ok percent) : EntryFor cfg q given percent e := by
  obtain ⟨q', given', percent', hq', -, hef⟩ := entryFor_of_books h
  cases Except.ok.inj (hq.symm.trans hq')
  cases Except.ok.inj (hg.symm.trans hef.checked)
  cases Except.ok.inj (hp.symm.trans hef.rate)
  exact hef

/-! ## Every accepted request is booked -/

section Exists

variable {E : Ext} {env : Env} {client : Client} {q : Request} {spawn destroy : Bool}
  {given : Given} {percent : Number}

/-- What the callbacks capture for a request that passes the checks. -/
def Request.transfer (q : Request) (cfg : Config) (given : Given) (spawn destroy : Bool) :
    Transfer :=
  ⟨q.sender_qrid, q.recipient_qrid, given, q.tax, q.comment, cfg.magic_account, spawn, destroy⟩

variable (client) in
/-- A request that passes the checks starts with the lookup of the tax
account. -/
theorem transaction_acts (hs : q.sender_qrid.looseEq env.cfg.magic_account = .ok spawn)
    (hd : q.recipient_qrid.looseEq env.cfg.magic_account = .ok destroy)
    (hg : checkAmounts q.amount_sent q.amount_received = .ok given) :
    (transaction env client q.sender_qrid q.recipient_qrid q.amount_sent q.amount_received q.tax
      q.comment).acts = [.query client (.student "stdb.getByQridLean"
        (some (.str env.cfg.taxinc_qrid))
        (.transaction_taxinc (q.transfer env.cfg given spawn destroy)))] := by
  simp only [transaction, hs, hd, hg, JS.lift_ok_bind]
  rfl

/-- The side that a QR-ID stands for. -/
def Party.of (magic : Bool) (st : Student) : Party := if magic then .magic_account else .account st

/-- How an entry is handed over. -/
def handOver (client : Client) (e : Draft) : Party → Act
  | .magic_account => .spawn client e
  | .account st => .intent client st._id e

theorem handOver_draft (e : Draft) (sender : Party) :
    (handOver client e sender).draft = some e := by
  cases sender <;> rfl

variable (env client) in
theorem onRecipient_acts {t : Transfer} (hp : t.tax.toNumber = .ok percent) (taxinc : Student)
    (sender recipient : Party) :
    (onRecipient E env client t taxinc sender recipient).acts = [handOver client
      (t.entry E taxinc sender recipient percent (t.given.amounts env.cfg percent) env.now)
      sender] := by
  simp only [onRecipient, hp, JS.lift_ok_bind]
  cases sender <;> rfl

variable (client) in
/-- If the lookups succeed, a request that passes the checks reaches its
entry. -/
theorem reaches_handOver (hs : q.sender_qrid.looseEq env.cfg.magic_account = .ok spawn)
    (hd : q.recipient_qrid.looseEq env.cfg.magic_account = .ok destroy)
    (hg : checkAmounts q.amount_sent q.amount_received = .ok given)
    (hp : q.tax.toNumber = .ok percent) (taxinc s r : Student) :
    Reaches E env.cfg (transaction env client q.sender_qrid q.recipient_qrid q.amount_sent
      q.amount_received q.tax q.comment).acts (handOver client
        ((q.transfer env.cfg given spawn destroy).entry E taxinc (.of spawn s) (.of destroy r) percent
          (given.amounts env.cfg percent) env.now) (.of spawn s)) := by
  set t := q.transfer env.cfg given spawn destroy with ht
  have hp' : t.tax.toNumber = .ok percent := hp
  -- from a known sender on
  have fromSender : ∀ sender, Reaches E env.cfg (onSender E env client t taxinc sender).acts
      (handOver client (t.entry E taxinc sender (.of destroy r) percent
        (t.given.amounts env.cfg percent) env.now) sender) := by
    intro sender
    have there : ∀ recipient, handOver client (t.entry E taxinc sender recipient percent
        (t.given.amounts env.cfg percent) env.now) sender ∈
          (onRecipient E env client t taxinc sender recipient).acts := fun recipient => by
      rw [onRecipient_acts env client hp' taxinc sender recipient]
      exact List.mem_singleton_self _
    cases destroy with
    | true => exact .here (there .magic_account)
    | false =>
        exact .later (r := .student (some r)) (List.mem_singleton_self _) rfl
          (.here (there (.account r)))
  have hq : Act.query client (.student "stdb.getByQridLean" (some (.str env.cfg.taxinc_qrid))
      (.transaction_taxinc t)) ∈ (transaction env client q.sender_qrid q.recipient_qrid
        q.amount_sent q.amount_received q.tax q.comment).acts := by
    rw [transaction_acts client hs hd hg]
    exact List.mem_singleton_self _
  refine .later (r := .student (some taxinc)) hq rfl ?_
  cases spawn with
  | true => exact fromSender .magic_account
  | false =>
      exact .later (r := .student (some s)) (List.mem_singleton_self _) rfl
        (fromSender (.account s))

variable (env client) in
/-- A normal transaction with the right password reaches its entry. -/
theorem reaches_handOver_normal {payload tax : JsVal} {args : NormalArgs} {s : Student}
    (hread : NormalArgs.read payload tax = .ok args)
    (hc : commentTooLong env.cfg args.comment = .ok false)
    (hsent : tooManyDecplaces env.cfg args.sent = .ok false)
    (hreceived : tooManyDecplaces env.cfg args.received = .ok false)
    (hpw : check_password E s args.sender_password = .ok true)
    (hs : args.sender.looseEq env.cfg.magic_account = .ok spawn)
    (hd : args.recipient.looseEq env.cfg.magic_account = .ok destroy)
    (hg : checkAmounts args.sent args.received = .ok given)
    (hp : args.tax.toNumber = .ok percent) (taxinc r : Student) :
    Reaches E env.cfg (transaction_normal env client payload tax).acts
      (handOver { client with auth := some s._id }
        ((args.request.transfer env.cfg given spawn destroy).entry E taxinc (.of spawn s)
          (.of destroy r) percent (given.amounts env.cfg percent) env.now) (.of spawn s)) := by
  have hq : Act.query client (.student "stdb.getByQridLean" args.sender
      (.transaction_normal args)) ∈ (transaction_normal env client payload tax).acts := by
    simp only [transaction_normal, hread, JS.lift_ok_bind, normal, hc, hsent, hreceived]
    exact List.mem_singleton_self _
  refine .later (r := .student (some s)) hq (show env.cfg = env.cfg from rfl) ?_
  have hcb : (onReply E env client (.student "stdb.getByQridLean" args.sender
      (.transaction_normal args)) (.student (some s))).acts =
      (transaction env { client with auth := some s._id } args.sender args.recipient args.sent
        args.received args.tax args.comment).acts := by
    simp only [onReply, onStudent, transaction_normal_cb, hpw, JS.lift_ok_bind]
    rfl
  rw [hcb]
  exact reaches_handOver (q := args.request) _ hs hd hg hp taxinc s r

/-- A forced transaction hands its request to `transaction` when the percentage
is not negative. -/
theorem run_master_transaction {payload : JsVal} {percent : ℚ}
    (hq : MoneyAction.master_transaction.request env.cfg payload = .ok q)
    (hp : q.tax.toNumber = .ok (.fin percent)) (h0 : 0 ≤ percent) :
    MoneyAction.master_transaction.run env client payload =
      transaction env client q.sender_qrid q.recipient_qrid q.amount_sent q.amount_received q.tax
        q.comment := by
  rw [MoneyAction.request] at hq
  obtain ⟨tax, htax, hq⟩ := except_bind_eq_ok hq
  obtain ⟨sender, hs, hq⟩ := except_bind_eq_ok hq
  obtain ⟨recipient, hr, hq⟩ := except_bind_eq_ok hq
  obtain ⟨sent, ha, hq⟩ := except_bind_eq_ok hq
  obtain ⟨received, hb, hq⟩ := except_bind_eq_ok hq
  obtain ⟨comment, hc, hq⟩ := except_bind_eq_ok hq
  cases hq
  have hlt : (Number.fin percent).lt (.fin 0) = false := by simpa using h0
  simp only [MoneyAction.run, master_transaction, htax, hp, hlt, hs, hr, ha, hb, hc,
    JS.lift_ok_bind]
  rfl

variable (env) in
/-- A forced transaction that passes the checks is booked. -/
theorem books_master_transaction {payload : JsVal} {percent : ℚ}
    (hq : MoneyAction.master_transaction.request env.cfg payload = .ok q)
    (hp : q.tax.toNumber = .ok (.fin percent)) (h0 : 0 ≤ percent)
    (hs : q.sender_qrid.looseEq env.cfg.magic_account = .ok spawn)
    (hd : q.recipient_qrid.looseEq env.cfg.magic_account = .ok destroy)
    (hg : checkAmounts q.amount_sent q.amount_received = .ok given) (st : Student) :
    Books E env.cfg .master_transaction payload
      ((q.transfer env.cfg given spawn destroy).entry E st (.of spawn st) (.of destroy st)
        (.fin percent) (given.amounts env.cfg (.fin percent)) env.now) := by
  have hr := reaches_handOver (E := E) ⟨0, none⟩ hs hd hg hp st st st
  rw [← run_master_transaction hq hp h0] at hr
  exact ⟨_, ⟨env, _, rfl, hr⟩, handOver_draft _ _⟩

end Exists

end SchuleAlsStaat
