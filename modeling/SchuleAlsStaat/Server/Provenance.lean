import SchuleAlsStaat.Server.Sender

/-!
# Where entries come from

An entry of the ledger that was not there at the start was asked for by a request.
`entries_asked_for` says what the request was: it named an action that moves money and
had a certificate for it, and the entry is built from the payload, with amounts rounded as
the configuration said and with records that lookups of the QR-IDs in the payload had found
in the collection.  The entry of a normal transaction was built after such a record of the
sender had accepted the password.
-/

namespace SchuleAlsStaat

open Js (JsVal JS Number)

/-! ## Requests for entries -/

/-- What the steps of a run have read. -/
structure Seen where
  /-- A lookup of the QR-ID has found the record. -/
  record : JsVal → Student → Prop
  config : Config → Prop

/-- More has been read. -/
structure Seen.Within (H H' : Seen) : Prop where
  record : ∀ v st, H.record v st → H'.record v st
  config : ∀ cfg, H.config cfg → H'.config cfg

/-- The side of a transaction that goes by the QR-ID `v`. -/
def Party.Under (H : Seen) (magic_account : String) (v : JsVal) : Party → Prop
  | .magic_account => v.looseEq magic_account = .ok true
  | .account st => H.record v st

/-- The callbacks carry the arguments of the request. -/
structure Request.CarriedBy (H : Seen) (rq : Request) (t : Transfer) : Prop where
  sender_qrid : t.sender_qrid = rq.sender_qrid
  recipient_qrid : t.recipient_qrid = rq.recipient_qrid
  given : checkAmounts rq.amount_sent rq.amount_received = .ok t.given
  tax : t.tax = rq.tax
  comment : t.comment = rq.comment
  magic_account : ∃ cfg, H.config cfg ∧ t.magic_account = cfg.magic_account
  spawn : rq.sender_qrid.looseEq t.magic_account = .ok t.spawn_money
  destroy : rq.recipient_qrid.looseEq t.magic_account = .ok t.destroy_money

/-- The account was found under the QR-ID of the tax account. -/
def TaxIncome (H : Seen) (st : Student) : Prop :=
  ∃ cfg, H.config cfg ∧ H.record (some (.str cfg.taxinc_qrid)) st

/-- The entry is built from the arguments of the request. -/
def Request.Builds (E : Ext) (H : Seen) (rq : Request) (e : Draft) : Prop :=
  ∃ (t : Transfer) (taxinc : Student) (sender recipient : Party) (percent : Number) (cfg : Config)
    (now : Time), rq.CarriedBy H t ∧ rq.tax.toNumber = .ok percent ∧ TaxIncome H taxinc ∧
      sender.Under H t.magic_account rq.sender_qrid ∧
      recipient.Under H t.magic_account rq.recipient_qrid ∧ H.config cfg ∧
      e = t.entry E taxinc sender recipient percent (t.given.amounts cfg percent) now

section Within

variable {H H' : Seen} (hH : H.Within H') {rq : Request}

include hH

theorem Party.Under.mono {magic_account : String} {v : JsVal} {p : Party}
    (h : p.Under H magic_account v) : p.Under H' magic_account v := by
  cases p with
  | magic_account => exact h
  | account st => exact hH.record v st h

theorem Request.CarriedBy.mono {t : Transfer} (h : rq.CarriedBy H t) : rq.CarriedBy H' t :=
  { h with magic_account := h.magic_account.imp fun cfg hcfg => ⟨hH.config cfg hcfg.1, hcfg.2⟩ }

theorem TaxIncome.mono {st : Student} (h : TaxIncome H st) : TaxIncome H' st :=
  h.imp fun cfg hcfg => ⟨hH.config cfg hcfg.1, hH.record _ _ hcfg.2⟩

theorem Request.Builds.mono {E : Ext} {e : Draft} (h : rq.Builds E H e) : rq.Builds E H' e := by
  obtain ⟨t, taxinc, sender, recipient, percent, cfg, now, ht, hp, hinc, hs, hr, hcfg, he⟩ := h
  exact ⟨t, taxinc, sender, recipient, percent, cfg, now, ht.mono hH, hp, hinc.mono hH, hs.mono hH,
    hr.mono hH, hH.config cfg hcfg, he⟩

end Within

/-- The password that is read from the payload. -/
theorem NormalArgs.read_password {payload tax : JsVal} {args : NormalArgs}
    (h : NormalArgs.read payload tax = .ok args) :
    payload.prop "sender_password" = .ok args.sender_password := by
  obtain ⟨sender, -, h⟩ := Js.except_bind_eq_ok h
  obtain ⟨recipient, -, h⟩ := Js.except_bind_eq_ok h
  obtain ⟨password, hpassword, h⟩ := Js.except_bind_eq_ok h
  obtain ⟨comment, -, h⟩ := Js.except_bind_eq_ok h
  obtain ⟨sent, -, h⟩ := Js.except_bind_eq_ok h
  obtain ⟨received, -, h⟩ := Js.except_bind_eq_ok h
  cases h
  exact hpassword

section Money

variable {E : Ext} {H : Seen} {env : Env} {client : Client} {payload : JsVal} {a : Act}

/-- What an action that moves money does first. -/
theorem mem_money_run {b : MoneyAction} (h : a ∈ (b.run env client payload).acts) :
    (∃ m, a = .answer client m) ∨
      (∃ tax args, NormalArgs.read payload tax = .ok args ∧
        b.request env.cfg payload = .ok args.request ∧ a ∈ (normal env client args).acts) ∨
      (b ≠ .transaction ∧ b ≠ .transaction_taxfree ∧ ∃ rq, b.request env.cfg payload = .ok rq ∧
        a ∈ (transaction env client rq.sender_qrid rq.recipient_qrid rq.amount_sent
          rq.amount_received rq.tax rq.comment).acts) := by
  cases b with
  | transaction =>
      obtain ⟨args, hargs, h⟩ := JS.mem_lift_bind_acts.mp h
      exact .inr (.inl ⟨_, args, hargs, by rw [MoneyAction.request, hargs]; rfl, h⟩)
  | transaction_taxfree =>
      obtain ⟨args, hargs, h⟩ := JS.mem_lift_bind_acts.mp h
      exact .inr (.inl ⟨_, args, hargs, by rw [MoneyAction.request, hargs]; rfl, h⟩)
  | spawn_money =>
      obtain ⟨recipient, hr, h⟩ := JS.mem_lift_bind_acts.mp h
      obtain ⟨amount, ha, h⟩ := JS.mem_lift_bind_acts.mp h
      obtain ⟨comment, hc, h⟩ := JS.mem_lift_bind_acts.mp h
      refine .inr (.inr ⟨by decide, by decide, ⟨_, recipient, amount, _, _, comment⟩, ?_, h⟩)
      simp only [MoneyAction.request, hr, ha, hc]
      rfl
  | destroy_money =>
      obtain ⟨sender, hs, h⟩ := JS.mem_lift_bind_acts.mp h
      obtain ⟨amount, ha, h⟩ := JS.mem_lift_bind_acts.mp h
      obtain ⟨comment, hc, h⟩ := JS.mem_lift_bind_acts.mp h
      refine .inr (.inr ⟨by decide, by decide, ⟨sender, _, amount, _, _, comment⟩, ?_, h⟩)
      simp only [MoneyAction.request, hs, ha, hc]
      rfl
  | master_transaction =>
      obtain ⟨tax, htax, h⟩ := JS.mem_lift_bind_acts.mp h
      obtain ⟨percent, -, h⟩ := JS.mem_lift_bind_acts.mp h
      split at h
      next =>
        rw [answer_acts] at h
        exact .inl ⟨_, List.mem_singleton.mp h⟩
      next =>
        obtain ⟨sender, hs, h⟩ := JS.mem_lift_bind_acts.mp h
        obtain ⟨recipient, hr, h⟩ := JS.mem_lift_bind_acts.mp h
        obtain ⟨sent, ha, h⟩ := JS.mem_lift_bind_acts.mp h
        obtain ⟨received, hb, h⟩ := JS.mem_lift_bind_acts.mp h
        obtain ⟨comment, hc, h⟩ := JS.mem_lift_bind_acts.mp h
        refine .inr (.inr ⟨by decide, by decide, ⟨sender, recipient, sent, received, tax, comment⟩, ?_, h⟩)
        simp only [MoneyAction.request, htax, hs, hr, ha, hb, hc]
        rfl

/-- `transaction` answers or starts to carry its arguments. -/
theorem carried_of_mem (hcfg : H.config env.cfg) (rq : Request) (h : a ∈ (transaction env client rq.sender_qrid
      rq.recipient_qrid rq.amount_sent rq.amount_received rq.tax rq.comment).acts) :
    (∃ m, a = .answer client m) ∨ ∃ t, rq.CarriedBy H t ∧ a = .query client
      (.student "stdb.getByQridLean" (some (.str env.cfg.taxinc_qrid)) (.transaction_taxinc t)) := by
  obtain ⟨spawn, destroy, hs, hd, ⟨e, -, rfl⟩ | ⟨given, hg, rfl⟩⟩ := mem_transaction h
  · exact .inl ⟨_, rfl⟩
  · exact .inr ⟨rq.transfer env.cfg given spawn destroy,
      ⟨rfl, rfl, hg, rfl, rfl, ⟨env.cfg, hcfg, rfl⟩, hs, hd⟩, rfl⟩

/-- The last lookup has found the recipient, or there is none. -/
theorem builds_of_mem (hcfg : H.config env.cfg) {rq : Request} {t : Transfer} {taxinc : Student}
    {sender recipient : Party} (ht : rq.CarriedBy H t) (hinc : TaxIncome H taxinc)
    (hs : sender.Under H t.magic_account rq.sender_qrid)
    (hr : recipient.Under H t.magic_account rq.recipient_qrid)
    (h : a ∈ (onRecipient E env client t taxinc sender recipient).acts) :
    (∃ e, a = .spawn client e ∧ rq.Builds E H e) ∨
      ∃ id e, a = .intent client id e ∧ rq.Builds E H e := by
  obtain ⟨percent, hp, ⟨-, rfl⟩ | ⟨st, -, rfl⟩⟩ := mem_onRecipient h
  · exact .inl ⟨_, rfl, t, taxinc, sender, recipient, percent, env.cfg, env.now, ht, ht.tax ▸ hp,
      hinc, hs, hr, hcfg, rfl⟩
  · exact .inr ⟨_, _, rfl, t, taxinc, sender, recipient, percent, env.cfg, env.now, ht,
      ht.tax ▸ hp, hinc, hs, hr, hcfg, rfl⟩

end Money

namespace Server

open Runs (Run AnyRun recorded exec exists_run_of_exec)
open Calls (forall_mem_set mem_of_getElem?)

variable {E : Ext} {K : Keys} {H H' : Seen} {S : Students} {L : Ledger} {s s' : State}

/-! ## Acts of a request -/

/-- The request names an action that moves money, has a certificate for it, and its payload has
these arguments. -/
def Wants (E : Ext) (K : Keys) (H : Seen) (q : Received) (rq : Request) : Prop :=
  ∃ (b : MoneyAction) (payload : JsVal) (cfg : Config), Dispatched E K q.name q.post (.money b) ∧
    payloadOf K q.post = .ok payload ∧ H.config cfg ∧ b.request cfg payload = .ok rq

/-- The password of the payload. -/
def Offers (K : Keys) (q : Received) (password : JsVal) : Prop :=
  ∃ payload, payloadOf K q.post = .ok payload ∧ payload.prop "sender_password" = .ok password

/-- If the request is for a normal transaction, then its password was accepted by a record
that a lookup of the sender has found. -/
def Granted (E : Ext) (K : Keys) (H : Seen) (q : Received) (rq : Request) : Prop :=
  Wants E K H q rq ∧ (q.normal → ∃ password st, Offers K q password ∧
    H.record rq.sender_qrid st ∧ check_password E st password = .ok true)

/-- What leads from the request to its entry. -/
def Pays (E : Ext) (K : Keys) (H : Seen) (q : Received) : Act → Prop
  | .query _ (.student _ v (.transaction_normal args)) =>
      Wants E K H q args.request ∧ Offers K q args.sender_password ∧ v = args.sender
  | .query _ (.student _ v (.transaction_taxinc t)) =>
      ∃ rq, Granted E K H q rq ∧ rq.CarriedBy H t ∧
        ∃ cfg, H.config cfg ∧ v = some (.str cfg.taxinc_qrid)
  | .query _ (.student _ v (.transaction_sender t taxinc)) =>
      ∃ rq, Granted E K H q rq ∧ rq.CarriedBy H t ∧ TaxIncome H taxinc ∧ v = t.sender_qrid
  | .query _ (.student _ v (.transaction_recipient t taxinc sender)) =>
      ∃ rq, Granted E K H q rq ∧ rq.CarriedBy H t ∧ TaxIncome H taxinc ∧ v = t.recipient_qrid ∧
        sender.Under H t.magic_account rq.sender_qrid
  | .intent _ _ e => ∃ rq, Granted E K H q rq ∧ rq.Builds E H e
  | .spawn _ e => ∃ rq, Granted E K H q rq ∧ rq.Builds E H e
  | _ => True

section Mono

variable (hH : H.Within H') {q : Received} {rq : Request}

include hH

theorem Wants.mono (h : Wants E K H q rq) : Wants E K H' q rq := by
  obtain ⟨b, payload, cfg, hd, hp, hcfg, hrq⟩ := h
  exact ⟨b, payload, cfg, hd, hp, hH.config cfg hcfg, hrq⟩

theorem Granted.mono (h : Granted E K H q rq) : Granted E K H' q rq := by
  refine ⟨h.1.mono hH, fun hn => ?_⟩
  obtain ⟨password, st, hoffers, hrecord, hok⟩ := h.2 hn
  exact ⟨password, st, hoffers, hH.record _ _ hrecord, hok⟩

theorem Pays.mono {a : Act} (h : Pays E K H q a) : Pays E K H' q a := by
  cases a with
  | query client query =>
      cases query with
      | student component v cb =>
          cases cb with
          | transaction_normal args => exact ⟨h.1.mono hH, h.2⟩
          | transaction_taxinc t =>
              obtain ⟨rq, hg, ht, cfg, hcfg, hv⟩ := h
              exact ⟨rq, hg.mono hH, ht.mono hH, cfg, hH.config cfg hcfg, hv⟩
          | transaction_sender t taxinc =>
              obtain ⟨rq, hg, ht, hinc, hv⟩ := h
              exact ⟨rq, hg.mono hH, ht.mono hH, hinc.mono hH, hv⟩
          | transaction_recipient t taxinc sender =>
              obtain ⟨rq, hg, ht, hinc, hv, hs⟩ := h
              exact ⟨rq, hg.mono hH, ht.mono hH, hinc.mono hH, hv, hs.mono hH⟩
          | _ => trivial
      | _ => trivial
  | intent client id e =>
      obtain ⟨rq, hg, he⟩ := h
      exact ⟨rq, hg.mono hH, he.mono hH⟩
  | spawn client e =>
      obtain ⟨rq, hg, he⟩ := h
      exact ⟨rq, hg.mono hH, he.mono hH⟩
  | _ => trivial

end Mono

theorem Pays.of_plain {q : Received} {a : Act} (h : a.Plain) : Pays E K H q a := by
  cases a with
  | query client query =>
      cases query with
      | student component v cb => cases cb <;> trivial
      | _ => trivial
  | intent | spawn => exact h.elim
  | _ => trivial

theorem pays_prepare_action {env : Env} (hcfg : H.config env.cfg) {client : Client} {q : Received}
    {a : Act} (h : a ∈ (prepare_action E K env client q.name q.post).acts) : Pays E K H q a := by
  rcases mem_prepare_action_payload h with ⟨m, -, rfl⟩ | ⟨payload, rfl⟩ | ⟨b, payload, hd, hp, h⟩
  · trivial
  · trivial
  · cases hm : b.moves with
    | false => exact .of_plain (plain_run E env client payload hm a h).2
    | true =>
        cases b with
        | money b =>
            rcases mem_money_run h with ⟨m, rfl⟩ | ⟨tax, args, hargs, hrq, h⟩ |
              ⟨hb, hb', rq, hrq, h⟩
            · trivial
            · rcases mem_normal h with ⟨m, rfl⟩ | ⟨-, -, rfl⟩
              · trivial
              · exact ⟨⟨b, payload, env.cfg, hd, hp, hcfg, hrq⟩,
                  ⟨payload, hp, NormalArgs.read_password hargs⟩, rfl⟩
            · have granted : Granted E K H q rq := by
                refine ⟨⟨b, payload, env.cfg, hd, hp, hcfg, hrq⟩, fun hn => ?_⟩
                have hname := hd.1
                rcases hn with hn | hn <;> rw [hn] at hname <;> cases hname
                · exact absurd rfl hb
                · exact absurd rfl hb'
              rcases carried_of_mem hcfg rq h with ⟨m, rfl⟩ | ⟨t, ht, rfl⟩
              · trivial
              · exact ⟨rq, granted, ht, env.cfg, hcfg, rfl⟩
        | _ => cases hm

/-! ## Callbacks -/

/-- A lookup that replied a record has found it. -/
def Finding (H : Seen) (c : Call) : Prop :=
  ∀ component v cb st, c.query = .student component v cb →
    c.phase = .replied (some (.student (some st))) → H.record v st

theorem Finding.mono (hH : H.Within H') {c : Call} (h : Finding H c) : Finding H' c :=
  fun component v cb st hq hp => hH.record v st (h component v cb st hq hp)

/-- The callbacks carry the arguments on to the entry. -/
theorem pays_onReply {env : Env} (hcfg : H.config env.cfg) {c : Call} {r : Reply} {q : Received}
    {a : Act} (hc : Finding H c) (hp : c.phase = .replied (some r))
    (hq : Pays E K H q (.query c.client c.query))
    (h : a ∈ (onReply E env c.client c.query r).acts) : Pays E K H q a := by
  cases hm : c.query.moves with
  | false => exact .of_plain ((plain_onReply E env c.client hm r).acts a h).2
  | true =>
      obtain ⟨component, v, cb, st, hquery, rfl, ha⟩ := mem_onReply_moves _ _ _ hm h
      have found : ∀ st', st = some st' → H.record v st' := by
        rintro st' rfl
        exact hc component v cb st' hquery hp
      rw [hquery] at hq hm
      -- the entry, once all accounts are known
      have entry : ∀ {rq t taxinc sender recipient}, Granted E K H q rq → rq.CarriedBy H t →
          TaxIncome H taxinc → sender.Under H t.magic_account rq.sender_qrid →
          recipient.Under H t.magic_account rq.recipient_qrid →
          a ∈ (onRecipient E env c.client t taxinc sender recipient).acts → Pays E K H q a := by
        intro rq t taxinc sender recipient hg ht hinc hs hr ha
        rcases builds_of_mem hcfg ht hinc hs hr ha with ⟨e, rfl, he⟩ | ⟨id, e, rfl, he⟩
        · exact ⟨rq, hg, he⟩
        · exact ⟨rq, hg, he⟩
      -- the lookup of the recipient, once the sender is known
      have onSender : ∀ {rq t taxinc sender}, Granted E K H q rq → rq.CarriedBy H t →
          TaxIncome H taxinc → sender.Under H t.magic_account rq.sender_qrid →
          a ∈ (onSender E env c.client t taxinc sender).acts → Pays E K H q a := by
        intro rq t taxinc sender hg ht hinc hs ha
        rcases mem_onSender ha with ⟨hd, ha⟩ | ⟨-, rfl⟩
        · have hr : Party.Under H t.magic_account rq.recipient_qrid .magic_account :=
            ht.destroy.trans (congrArg Except.ok hd)
          exact entry hg ht hinc hs hr ha
        · exact ⟨rq, hg, ht, hinc, rfl, hs⟩
      cases cb with
      | transaction_normal args =>
          obtain ⟨wants, offers, rfl⟩ := hq
          rcases mem_transaction_normal_cb ha with ⟨m, rfl⟩ | ⟨st', rfl, hpw, ha⟩
          · trivial
          · have granted : Granted E K H q args.request :=
              ⟨wants, fun _ => ⟨_, st', offers, found st' rfl, hpw⟩⟩
            rcases carried_of_mem hcfg args.request ha with ⟨m, rfl⟩ | ⟨t, ht, rfl⟩
            · trivial
            · exact ⟨args.request, granted, ht, env.cfg, hcfg, rfl⟩
      | transaction_taxinc t =>
          obtain ⟨rq, hg, ht, cfg, hcfg', rfl⟩ := hq
          rcases mem_transaction_taxinc_cb ha with ⟨m, rfl⟩ | ⟨taxinc, rfl, hcase⟩
          · trivial
          · have hinc : TaxIncome H taxinc := ⟨cfg, hcfg', found taxinc rfl⟩
            rcases hcase with ⟨hs, ha⟩ | ⟨-, rfl⟩
            · have hmagic : Party.Under H t.magic_account rq.sender_qrid .magic_account :=
                ht.spawn.trans (congrArg Except.ok hs)
              exact onSender hg ht hinc hmagic ha
            · exact ⟨rq, hg, ht, hinc, rfl⟩
      | transaction_sender t taxinc =>
          obtain ⟨rq, hg, ht, hinc, rfl⟩ := hq
          rcases mem_transaction_sender_cb ha with ⟨m, rfl⟩ | ⟨st', rfl, ha⟩
          · trivial
          · have hs : Party.Under H t.magic_account rq.sender_qrid (.account st') :=
              ht.sender_qrid ▸ found st' rfl
            exact onSender hg ht hinc hs ha
      | transaction_recipient t taxinc sender =>
          obtain ⟨rq, hg, ht, hinc, rfl, hs⟩ := hq
          rcases mem_transaction_recipient_cb ha with ⟨m, rfl⟩ | ⟨st', rfl, ha⟩
          · trivial
          · have hr : Party.Under H t.magic_account rq.recipient_qrid (.account st') :=
              ht.recipient_qrid ▸ found st' rfl
            exact entry hg ht hinc hs hr ha
      | _ => cases hm

/-! ## Runs -/

/-- What is under way for a request leads from it to its entry. -/
structure Sourced (E : Ext) (K : Keys) (H : Seen) (L : Ledger) (s : State) : Prop where
  traced : Traced (Pays E K H) L s
  found : ∀ c ∈ s.calls, Finding H c

/-- What a step reads. -/
structure Noted (E : Ext) (H : Seen) (s : State) (e : Event) : Prop where
  record : ∀ n c component v cb st, e = .callDb n (.student (some st)) → s.calls[n]? = some c →
    c.query = .student component v cb → s.students.findOne E v = some st → H.record v st
  config : ∀ env, e.env = some env → H.config env.cfg

namespace Sourced

theorem init (S : Students) (L : Ledger) : Sourced E K H L (State.init S L) :=
  ⟨.init S L, by simp [State.init]⟩

theorem mono (hH : H.Within H') (h : Sourced E K H L s) : Sourced E K H' L s :=
  ⟨h.traced.mono fun _ _ ha => ha.mono hH, fun c hc => (h.found c hc).mono hH⟩

theorem found_performAll (h : ∀ c ∈ s.calls, Finding H c) (w : WorkerId) (now : Time)
    (acts : List Act) : ∀ c ∈ (s.performAll w now acts).calls, Finding H c := by
  intro c hc component v cb st hq hp
  rcases (State.performAll_frame w now acts s).2.2 c hc with hc | ⟨client, q, -, rfl⟩
  · exact h c hc component v cb st hq hp
  · cases hp

/-- A call without such a reply. -/
theorem found_set (h : ∀ c ∈ s.calls, Finding H c) (n : ℕ) {c : Call}
    (hc : ∀ st, c.phase ≠ .replied (some (.student (some st)))) :
    ∀ k ∈ s.calls.set n c, Finding H k :=
  forall_mem_set n h fun _ _ _ st _ hp => absurd hp (hc st)

theorem step (h : Sourced E K H L s) {e : Event} (hnoted : Noted E H s e)
    (hs : Server.step E K s e = some s') : Sourced E K H L s' := by
  have traced : Traced (Pays E K H) L s' := by
    refine h.traced.step (fun w env name post he a ha => ?_) ?_ hs
    · exact pays_prepare_action (q := ⟨name, post⟩) (hnoted.config env (he ▸ rfl)) ha
    · intro n env c r q he hc hp _ hpays a ha
      exact pays_onReply (hnoted.config env (he ▸ rfl)) (h.found c (mem_of_getElem? hc)) hp hpays ha
  refine ⟨traced, ?_⟩
  cases step_cases hs with
  | request w env name post =>
      refine found_performAll ?_ w env.now _
      exact h.found
  | @callDb n r c S m hc hp hx =>
      refine forall_mem_set n h.found ?_
      rintro component v cb st hquery hreply
      cases hreply
      rw [show c.query = .student component v cb from hquery] at hx
      obtain ⟨-, hfind⟩ := execute_student hx
      exact hnoted.record n c component v cb st rfl hc hquery (Reply.student.inj hfind).symm
  | removeDb => exact found_set h.found _ fun _ hdone => by cases hdone
  | callFail => exact found_set h.found _ fun _ hfail => by cases hfail
  | @callReply n c r env hc hp =>
      refine found_performAll ?_ c.worker env.now _
      exact found_set h.found n fun _ hdone => by cases hdone
  | callError => exact found_set h.found _ fun _ hdone => by cases hdone
  | callDropped => exact found_set h.found _ fun _ hdone => by cases hdone
  | _ => exact h.found

/-- Everything that is written was asked for. -/
theorem written (h : Sourced E K H L s) {c : Pending.WriteCall} (hc : c ∈ s.bank.writes) :
    ∃ q rq, s.received[c.answer.req]? = some q ∧ Granted E K H q rq ∧ rq.Builds E H c.entry := by
  rcases h.traced.bank.written hc with ⟨_, q, hq, rq, hg, he⟩ | ⟨q, hq, rq, hg, he⟩
  · exact ⟨q, rq, hq, hg, he⟩
  · exact ⟨q, rq, hq, hg, he⟩

end Sourced

/-- What a run of the server has read: the records that its lookups found in the collection
of that time, and its configurations. -/
def seen (E : Ext) (past : List (State × Event)) : Seen where
  record v st := ∃ t n c component cb, (t, .callDb n (.student (some st))) ∈ past ∧
    t.calls[n]? = some c ∧ c.query = .student component v cb ∧ t.students.findOne E v = some st
  config cfg := ∃ t e env, (t, e) ∈ past ∧ e.env = some env ∧ env.cfg = cfg

theorem seen_within (p : State × Event) (past : List (State × Event)) :
    (seen E past).Within (seen E (p :: past)) where
  record := by
    rintro v st ⟨t, n, c, component, cb, hmem, rest⟩
    exact ⟨t, n, c, component, cb, List.mem_cons_of_mem _ hmem, rest⟩
  config := by
    rintro cfg ⟨t, e, env, hmem, rest⟩
    exact ⟨t, e, env, List.mem_cons_of_mem _ hmem, rest⟩

theorem noted_seen (s : State) (e : Event) (past : List (State × Event)) :
    Noted E (seen E ((s, e) :: past)) s e where
  record n c component _ cb _ he hc hq hfind :=
    ⟨s, n, c, component, cb, he ▸ List.mem_cons_self .., hc, hq, hfind⟩
  config env he := ⟨s, e, env, List.mem_cons_self .., he, rfl⟩

theorem sourced_of_run {past : List (State × Event)}
    (run : AnyRun (recorded (Server.step E K)) (State.init S L, []) (s, past)) :
    Sourced E K (seen E past) L s := by
  have next : ∀ t e u past, Sourced E K (seen E past) L t → True →
      Server.step E K t e = some u → Sourced E K (seen E ((t, e) :: past)) L u :=
    fun t e _ past h _ hs => (h.mono (seen_within _ _)).step (noted_seen t e past) hs
  exact run.invariant_recorded (I := fun s past => Sourced E K (seen E past) L s) (.init S L) next

/-- In every run an entry that was not in the ledger at the start is built from the payload of a
request with a certificate for its action, with records that the run has found in the
collection.  If it is a normal transaction, then a record that was found for the sender has
accepted the password of the payload. -/
theorem entries_asked_for {past : List (State × Event)}
    (run : AnyRun (recorded (Server.step E K)) (State.init S L, []) (s, past)) :
    ∀ b ∈ s.bank.transactions, b ∈ L ∨ ∃ c ∈ s.bank.writes, c.phase.outcome = some true ∧
      c.entry.cast = some b ∧ ∃ q rq, s.received[c.answer.req]? = some q ∧
        Granted E K (seen E past) q rq ∧ rq.Builds E (seen E past) c.entry := by
  have sourced := sourced_of_run run
  intro b hb
  refine (sourced.traced.bank.ledger b hb).imp_right ?_
  rintro ⟨c, hc, hout, hcast⟩
  exact ⟨c, hc, hout, hcast, sourced.written hc⟩

section Sample

open Pending (endowment)

theorem entries_asked_for_payment : ∃ s past,
    AnyRun (recorded (Server.step Ext.simple editKeys)) (State.init citizens endowment, [])
      (s, past) ∧ s.bank.transactions.length = endowment.length + 1 ∧
      ∀ b ∈ s.bank.transactions, b ∈ endowment ∨ ∃ c ∈ s.bank.writes,
        c.phase.outcome = some true ∧ c.entry.cast = some b ∧
          ∃ q rq, s.received[c.answer.req]? = some q ∧
            Granted Ext.simple editKeys (seen Ext.simple past) q rq ∧
            rq.Builds Ext.simple (seen Ext.simple past) c.entry := by
  have hexec : (exec (Server.step Ext.simple editKeys) (fun _ _ => True)
      (State.init citizens endowment) paymentEvents).map (·.bank.transactions.length) =
        some (endowment.length + 1) := by decide +kernel
  obtain ⟨s, run, h⟩ := exists_run_of_exec paymentEvents hexec
  obtain ⟨past, run⟩ := run.exists_recorded
  exact ⟨s, past, run, h, entries_asked_for run⟩

end Sample

end Server

end SchuleAlsStaat
