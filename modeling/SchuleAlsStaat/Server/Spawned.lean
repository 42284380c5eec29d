import SchuleAlsStaat.Actions.Bookings
import SchuleAlsStaat.Server.Traced

/-!
# Spawned money

`transaction` spawns money when its sender is the magic account, whoever calls
it.  The actions that need no master certificate call it with the sender of
their payload, once the password of that sender is checked.  So they spawn no
money as long as nobody is accepted under the name of the magic account:
`NoMagicSender`.
-/

namespace SchuleAlsStaat

/-- The callback belongs to a transaction that spawns money. -/
def StudentCb.spawns : StudentCb → Bool
  | .transaction_taxinc t => t.spawn_money
  | .transaction_recipient _ _ .magic_account => true
  | _ => false

def Query.spawns : Query → Bool
  | .student _ _ cb => cb.spawns
  | _ => false

/-- The act does not lead to spawned money. -/
def Act.Ordinary : Act → Prop
  | .query _ q => q.spawns = false
  | .intent _ sender e => e.sender.reference = some sender
  | .spawn _ _ => False
  | _ => True

/-- The action needs the master certificate. -/
def ActionName.master (a : ActionName) : Prop := a.cert = some ["master_hash"]

theorem Act.Plain.ordinary {a : Act} (h : a.Plain) : a.Ordinary := by
  cases a with
  | query client q =>
      cases q with
      | student component qrid cb => cases cb <;> first | rfl | cases h
      | _ => rfl
  | intent | spawn => exact h.elim
  | _ => trivial

section Ordinary

variable {E : Ext} {env : Env} {client : Client} {a : Act}

theorem ordinary_onRecipient {t : Transfer} {taxinc st : Student} {recipient : Party}
    (h : a ∈ (onRecipient E env client t taxinc (.account st) recipient).acts) : a.Ordinary := by
  obtain ⟨percent, -, ⟨hs, -⟩ | ⟨st', hs, rfl⟩⟩ := mem_onRecipient h
  · cases hs
  · cases hs
    rfl

theorem ordinary_onSender {t : Transfer} {taxinc st : Student}
    (h : a ∈ (onSender E env client t taxinc (.account st)).acts) : a.Ordinary := by
  rcases mem_onSender h with ⟨-, h⟩ | ⟨-, rfl⟩
  · exact ordinary_onRecipient h
  · rfl

/-- An action that does not need the master certificate. -/
theorem ordinary_run {b : ActionName} {payload : Js.JsVal} (hb : ¬ b.master)
    (h : a ∈ (b.run E env client payload).acts) : a.Ordinary := by
  have normal : ∀ tax, a ∈ (transaction_normal env client payload tax).acts → a.Ordinary := by
    intro tax h
    obtain ⟨args, -, h⟩ := Js.JS.mem_lift_bind_acts.mp h
    rcases mem_normal h with ⟨m, rfl⟩ | ⟨-, -, rfl⟩
    · trivial
    · rfl
  cases hm : b.moves with
  | false => exact (plain_run E env client payload hm a h).2.ordinary
  | true =>
      cases b with
      | money b =>
          cases b with
          | transaction => exact normal _ h
          | transaction_taxfree => exact normal _ h
          | _ => exact absurd rfl hb
      | _ => cases hm

end Ordinary

/-- A transaction with these arguments passes for one of the magic account. -/
def NormalArgs.magic (cfg : Config) (args : NormalArgs) : Bool :=
  (checkAmounts args.sent args.received).isOk && passes (args.sender.looseEq cfg.magic_account)

namespace Server

open Runs (Run exec exists_run_of_exec)

variable {E : Ext} {K : Keys} {L : Ledger} {s s' : State}

/-- A request with the master certificate to an action that needs it. -/
def Master (E : Ext) (K : Keys) (q : Received) : Prop :=
  ∃ b : ActionName, b.master ∧ Dispatched E K q.name q.post b

/-- A request without the master certificate leads to no spawned money. -/
def Minted (E : Ext) (K : Keys) (q : Received) (a : Act) : Prop := a.Ordinary ∨ Master E K q

/-- A password lookup that found its record and accepts the password. -/
def Call.accepts (E : Ext) (c : Call) : Option (NormalArgs × Student) :=
  match c.query, c.phase with
  | .student _ _ (.transaction_normal args), .replied (some (.student (some st))) =>
      if passes (check_password E st args.sender_password) then some (args, st) else none
  | _, _ => none

/-- No password is accepted for a transaction of the magic account. -/
def NoMagicSender (E : Ext) (s : State) : Event → Prop
  | .callReply n env => ∀ c ∈ s.calls[n]?, ∀ p ∈ c.accepts E, p.1.magic env.cfg = false
  | _ => True

instance (s : State) (e : Event) : Decidable (NoMagicSender E s e) :=
  match e with
  | .callReply .. => inferInstanceAs (Decidable (∀ _ ∈ _, _))
  | .request .. | .callDb .. | .removeDb .. | .callFail _ | .sumDb .. | .sumReply ..
  | .pollTimeout _ | .handleDbPollAnswer .. | .bank _ => isTrue trivial

/-- What the callback of an accepted password leads to. -/
theorem mem_accepted {n : ℕ} {env : Env} (hok : NoMagicSender E s (.callReply n env)) {c : Call}
    {component : String} {qrid : Js.JsVal} {args : NormalArgs} {st : Option Student} {a : Act}
    (hc : s.calls[n]? = some c) (hp : c.phase = .replied (some (.student st)))
    (hq : c.query = .student component qrid (.transaction_normal args))
    (ha : a ∈ (transaction_normal_cb E env c.client args st).acts) :
    (∃ client m, a = .answer client m) ∨ ∃ st' t, st = some st' ∧ t.sender_qrid = args.sender ∧
      t.spawn_money = false ∧ passes (check_password E st' args.sender_password) = true ∧
      a = .query { c.client with auth := some st'._id } (.student "stdb.getByQridLean"
        (some (.str env.cfg.taxinc_qrid)) (.transaction_taxinc t)) := by
  rcases mem_transaction_normal_cb ha with ⟨m, rfl⟩ | ⟨st', rfl, hpw, ha⟩
  · exact .inl ⟨_, _, rfl⟩
  · have hpasses := passes_eq_true.mpr hpw
    obtain ⟨spawn, destroy, hspawn, -, ⟨e, -, rfl⟩ | ⟨given, hgiven, rfl⟩⟩ := mem_transaction ha
    · exact .inl ⟨_, _, rfl⟩
    · refine .inr ⟨st', _, rfl, rfl, ?_, hpasses, rfl⟩
      have hmagic : args.magic env.cfg = false :=
        hok c hc (args, st') (by simp only [Call.accepts, hq, hp, hpasses, if_true, Option.mem_some])
      simpa [NormalArgs.magic, hgiven, hspawn, Except.isOk, Except.toBool, passes] using hmagic

/-- The callbacks of an ordinary query are ordinary. -/
theorem ordinary_onReply {n : ℕ} {env : Env} (hok : NoMagicSender E s (.callReply n env)) {c : Call}
    {r : Reply} {a : Act} (hc : s.calls[n]? = some c) (hp : c.phase = .replied (some r))
    (hq : c.query.spawns = false) (ha : a ∈ (onReply E env c.client c.query r).acts) :
    a.Ordinary := by
  cases hm : c.query.moves with
  | false => exact ((plain_onReply E env c.client hm r).acts a ha).2.ordinary
  | true =>
      obtain ⟨component, qrid, cb, st, hquery, rfl, ha⟩ := mem_onReply_moves _ _ _ hm ha
      rw [hquery] at hq hm
      cases cb with
      | transaction_normal args =>
          rcases mem_accepted hok hc hp hquery ha with ⟨_, m, rfl⟩ | ⟨st', t, -, -, hspawn, -, rfl⟩
          · trivial
          · exact hspawn
      | transaction_taxinc t =>
          rcases mem_transaction_taxinc_cb ha with ⟨m, rfl⟩ | ⟨taxinc, -, ⟨hs, -⟩ | ⟨-, rfl⟩⟩
          · trivial
          · cases hq.symm.trans hs
          · rfl
      | transaction_sender t taxinc =>
          rcases mem_transaction_sender_cb ha with ⟨m, rfl⟩ | ⟨st', -, ha⟩
          · trivial
          · exact ordinary_onSender ha
      | transaction_recipient t taxinc sender =>
          cases sender with
          | magic_account => cases hq
          | account st' =>
              rcases mem_transaction_recipient_cb ha with ⟨m, rfl⟩ | ⟨st'', -, ha⟩
              · trivial
              · exact ordinary_onRecipient ha
      | _ => cases hm

theorem minted_prepare_action {env : Env} {client : Client} {name post : String} {a : Act}
    (h : a ∈ (prepare_action E K env client name post).acts) : Minted E K ⟨name, post⟩ a := by
  rcases mem_prepare_action h with ⟨m, -, rfl⟩ | ⟨payload, rfl⟩ | ⟨b, payload, hd, hb⟩
  · exact .inl trivial
  · exact .inl trivial
  · by_cases hm : b.master
    · exact .inr ⟨b, hm, hd⟩
    · exact .inl (ordinary_run hm hb)

theorem minted_step (h : Traced (Minted E K) L s) {e : Event} (hok : NoMagicSender E s e)
    (hs : step E K s e = some s') : Traced (Minted E K) L s' := by
  refine h.step (fun w env name post _ a ha => minted_prepare_action ha) ?_ hs
  intro n env c r q he hc hp _ hq a ha
  subst he
  exact hq.imp_left fun hq => ordinary_onReply hok hc hp hq ha

/-- In every run in which nobody is accepted under the name of the magic
account, an entry without a sender account was in the ledger from the start, or
a request with the master certificate has written it. -/
theorem spawned_by_master {S : Students}
    (run : Run (step E K) (NoMagicSender E) (State.init S L) s) :
    ∀ b ∈ s.bank.transactions, b.sender.reference = none → b ∈ L ∨
      ∃ c ∈ s.bank.writes, c.phase.outcome = some true ∧ c.entry.cast = some b ∧
        ∃ q, s.received[c.answer.req]? = some q ∧ Master E K q := by
  have h : Traced (Minted E K) L s :=
    run.invariant (Traced.init S L) fun _ _ _ ih hok hs => minted_step ih hok hs
  intro b hb hnone
  refine (h.bank.ledger b hb).imp_right ?_
  rintro ⟨c, hc, hout, hcast⟩
  refine ⟨c, hc, hout, hcast, ?_⟩
  rcases h.bank.written hc with ⟨sender, q, hq, hord | hmaster⟩ | ⟨q, hq, hord | hmaster⟩
  · -- an intent has a sender
    have hsender : c.entry.sender.reference = some sender := hord
    rw [← (Entry.cast_eq_some hcast).1, hnone] at hsender
    cases hsender
  · exact ⟨q, hq, hmaster⟩
  · exact hord.elim
  · exact ⟨q, hq, hmaster⟩

section Sample

/-- The tax account. -/
def taxAccount (id : ObjectId) : Student :=
  { someStudent id with qrid := .str Config.defaults.taxinc_qrid }

/-- Queries that spawn money: one with the master certificate, and two that
register the magic account as a citizen and pay from it. -/
def spawnKeys : Keys := .simple [
  ("spawn", "\x7b\"cert\":\"master_hash.\",\"payload\":\x7b\"recipient\":\"1\",\"amount\":10\x7d\x7d"),
  ("register", "\x7b\"cert\":\"registration_hash.\",\"payload\":\x7b\"qrid\":\"Zentralbank\"," ++
    "\"birthyear\":\"1970\",\"birthmonth\":\"1\",\"birthday\":\"1\"," ++
    "\"sclass\":\"citizen\",\"subclass\":\"\",\"password\":\"pw\"\x7d\x7d"),
  ("pay", "\x7b\"payload\":\x7b\"sender\":\"Zentralbank\",\"recipient\":\"1\"," ++
    "\"sender_password\":\"pw\",\"amount_received\":10\x7d\x7d")]

/-- The lookups of the tax account and the recipient from call `n` on, and the
write. -/
def spawnLookups (n : ℕ) : List Event :=
  [.callDb n (.student (some (taxAccount 2))), .callReply n .start,
    .callDb (n + 1) (.student (some (someStudent 1))), .callReply (n + 1) .start,
    .bank (.writeDb 0 true)]

/-- Money is spawned with the master certificate. -/
def spawnEvents : List Event :=
  .request 0 .start "spawn_money" (bodyOf "spawn") :: spawnLookups 0

/-- The record of the magic account. -/
def magicStudent : Student where
  _id := 3
  qrid := .str "Zentralbank"
  firstname := none
  lastname := none
  picname := none
  country := none
  birth := some 0
  type := some "citizen"
  special_name := none
  appear := []
  pwdhash := some "sha256:pwsalt"
  pwdsalt := some "salt"

/-- The magic account is registered and pays. -/
def magicEvents : List Event :=
  [.request 0 .start "register_student" (bodyOf "register"), .callDb 0 (.student none),
    .callReply 0 .start, .callDb 1 (.added magicStudent), .callReply 1 .start,
    .request 0 .start "transaction" (bodyOf "pay"), .callDb 2 (.student (some magicStudent)),
    .callReply 2 .start] ++ spawnLookups 3

theorem spawned_by_master_spawn : ∃ s, Run (step Ext.simple spawnKeys) (NoMagicSender Ext.simple)
    (State.init [someStudent 1, taxAccount 2] []) s ∧
      s.bank.transactions.map (·.sender.reference) = [none] ∧
      ∀ b ∈ s.bank.transactions, b.sender.reference = none → b ∈ ([] : Ledger) ∨
        ∃ c ∈ s.bank.writes, c.phase.outcome = some true ∧ c.entry.cast = some b ∧
          ∃ q, s.received[c.answer.req]? = some q ∧ Master Ext.simple spawnKeys q := by
  have hexec : (exec (step Ext.simple spawnKeys) (NoMagicSender Ext.simple)
      (State.init [someStudent 1, taxAccount 2] []) spawnEvents).map
        (·.bank.transactions.map (·.sender.reference)) = some [none] := by decide +kernel
  obtain ⟨s, run, h⟩ := exists_run_of_exec spawnEvents hexec
  exact ⟨s, run, h, spawned_by_master run⟩

/-- The magic account is registered as a citizen, and a payment from it spawns
money. -/
theorem registered_magic_account_spawns : ¬ ∀ (E : Ext) (K : Keys) (S : Students) (L : Ledger)
    (s : State), Runs.AnyRun (step E K) (State.init S L) s →
      ∀ b ∈ s.bank.transactions, b.sender.reference = none → b ∈ L ∨
        ∃ c ∈ s.bank.writes, c.phase.outcome = some true ∧ c.entry.cast = some b ∧
          ∃ q, s.received[c.answer.req]? = some q ∧ Master E K q := by
  intro claim
  have hexec : (exec (step Ext.simple spawnKeys) (fun _ _ => True)
      (State.init [someStudent 1, taxAccount 2] []) magicEvents).map
        (fun s => (s.bank.transactions.map (·.sender.reference), s.received.map (·.name))) =
          some ([none], ["register_student", "transaction"]) := by decide +kernel
  obtain ⟨s, run, h⟩ := exists_run_of_exec magicEvents hexec
  obtain ⟨hledger, hnames⟩ := Prod.mk.inj h
  obtain ⟨b, hb, hnone⟩ := List.mem_map.mp (hledger ▸ List.mem_singleton_self none)
  rcases claim _ _ _ _ s run b hb hnone with hL | ⟨c, -, -, -, q, hq, a, hmaster, hd, -⟩
  · cases hL
  · have hname : q.name ∈ s.received.map Received.name :=
      List.mem_map_of_mem (List.mem_of_getElem? hq)
    rw [hnames] at hname
    simp only [List.mem_cons, List.not_mem_nil, or_false] at hname
    rw [ActionName.master] at hmaster
    rcases hname with hname | hname <;> rw [hname] at hd <;> cases hd <;>
      exact absurd hmaster (by decide)

end Sample

end Server

end SchuleAlsStaat
