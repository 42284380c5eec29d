import SchuleAlsStaat.Server.Spawned

/-!
# The debited account

`transaction_normal` looks up the sender to check the password, and
`transaction` looks it up again, after the tax account.  In between the lookup
*watches* the record whose password was accepted.  The debited account is this
record as long as no edit, deletion or registration makes the lookup of a
watching request find another one: `Undisturbed`.
-/

namespace SchuleAlsStaat

open Js (JsVal)

/-- The callback belongs to a transaction of the account that the client has
authenticated as. -/
def StudentCb.Authentic (client : Client) (qrid : JsVal) : StudentCb → Prop
  | .transaction_normal args => qrid = args.sender
  | .transaction_taxinc t => t.spawn_money = false ∧ client.auth ≠ none
  | .transaction_sender _ _ => client.auth ≠ none
  | .transaction_recipient _ _ sender => ∃ st, sender = .account st ∧ client.auth = some st._id
  | _ => True

/-- The act debits no account but the one that the client has authenticated
as. -/
def Act.Authentic : Act → Prop
  | .query client (.student _ qrid cb) => cb.Authentic client qrid
  | .intent client _ e => ∃ id, client.auth = some id ∧ e.sender.reference = some id
  | .spawn _ _ => False
  | _ => True

theorem Act.Plain.authentic {a : Act} (h : a.Plain) : a.Authentic := by
  cases a with
  | query client q =>
      cases q with
      | student component qrid cb => cases cb <;> trivial
      | _ => trivial
  | intent | spawn => exact h.elim
  | _ => trivial

namespace Server

open Runs (Run exec exists_run_of_exec)
open Calls (mem_of_getElem?)

variable {E : Ext} {K : Keys} {L : Ledger} {s s' : State}

/-! ## Lookups that watch a record -/

/-- The lookup of the sender that is still to come, and the record that it has
to find. -/
def Call.watches (E : Ext) (c : Call) : Option (JsVal × ObjectId) :=
  match c.query, c.phase with
  | .student _ _ (.transaction_normal _), _ => (c.accepts E).map fun p => (p.1.sender, p.2._id)
  | .student _ _ (.transaction_taxinc t), .sent => c.client.auth.map (t.sender_qrid, ·)
  | .student _ _ (.transaction_taxinc t), .replied _ => c.client.auth.map (t.sender_qrid, ·)
  | .student _ qrid (.transaction_sender _ _), .sent => c.client.auth.map (qrid, ·)
  | _, _ => none

/-- The lookup finds no other record. -/
def Finds (E : Ext) (S : Students) (p : JsVal × ObjectId) : Prop :=
  ∀ st ∈ S.findOne E p.1, st._id = p.2

instance (S : Students) (p : JsVal × ObjectId) : Decidable (Finds E S p) := by
  unfold Finds
  infer_instance

/-- No change of the students makes a lookup that watches a record find another
one. -/
def Undisturbed (E : Ext) (s : State) : Event → Prop
  | .callDb n r => ∀ c ∈ s.calls[n]?, ∀ t ∈ execute E s c.query r,
      ∀ d ∈ s.calls, ∀ p ∈ d.watches E, Finds E t.students p
  | _ => True

instance (s : State) (e : Event) : Decidable (Undisturbed E s e) :=
  match e with
  | .callDb .. => inferInstanceAs (Decidable (∀ _ ∈ _, _))
  | .request .. | .removeDb .. | .callFail _ | .callReply .. | .sumDb .. | .sumReply ..
  | .pollTimeout _ | .handleDbPollAnswer .. | .bank _ => isTrue trivial

/-! ## Requests and callbacks -/

/-- A request for a normal transaction, with or without taxes. -/
def Received.normal (q : Received) : Prop :=
  q.name = "transaction" ∨ q.name = "transaction_taxfree"

/-- A normal transaction debits the authenticated account. -/
def Debits (q : Received) (a : Act) : Prop := q.normal → a.Authentic

/-- What an act of a normal transaction watches when it is issued. -/
def watching (E : Ext) (w : WorkerId) : Act → Option (JsVal × ObjectId)
  | .query client q => (⟨w, client, q, .sent⟩ : Call).watches E
  | _ => none

theorem Act.Plain.watching {a : Act} (h : a.Plain) (w : WorkerId) : watching E w a = none := by
  cases a with
  | query client q =>
      cases q with
      | student component qrid cb => cases cb <;> first | rfl | cases h
      | _ => rfl
  | _ => rfl

/-- A request for a normal transaction starts with its password lookup, which
does not watch a record yet. -/
theorem authentic_prepare_action {env : Env} {client : Client} {q : Received} {a : Act}
    (hq : q.normal) (h : a ∈ (prepare_action E K env client q.name q.post).acts) (w : WorkerId) :
    a.Authentic ∧ watching E w a = none := by
  rcases mem_prepare_action h with ⟨m, -, rfl⟩ | ⟨payload, rfl⟩ | ⟨b, payload, ⟨hb, -⟩, h⟩
  · exact ⟨trivial, rfl⟩
  · exact ⟨trivial, rfl⟩
  · have normal : ∀ tax, a ∈ (transaction_normal env client payload tax).acts →
        a.Authentic ∧ watching E w a = none := by
      intro tax h
      obtain ⟨args, -, h⟩ := Js.JS.mem_lift_bind_acts.mp h
      rcases mem_normal h with ⟨m, rfl⟩ | ⟨-, -, rfl⟩
      · exact ⟨trivial, rfl⟩
      · exact ⟨rfl, rfl⟩
    rcases hq with hq | hq <;> rw [hq] at hb <;> cases hb
    · exact normal _ h
    · exact normal _ h

/-- A callback of the authenticated client goes on with its account, and
watches only what the call has watched. -/
theorem authentic_onReply {n : ℕ} {env : Env} (hok : NoMagicSender E s (.callReply n env)) {c : Call}
    {r : Reply} {a : Act} (hc : s.calls[n]? = some c) (hp : c.phase = .replied (some r))
    (hq : (Act.query c.client c.query).Authentic)
    (hfound : ∀ component qrid t taxinc st, c.query = .student component qrid
      (.transaction_sender t taxinc) → r = .student (some st) → c.client.auth = some st._id)
    (ha : a ∈ (onReply E env c.client c.query r).acts) (w : WorkerId) :
    a.Authentic ∧ ∀ p ∈ watching E w a, p ∈ c.watches E := by
  have unwatched : a.Authentic → watching E w a = none →
      a.Authentic ∧ ∀ p ∈ watching E w a, p ∈ c.watches E := by
    intro hauth hnone
    rw [hnone]
    exact ⟨hauth, fun p hp => by cases hp⟩
  cases hm : c.query.moves with
  | false =>
      have hplain := ((plain_onReply E env c.client hm r).acts a ha).2
      exact unwatched hplain.authentic (Act.Plain.watching hplain w)
  | true =>
      obtain ⟨component, qrid, cb, st, hquery, rfl, ha⟩ := mem_onReply_moves _ _ _ hm ha
      have hauthentic : cb.Authentic c.client qrid := by rwa [hquery] at hq
      rw [hquery] at hm
      cases cb with
      | transaction_normal args =>
          rcases mem_accepted hok hc hp hquery ha with
            ⟨_, m, rfl⟩ | ⟨st', t, rfl, hsender, hspawn, hpw, rfl⟩
          · exact unwatched trivial rfl
          · refine ⟨⟨hspawn, by simp⟩, fun p hw => ?_⟩
            cases hw
            simp [Call.watches, Call.accepts, hquery, hp, hpw, hsender]
      | transaction_taxinc t =>
          rcases mem_transaction_taxinc_cb ha with ⟨m, rfl⟩ | ⟨taxinc, -, ⟨hs, -⟩ | ⟨-, rfl⟩⟩
          · exact unwatched trivial rfl
          · cases hauthentic.1.symm.trans hs
          · refine ⟨hauthentic.2, fun p hw => ?_⟩
            simp only [Call.watches, hquery, hp]
            exact hw
      | transaction_sender t taxinc =>
          rcases mem_transaction_sender_cb ha with ⟨m, rfl⟩ | ⟨st', rfl, ha⟩
          · exact unwatched trivial rfl
          · have hauth : c.client.auth = some st'._id := hfound _ _ _ _ _ hquery rfl
            rcases mem_onSender ha with ⟨-, ha⟩ | ⟨-, rfl⟩
            · obtain ⟨_, -, ⟨hs, -⟩ | ⟨_, hs, rfl⟩⟩ := mem_onRecipient ha
              · cases hs
              · cases hs
                exact unwatched ⟨_, hauth, rfl⟩ rfl
            · exact unwatched ⟨st', rfl, hauth⟩ rfl
      | transaction_recipient t taxinc sender =>
          obtain ⟨st', rfl, hauth⟩ := hauthentic
          rcases mem_transaction_recipient_cb ha with ⟨m, rfl⟩ | ⟨st'', -, ha⟩
          · exact unwatched trivial rfl
          · obtain ⟨_, -, ⟨hs, -⟩ | ⟨_, hs, rfl⟩⟩ := mem_onRecipient ha
            · cases hs
            · cases hs
              exact unwatched ⟨_, hauth, rfl⟩ rfl
      | _ => cases hm

/-! ## The invariant -/

/-- A call is true to the record that it watches: the lookup finds no other
one, and the reply to the lookup is this record. -/
structure Call.Faithful (E : Ext) (S : Students) (c : Call) : Prop where
  finds : ∀ p ∈ c.watches E, Finds E S p
  found : ∀ component qrid t taxinc st, c.query = .student component qrid
    (.transaction_sender t taxinc) → c.phase = .replied (some (.student (some st))) →
      c.client.auth = some st._id

/-- A request for a normal transaction has arrived under this number. -/
def State.normal (s : State) (r : ReqId) : Prop :=
  ∃ q, s.received[r]? = some q ∧ q.normal

/-- Normal transactions debit the authenticated account. -/
structure Authenticated (E : Ext) (L : Ledger) (s : State) : Prop where
  traced : Traced Debits L s
  calls : ∀ c ∈ s.calls, s.normal c.client.req → c.Faithful E s.students

namespace Call.Faithful

variable {S : Students} {c : Call}

/-- A call that waits to be executed and watches nothing new. -/
theorem sent (w : WorkerId) {client : Client} {q : Query}
    (h : ∀ p ∈ watching E w (.query client q), Finds E S p) :
    Call.Faithful E S ⟨w, client, q, .sent⟩ :=
  ⟨h, fun _ _ _ _ _ _ hp => by cases hp⟩

/-- A call whose callback has run watches nothing. -/
theorem done (v : Option Reply) : Call.Faithful E S { c with phase := .done v } := by
  refine ⟨fun p hp => ?_, fun _ _ _ _ _ _ hp => by cases hp⟩
  obtain ⟨w, client, query, phase⟩ := c
  cases query with
  | student component qrid cb => cases cb <;> cases hp
  | _ => cases hp

/-- A call that failed watches what it watched before. -/
theorem failed (h : c.Faithful E S) (hc : c.phase = .sent) :
    Call.Faithful E S { c with phase := .replied none } := by
  refine ⟨fun p hp => h.finds p ?_, fun _ _ _ _ _ _ hp => by cases hp⟩
  obtain ⟨w, client, query, phase⟩ := c
  cases hc
  cases query with
  | student component qrid cb =>
      cases cb with
      | transaction_taxinc t => exact hp
      | _ => cases hp
  | _ => cases hp

/-- A call that is executed.  `T` are the students after it. -/
theorem replied (h : c.Faithful E s.students) (hc : c.phase = .sent) {r : Reply}
    (hs : execute E s c.query r = some s') (hq : (Act.query c.client c.query).Authentic)
    (hok : ∀ p ∈ c.watches E, Finds E s'.students p) :
    Call.Faithful E s'.students { c with phase := .replied (some r) } := by
  obtain ⟨w, client, query, phase⟩ := c
  cases hc
  -- a lookup finds what it replies
  have lookup : ∀ component qrid cb st, query = .student component qrid cb →
      r = .student (some st) → s'.students.findOne E qrid = some st := by
    rintro component qrid cb st rfl rfl
    simp only [execute] at hs
    split at hs
    next hfind =>
      cases hs
      exact hfind
    next => cases hs
  constructor
  · intro p hp
    cases query with
    | student component qrid cb =>
        cases cb with
        | transaction_normal args =>
            cases r with
            | student st =>
                cases st with
                | none => cases hp
                | some st =>
                    simp only [Call.watches, Call.accepts] at hp
                    split at hp
                    next =>
                      cases hp
                      intro st' hst'
                      change st' ∈ s'.students.findOne E args.sender at hst'
                      have hsender : qrid = args.sender := hq
                      rw [← hsender, lookup _ _ _ _ rfl rfl] at hst'
                      cases hst'
                      rfl
                    next => cases hp
            | _ => cases hp
        | transaction_taxinc t => exact hok p hp
        | _ => cases hp
    | _ => cases hp
  · rintro component qrid t taxinc st rfl hp
    cases hp
    have hfind := lookup _ _ _ _ rfl rfl
    obtain ⟨id, hid⟩ := Option.ne_none_iff_exists'.mp (show client.auth ≠ none from hq)
    have : st._id = id := hok (qrid, id) (by simp [Call.watches, hid]) st hfind
    rw [this]
    exact hid

end Call.Faithful

namespace Authenticated

theorem init (S : Students) (L : Ledger) : Authenticated E L (State.init S L) :=
  ⟨.init S L, by simp [State.init]⟩

/-- A request of a call that was there before is the same request after. -/
theorem normal_of_concat (h : Authenticated E L s) {c : Call} (hc : c ∈ s.calls) {q : Received}
    (hn : State.normal { s with received := s.received ++ [q] } c.client.req) :
    s.normal c.client.req := by
  obtain ⟨q', hq', -⟩ := h.traced.calls c hc
  obtain ⟨q'', hq'', hn⟩ := hn
  have hnew : (s.received ++ [q])[c.client.req]? = some q' :=
    Calls.getElem?_append_of_some hq' [q]
  cases hnew.symm.trans hq''
  exact ⟨q', hq', hn⟩

/-- A call whose callback has run watches nothing. -/
theorem setDone (h : Authenticated E L s) (n : ℕ) (c : Call) (v : Option Reply) :
    ∀ d ∈ s.calls.set n { c with phase := .done v }, s.normal d.client.req →
      d.Faithful E s.students := by
  intro d hd hn
  rcases List.mem_or_eq_of_mem_set hd with hd | rfl
  · exact h.calls d hd hn
  · exact .done v

/-- No step debits another account, under the two conditions. -/
theorem step (h : Authenticated E L s) {e : Event} (hmagic : NoMagicSender E s e)
    (hok : Undisturbed E s e) (hs : Server.step E K s e = some s') : Authenticated E L s' := by
  have reply : ∀ n env c r q, e = .callReply n env → s.calls[n]? = some c →
      c.phase = .replied (some r) → s.received[c.client.req]? = some q →
      Debits q (.query c.client c.query) → q.normal →
      ∀ a ∈ (onReply E env c.client c.query r).acts,
        a.Authentic ∧ ∀ p ∈ watching E c.worker a, p ∈ c.watches E := by
    rintro n env c r q rfl hc hp hq hdebits hn a ha
    have hfaithful := h.calls c (mem_of_getElem? hc) ⟨q, hq, hn⟩
    refine authentic_onReply hmagic hc hp (hdebits hn) ?_ ha c.worker
    rintro component qrid t taxinc st hquery rfl
    exact hfaithful.found component qrid t taxinc st hquery hp
  have htraced : Traced Debits L s' := by
    refine h.traced.step ?_ ?_ hs
    · intro w env name post _ a ha hn
      exact (authentic_prepare_action (q := ⟨name, post⟩) hn ha w).1
    · intro n env c r q he hc hp hq hdebits a ha hn
      exact (reply n env c r q he hc hp hq hdebits hn a ha).1
  refine ⟨htraced, ?_⟩
  cases step_cases hs with
  | request w env name post =>
      obtain ⟨hreceived, hstudents, hcalls⟩ := State.performAll_frame w env.now
        (prepare_action E K env ⟨s.received.length, none⟩ name post).acts
        { s with received := s.received ++ [⟨name, post⟩] }
      intro c hc hn
      rw [hstudents]
      rw [State.normal, hreceived] at hn
      rcases hcalls c hc with hc | ⟨client, q, hq, rfl⟩
      · exact h.calls c hc (h.normal_of_concat hc hn)
      · have hreq : client.req = s.received.length := for_prepare_action hq
        obtain ⟨q', hq', hn⟩ := hn
        simp only [hreq, List.getElem?_concat_length, Option.some.injEq] at hq'
        subst hq'
        refine .sent w fun p hp => ?_
        rw [(authentic_prepare_action (q := ⟨name, post⟩) hn hq w).2] at hp
        cases hp
  | @callDb n r c S m hc hp hx =>
      have undisturbed : ∀ d ∈ s.calls, ∀ p ∈ d.watches E, Finds E S p := hok c hc _ hx
      have executed : s.normal c.client.req →
          Call.Faithful E S { c with phase := .replied (some r) } := by
        rintro ⟨q, hq, hn⟩
        have hmem := mem_of_getElem? hc
        obtain ⟨q', hq', hdebits⟩ := h.traced.calls c hmem
        cases hq.symm.trans hq'
        exact (h.calls c hmem ⟨q, hq, hn⟩).replied hp hx (hdebits hn) (undisturbed c hmem)
      intro d hd hn
      rcases List.mem_or_eq_of_mem_set hd with hd | rfl
      · exact ⟨undisturbed d hd, (h.calls d hd hn).found⟩
      · exact executed hn
  | @removeDb n k c id bank hc hp hquery hb =>
      intro d hd hn
      rcases List.mem_or_eq_of_mem_set hd with hd | rfl
      · exact h.calls d hd hn
      · refine ⟨fun p hp => ?_, fun _ _ _ _ _ hq _ => ?_⟩
        · simp [Call.watches, hquery] at hp
        · cases hquery.symm.trans hq
  | @callFail n c hc hp =>
      intro d hd hn
      rcases List.mem_or_eq_of_mem_set hd with hd | rfl
      · exact h.calls d hd hn
      · exact (h.calls c (mem_of_getElem? hc) hn).failed hp
  | @callReply n c r env hc hp =>
      obtain ⟨hreceived, hstudents, hcalls⟩ := State.performAll_frame c.worker env.now
        (onReply E env c.client c.query r).acts
        { s with calls := s.calls.set n { c with phase := .done (some r) } }
      intro d hd hn
      rw [hstudents]
      rw [State.normal, hreceived] at hn
      rcases hcalls d hd with hd | ⟨client, q, hq, rfl⟩
      · exact h.setDone n c (some r) d hd hn
      · have hreq : client.req = c.client.req := (serves_onReply E env c.client c.query r).acts _ hq
        obtain ⟨q', hq', hdebits⟩ := h.traced.calls c (mem_of_getElem? hc)
        obtain ⟨q'', hq'', hn'⟩ := hn
        rw [hreq] at hq''
        cases hq'.symm.trans hq''
        have hfaithful := h.calls c (mem_of_getElem? hc) ⟨q', hq', hn'⟩
        exact .sent c.worker fun p hw => hfaithful.finds p
          ((reply n env c r q' rfl hc hp hq' hdebits hn' _ hq).2 p hw)
  | @callError n c env hc hp hcb => exact h.setDone n c none
  | @callDropped n c env hc hp hcb => exact h.setDone n c none
  | _ => exact h.calls

end Authenticated

/-! ## Runs -/

/-- In every run in which no lookup that watches a record is disturbed and
nobody is accepted under the name of the magic account, a normal transaction
debits the record whose password was checked. -/
theorem debits_authenticated {S : Students}
    (run : Run (Server.step E K) (fun s e => NoMagicSender E s e ∧ Undisturbed E s e)
      (State.init S L) s) :
    ∀ c ∈ s.bank.writes, ∀ q, s.received[c.answer.req]? = some q → q.normal →
      ∃ id, c.answer.auth = some id ∧ c.entry.sender.reference = some id := by
  have h : Authenticated E L s :=
    run.invariant (.init S L) fun _ _ _ ih hok hs => ih.step hok.1 hok.2 hs
  intro c hc q hq hn
  rcases h.traced.bank.written hc with ⟨sender, q', hq', hdebits⟩ | ⟨q', hq', hdebits⟩
  · cases hq.symm.trans hq'
    exact hdebits hn
  · cases hq.symm.trans hq'
    exact (hdebits hn).elim

section Sample

open Pending (sumEvents endowment)

/-- The queries of a payment from `2` to `3`, of one from `1` to `3`, and of two
edits that give the QR-ID `2` to another citizen. -/
def editKeys : Keys := .simple [
  ("pay", "\x7b\"payload\":\x7b\"sender\":\"2\",\"recipient\":\"3\"," ++
    "\"sender_password\":\"pw\",\"amount_received\":10\x7d\x7d"),
  ("payOwn", "\x7b\"payload\":\x7b\"sender\":\"1\",\"recipient\":\"3\"," ++
    "\"sender_password\":\"pw\",\"amount_received\":10\x7d\x7d"),
  ("away", "\x7b\"cert\":\"admin_hash.\",\"payload\":\x7b\"qrid\":\"2\",\"prop\":\"qrid\"," ++
    "\"value\":\"other\"\x7d\x7d"),
  ("take", "\x7b\"cert\":\"admin_hash.\",\"payload\":\x7b\"qrid\":\"1\",\"prop\":\"qrid\"," ++
    "\"value\":\"2\"\x7d\x7d")]

/-- Three citizens and the tax account. -/
def citizens : Students := [someStudent 1, someStudent 2, someStudent 3, taxAccount 4]

/-- A lookup of a student and its callback. -/
def lookup (n : ℕ) (st : Student) : List Event :=
  [.callDb n (.student (some st)), .callReply n .start]

/-- The only intent is saved, granted and written. -/
def writeIntent : List Event :=
  ([.intentDb 0 true, .intentReply 0, .tick 0, .checkDb 0 (some 0), .checkReply 0] ++
    sumEvents 0 ++ [.writeDb 0 true] : List Pending.Event).map .bank

/-- A payment of the citizen with the money. -/
def paymentEvents : List Event :=
  .request 0 .start "transaction" (bodyOf "payOwn") :: lookup 0 (someStudent 1) ++
    lookup 1 (taxAccount 4) ++ lookup 2 (someStudent 1) ++ lookup 3 (someStudent 3) ++ writeIntent

/-- After the password of citizen `2` is checked, the QR-ID goes to citizen `1`. -/
def editEvents : List Event :=
  .request 0 .start "transaction" (bodyOf "pay") :: lookup 0 (someStudent 2) ++
    .request 0 .start "profile_edit" (bodyOf "away") :: lookup 2 (someStudent 2) ++
    .callDb 3 .done ::
    .request 0 .start "profile_edit" (bodyOf "take") :: lookup 4 (someStudent 1) ++
    .callDb 5 .done ::
    lookup 1 (taxAccount 4) ++ lookup 6 { someStudent 1 with qrid := .str "2" } ++
    lookup 7 (someStudent 3) ++ writeIntent

/-- The same payment; after its password is checked, another citizen gets a new
QR-ID. -/
def editedPayment : List Event :=
  .request 0 .start "transaction" (bodyOf "payOwn") :: lookup 0 (someStudent 1) ++
    .request 1 .start "profile_edit" (bodyOf "away") :: lookup 2 (someStudent 2) ++
    .callDb 3 .done ::
    lookup 1 (taxAccount 4) ++ lookup 4 (someStudent 1) ++ lookup 5 (someStudent 3) ++ writeIntent

theorem debits_authenticated_payment : ∃ s, Run (Server.step Ext.simple editKeys)
    (fun s e => NoMagicSender Ext.simple s e ∧ Undisturbed Ext.simple s e)
    (State.init citizens endowment) s ∧
      (s.bank.writes.map (fun c => (c.answer, c.entry.sender.reference)), s.students.map (·.qrid)) =
        ([(⟨0, some 1⟩, some 1)], [.str "1", .str "other", .str "3", .str "taxinc"]) ∧
      ∀ c ∈ s.bank.writes, ∀ q, s.received[c.answer.req]? = some q → q.normal →
        ∃ id, c.answer.auth = some id ∧ c.entry.sender.reference = some id := by
  have hexec : (exec (Server.step Ext.simple editKeys)
      (fun s e => NoMagicSender Ext.simple s e ∧ Undisturbed Ext.simple s e)
      (State.init citizens endowment) editedPayment).map
        (fun s => (s.bank.writes.map (fun c => (c.answer, c.entry.sender.reference)),
          s.students.map (·.qrid))) =
      some ([(⟨0, some 1⟩, some 1)], [.str "1", .str "other", .str "3", .str "taxinc"]) := by
    decide +kernel
  obtain ⟨s, run, h⟩ := exists_run_of_exec editedPayment hexec
  exact ⟨s, run, h, debits_authenticated run⟩

/-- Two edits between the lookups of the sender debit another account. -/
theorem edited_qrid_debits_another : ¬ ∀ (E : Ext) (K : Keys) (S : Students) (L : Ledger)
    (s : State), Runs.AnyRun (Server.step E K) (State.init S L) s →
      ∀ c ∈ s.bank.writes, ∀ q, s.received[c.answer.req]? = some q → q.normal →
        ∃ id, c.answer.auth = some id ∧ c.entry.sender.reference = some id := by
  intro claim
  have hexec : (exec (Server.step Ext.simple editKeys) (fun _ _ => True)
      (State.init citizens endowment) editEvents).map
        (fun s => (s.bank.writes.map (fun c => (c.answer, c.entry.sender.reference)),
          s.received[0]?)) =
        some ([(⟨0, some 2⟩, some 1)], some ⟨"transaction", bodyOf "pay"⟩) := by decide +kernel
  obtain ⟨s, run, h⟩ := exists_run_of_exec editEvents hexec
  obtain ⟨hwrites, hreceived⟩ := Prod.mk.inj h
  obtain ⟨c, hc, heq⟩ := List.mem_map.mp (hwrites ▸ List.mem_singleton_self _)
  obtain ⟨hanswer, hreference⟩ := Prod.mk.inj heq
  obtain ⟨id, hauth, hsender⟩ := claim _ _ _ _ s run c hc ⟨"transaction", bodyOf "pay"⟩
    (by rw [hanswer]; exact hreceived) (.inl rfl)
  rw [hanswer] at hauth
  rw [hreference] at hsender
  cases hauth
  cases hsender

end Sample

end Server

end SchuleAlsStaat
