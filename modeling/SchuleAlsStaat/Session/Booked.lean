import Mathlib.Data.List.Nodup
import SchuleAlsStaat.Server.Provenance
import SchuleAlsStaat.Session.Model

/-!
# What the page shows and what is booked

When the page shows that a transaction has succeeded, then the ledger got one entry for it,
and the entry is the one that the confirm window showed.  When the page shows any other
answer, then there is none: `booked_as_shown`.
-/

namespace SchuleAlsStaat

open Js (Exn Json JsVal Decimal)
open Runs (Run AnyRun recorded exec exists_run_of_exec_forall)
open Calls (mem_of_getElem?)

/-! ## The transactions of a page -/

namespace Payment

variable {toUpperCase : String → String} {page : Page} {store : Storage} {s t : State}

/-- The page sends at most one transaction at a time. -/
theorem transactions_step (h : Careful toUpperCase page store s) {e : Event}
    (he : Session.answersTransaction e = false) (hs : step toUpperCase page store s e = some t) :
    t.success = s.success ∧
      (t.transactions = s.transactions ∨
        ∃ r, r.outcome = none ∧ t.transactions = s.transactions ++ [r]) := by
  cases e with
  | fill inputs =>
      cases hs
      exact ⟨rfl, .inl rfl⟩
  | confirm =>
      obtain ⟨-, ht⟩ := Option.ite_none_right_eq_some.mp hs
      have hle : s.confirm ≤ 1 := by
        have := h.confirm
        omega
      obtain rfl | ⟨-, he | ho⟩ := State.dispatch_cases hle (Option.some.inj ht)
      · exact ⟨rfl, .inl rfl⟩
      · cases he
      · cases ho
        exact ⟨rfl, .inl rfl⟩
  | submit =>
      obtain ⟨-, ht⟩ := Option.ite_none_right_eq_some.mp hs
      have hle : s.confirm_submit ≤ 1 := by
        have := h.submit
        omega
      obtain rfl | ⟨-, hu⟩ := State.dispatch_cases hle (Option.some.inj ht)
      · exact ⟨rfl, .inl rfl⟩
      · rw [State.onSubmitClick] at hu
        split at hu
        · obtain he | ho := hu
          · cases he
            exact ⟨rfl, .inl rfl⟩
          · cases ho
        · obtain he | ho := hu
          · cases he
          · cases ho
            exact ⟨rfl, .inr ⟨_, rfl, rfl⟩⟩
  | back =>
      obtain ⟨-, ht⟩ := Option.ite_none_right_eq_some.mp hs
      cases ht
      split <;> exact ⟨rfl, .inl rfl⟩
  | ok =>
      obtain ⟨-, ht⟩ := Option.ite_none_left_eq_some.mp hs
      cases ht
      exact ⟨rfl, .inl rfl⟩
  | faded =>
      obtain ⟨-, ht⟩ := Option.ite_none_right_eq_some.mp hs
      cases ht
      exact ⟨rfl, .inl rfl⟩
  | identified n res status =>
      have identified : ∀ u : State, (u.onIdentified toUpperCase res).success = u.success ∧
          (u.onIdentified toUpperCase res).transactions = u.transactions := by
        intro u
        rw [State.onIdentified]
        split
        · exact ⟨rfl, rfl⟩
        · exact ⟨rfl, rfl⟩
        · split
          · exact ⟨rfl, rfl⟩
          · split
            · exact ⟨rfl, rfl⟩
            · simp only
              split <;> exact ⟨rfl, rfl⟩
      rw [step] at hs
      split at hs
      · cases hs
        split
        · exact (identified _).imp_right .inl
        · exact ⟨rfl, .inl rfl⟩
      · cases hs
  | transaction n res status => cases he

/-- An answer ends the transaction it is for. -/
theorem transaction_step {n : ℕ} {res : Json} {status : SendQuery.Flag}
    (hs : step toUpperCase page store s (.transaction n res status) = some t) :
    ∃ payload shown, s.transactions[n]? = some ⟨⟨payload, none⟩, shown⟩ ∧
      ((connectionError status = none ∧
          t.transactions = s.transactions.set n ⟨⟨payload, some (some res)⟩, shown⟩ ∧
          (t.success = true → s.success = true ∨ JsVal.looseEq (some res) "ok" = .ok true)) ∨
        (connectionError status ≠ none ∧
          t.transactions = s.transactions.set n ⟨⟨payload, some none⟩, shown⟩ ∧
          t.success = s.success)) := by
  rw [step] at hs
  split at hs
  · rename_i payload shown hn
    cases hs
    refine ⟨payload, shown, hn, ?_⟩
    split
    · rename_i hstatus
      refine .inl ⟨hstatus, ?_⟩
      rw [State.onTransaction]
      split
      · exact ⟨rfl, .inl⟩
      · exact ⟨rfl, .inl⟩
      · rename_i hok
        exact ⟨rfl, fun _ => .inr hok⟩
      · exact ⟨rfl, .inl⟩
      · exact ⟨rfl, .inl⟩
    · rename_i message hstatus
      exact .inr ⟨hstatus ▸ Option.some_ne_none message, rfl, rfl⟩
  · cases hs

end Payment

namespace Session

variable {E : Ext} {ch : Channel} {H : Seen} {toUpperCase : String → String} {page : Payment.Page}
  {store : Payment.Storage} {S : Students} {L : Ledger} {s s' : State}

/-! ## What the server reads -/

/-- The sides of a transaction with the account `qrid`. -/
def senderOf (page : Payment.Page) (store : Payment.Storage) (qrid : JsVal) : JsVal :=
  match page with
  | .send => store.qrid.map Json.reread
  | .receive => qrid.map Json.reread

def recipientOf (page : Payment.Page) (store : Payment.Storage) (qrid : JsVal) : JsVal :=
  match page with
  | .send => qrid.map Json.reread
  | .receive => store.qrid.map Json.reread

/-- The server reads the arguments that the page sends. -/
theorem read_transactionData (page : Payment.Page) (store : Payment.Storage) (qrid : JsVal)
    (a : Decimal) (comment password : String) (tax : JsVal) :
    let payload := Payment.State.transactionData page store qrid (some a) (some comment) password
    ∃ sender_password, NormalArgs.read (some payload.reread) tax =
      .ok ⟨senderOf page store qrid, recipientOf page store qrid, sender_password,
        some (.str comment), some (.num a.reread), jsFalse, tax⟩ := by
  obtain ⟨own, secret⟩ := store
  cases page <;> cases own <;> cases secret <;> cases qrid <;> exact ⟨_, rfl⟩

/-- The entry pays what the confirm window showed. -/
def PaysAsShown (H : Seen) (toUpperCase : String → String) (page : Payment.Page)
    (store : Payment.Storage) (asked : List Payment.Identify) (r : Payment.Submission)
    (e : Draft) : Prop :=
  ∃ q other a qrid, Payment.Shows toUpperCase asked q other a r.shown ∧
    other.prop "qrid" = .ok qrid ∧ e.amount_sent = .fin a.value ∧
    e.comment = some (some q.typed.comment) ∧
    ∃ (cfg : Config) (sender recipient : Party), H.config cfg ∧
      sender.Under H cfg.magic_account (senderOf page store qrid) ∧
      recipient.Under H cfg.magic_account (recipientOf page store qrid) ∧
      e.sender = sender.profile cfg.magic_account ∧
      e.recipient = recipient.profile cfg.magic_account

/-- An entry that is built from the payload of a transaction pays what was shown. -/
theorem paysAsShown {asked : List Payment.Identify} {r : Payment.Submission} {tax : JsVal}
    (hr : Payment.SentAsShown toUpperCase page store asked r) {rq : Request} {e : Draft}
    (hrq : (NormalArgs.read (some r.payload.reread) tax).map NormalArgs.request = .ok rq)
    (he : rq.Builds E H e) : PaysAsShown H toUpperCase page store asked r e := by
  obtain ⟨q, other, a, qrid, password, shows, hqrid, hpayload⟩ := hr
  obtain ⟨secret, hread⟩ := read_transactionData page store qrid a q.typed.comment password tax
  rw [hpayload, hread] at hrq
  cases hrq
  obtain ⟨t, taxinc, sender, recipient, percent, _, now, ht, -, -, hsender, hrecipient, -, rfl⟩ := he
  obtain ⟨cfg, hcfg, hmagic⟩ := ht.magic_account
  rw [hmagic] at hsender hrecipient
  have hpos : 0 < a.reread.value := by
    rw [Decimal.reread_value]
    exact shows.pos
  have hgiven : Given.gross ⟨a.reread.value, hpos⟩ = t.given :=
    Except.ok.inj ((checkAmounts_gross hpos rfl).symm.trans ht.given)
  refine ⟨q, other, a, qrid, shows, hqrid, ?_, ?_, cfg, sender, recipient, hcfg, hsender,
    hrecipient, congrArg sender.profile hmagic, congrArg recipient.profile hmagic⟩
  · rw [Transfer.entry, ← hgiven]
    exact congrArg Js.Number.fin a.reread_value
  · rw [Transfer.entry, ht.comment]
    exact congrArg (Option.map Text.toOption) (E.castString_str q.typed.comment)

/-- The request of an entry has the arguments of the transaction that was posted. -/
theorem paysAsShown_of_granted {asked : List Payment.Identify} {r : Payment.Submission}
    (hr : Payment.SentAsShown toUpperCase page store asked r) {K : Keys} {post : String}
    (hpayload : payloadOf K post = .ok (some r.payload.reread)) {rq : Request} {e : Draft}
    (hg : Server.Granted E K H ⟨"transaction", post⟩ rq) (he : rq.Builds E H e) :
    PaysAsShown H toUpperCase page store asked r e := by
  obtain ⟨⟨b, payload, cfg, ⟨haction, -⟩, hpay, -, hrequest⟩, -⟩ := hg
  cases hpayload.symm.trans hpay
  cases haction
  exact paysAsShown hr hrequest he

/-! ## The invariant -/

/-- A post that has arrived is that of a transaction of the page. -/
structure Posted (ch : Channel) (s : State) (a : Arrival) : Prop where
  sent : ∃ r, s.page.transactions[a.transaction]? = some r ∧
    ∃ post encrypted, s.server.received[a.req]? = some ⟨"transaction", post⟩ ∧
      decodePost ch.keys post = .ok (encrypted, a.passphrase) ∧
      payloadOf ch.keys post = .ok (some r.payload.reread)

/-- The text of an exception is not "ok". -/
theorem append_ne_ok {t : String} (h : 2 < t.length) (err : String) : t ++ err ≠ "ok" := by
  intro heq
  have hlength : t.length + err.length = 2 := by
    rw [← String.length_append, heq]
    rfl
  omega

theorem isText_ok {err : String} {m : Answer} {v : Json} (h : messageText err m = some v) :
    m.isText "ok" = true ↔ v = .str "ok" := by
  cases m with
  | text s =>
      cases h
      simp [Answer.isText]
  | error =>
      cases h
      exact ⟨Bool.noConfusion, fun heq => absurd (Json.str.inj heq) (append_ne_ok (by decide) err)⟩
  | dbError component =>
      cases h
      refine ⟨Bool.noConfusion, fun heq => absurd (Json.str.inj heq) (append_ne_ok ?_ err)⟩
      simp only [String.length_append]
      have hlt : 2 < "error: database error [".length := by decide
      omega
  | _ => cases h

/-- The page was given an answer of the server. -/
def Told (s : State) (n : ℕ) (v : Json) : Prop :=
  ∃ a ∈ s.arrived, a.transaction = n ∧ ∃ m ∈ s.server.told a.req, ∃ err,
    messageText err m = some v

/-- The other events of the server are those that `Server.Told` allows. -/
def Proper (E : Ext) (ch : Channel) (s : State) : Event → Prop
  | .server e => Server.Told E ch.keys s.server e
  | _ => True

/-- The page and the server do what they do alone, and their messages match. -/
structure Joined (E : Ext) (ch : Channel) (toUpperCase : String → String) (page : Payment.Page)
    (store : Payment.Storage) (S : Students) (L : Ledger) (s : State) : Prop where
  server : Run (Server.step E ch.keys) (Server.Told E ch.keys) (.init S L) s.server
  page : AnyRun (Payment.step toUpperCase page store) Payment.initial s.page
  posted : ∀ a ∈ s.arrived, Posted ch s a
  transactions : (s.arrived.map Arrival.transaction).Nodup
  reqs : (s.arrived.map Arrival.req).Nodup
  told : ∀ n r v, s.page.transactions[n]? = some r → r.outcome = some (some v) → Told s n v
  success : s.page.success = true → ∃ r ∈ s.page.transactions, r.outcome = some (some (.str "ok"))

/-- A message that arrives is one that the server has sent. -/
theorem transmit_eq_some {a : Arrival} (h : Posted ch s a) {k : ℕ} {err : String} {salt : Draws 8}
    {value : JsVal} (ht : transmit ch s.server a k err salt = some value) :
    ∃ m ∈ s.server.told a.req, ∃ v, messageText err m = some v ∧ value = some v := by
  obtain ⟨r, hr, post, encrypted, hq, hpost, -⟩ := h.sent
  simp only [transmit, Option.bind_eq_bind, Option.bind_eq_some_iff] at ht
  obtain ⟨m, hm, v, hv, q, hq', ⟨encrypted', key⟩, hkey, res, hres, hvalue⟩ := ht
  cases hq.symm.trans hq'
  rw [hpost] at hkey
  cases hkey
  obtain ⟨c, henc, hdec⟩ := exists_encrypt_query (C := ch.crypto) salt v a.passphrase
  rw [henc] at hres
  cases hres
  have hreread : v.reread = v := by
    cases m with
    | text | error | dbError =>
        cases hv
        rfl
    | _ => cases hv
  refine ⟨m, mem_of_getElem? hm, v, hv, ?_⟩
  simp only [hdec, Js.parse_stringify, hreread] at hvalue
  exact (Option.some.inj hvalue).symm

namespace Joined

/-- The server takes a step. -/
theorem setServer (h : Joined E ch toUpperCase page store S L s) {e : Server.Event}
    {t : Server.State} (hok : Server.Told E ch.keys s.server e)
    (hs : Server.step E ch.keys s.server e = some t) :
    Joined E ch toUpperCase page store S L { s with server := t } where
  server := h.server.tail hok hs
  page := h.page
  posted a ha := by
    obtain ⟨r, hr, post, encrypted, hq, hpost, hpayload⟩ := (h.posted a ha).sent
    exact ⟨r, hr, post, encrypted, Server.received_step hs hq, hpost, hpayload⟩
  transactions := h.transactions
  reqs := h.reqs
  told n r v hr ho := by
    obtain ⟨a, ha, hn, m, hm, err, hv⟩ := h.told n r v hr ho
    exact ⟨a, ha, hn, m, Server.told_step hs hm, err, hv⟩
  success := h.success

/-- Something happens on the page that is not an answer to a transaction. -/
theorem setPage (h : Joined E ch toUpperCase page store S L s) {e : Payment.Event}
    (he : answersTransaction e = false) {p : Payment.State}
    (hs : Payment.step toUpperCase page store s.page e = some p) :
    Joined E ch toUpperCase page store S L { s with page := p } := by
  obtain ⟨hsuccess, htr⟩ := Payment.transactions_step (.run h.page) he hs
  have grown : ∀ (n : ℕ) (r : Payment.Submission), s.page.transactions[n]? = some r →
      p.transactions[n]? = some r := by
    intro n r hr
    rcases htr with htr | ⟨r', -, htr⟩
    · rw [htr, hr]
    · rw [htr, Calls.getElem?_append_of_some hr]
  refine ⟨h.server, h.page.tail trivial hs, fun a ha => ?_, h.transactions, h.reqs,
    fun n r v hr ho => ?_, fun hp => ?_⟩
  · obtain ⟨r, hr, rest⟩ := (h.posted a ha).sent
    exact ⟨r, grown _ r hr, rest⟩
  · rcases htr with htr | ⟨r', hr', htr⟩
    · exact h.told n r v (htr ▸ hr) ho
    · dsimp only at hr
      rw [htr, List.getElem?_append] at hr
      split at hr
      · exact h.told n r v hr ho
      · have := List.mem_singleton.mp (mem_of_getElem? hr)
        rw [this, hr'] at ho
        cases ho
  · obtain ⟨r, hr, ho⟩ := h.success (hsuccess ▸ hp)
    obtain ⟨n, hn⟩ := List.mem_iff_getElem?.mp hr
    exact ⟨r, mem_of_getElem? (grown n r hn), ho⟩

/-- A transaction of the page ends. -/
theorem endTransaction (h : Joined E ch toUpperCase page store S L s) {n : ℕ} {payload : Json}
    {shown : Payment.View} (hn : s.page.transactions[n]? = some ⟨⟨payload, none⟩, shown⟩)
    {outcome : Option Json} (ho : ∀ v, outcome = some v → Told s n v) {e : Payment.Event}
    {p : Payment.State} (hs : Payment.step toUpperCase page store s.page e = some p)
    (htr : p.transactions = s.page.transactions.set n ⟨⟨payload, some outcome⟩, shown⟩)
    (hsuccess : p.success = true → s.page.success = true ∨ outcome = some (.str "ok")) :
    Joined E ch toUpperCase page store S L { s with page := p } := by
  have hlt : n < s.page.transactions.length := (List.getElem?_eq_some_iff.mp hn).1
  refine ⟨h.server, h.page.tail trivial hs, fun a ha => ?_, h.transactions, h.reqs,
    fun m r v hr hv => ?_, fun hp => ?_⟩
  · obtain ⟨r, hr, rest⟩ := (h.posted a ha).sent
    by_cases hm : n = a.transaction
    · subst hm
      cases hn.symm.trans hr
      exact ⟨⟨⟨payload, some outcome⟩, shown⟩, by simp [htr, hlt], rest⟩
    · exact ⟨r, by simp [htr, List.getElem?_set_ne hm, hr], rest⟩
  · dsimp only at hr
    rw [htr] at hr
    by_cases hm : n = m
    · subst hm
      rw [List.getElem?_set_self hlt] at hr
      cases hr
      exact ho v (Option.some.inj hv)
    · rw [List.getElem?_set_ne hm] at hr
      exact h.told m r v hr hv
  · rcases hsuccess hp with hp | hok
    · obtain ⟨r, hr, hout⟩ := h.success hp
      refine ⟨r, ?_, hout⟩
      show r ∈ p.transactions
      rw [htr]
      exact Calls.mem_set_of_ne _ hn hr (by rintro rfl; cases hout)
    · refine ⟨⟨⟨payload, some outcome⟩, shown⟩, ?_, by rw [hok]⟩
      show _ ∈ p.transactions
      rw [htr]
      exact Calls.mem_set_self _ hn

/-- A transaction arrives at the server. -/
theorem arrive (h : Joined E ch toUpperCase page store S L s) {n : ℕ} {r : Payment.Submission}
    (hr : s.page.transactions[n]? = some r) (hnew : s.arrived.find? (·.transaction = n) = none)
    {w : WorkerId} {env : Env} {draws : Draws 32} {salt : Draws 8} {passphrase post : String}
    (hsend : send_query ch draws salt (actionQuery (some r.payload) none) = .ok (passphrase, post))
    {t : Server.State}
    (hs : Server.step E ch.keys s.server (.request w env "transaction" post) = some t) :
    Joined E ch toUpperCase page store S L { s with
      server := t
      arrived := s.arrived ++ [⟨n, s.server.received.length, passphrase⟩] } := by
  have hok : Server.Told E ch.keys s.server (.request w env "transaction" post) :=
    ⟨.of_action env post rfl (fun fns hfns => by cases hfns) fun _ => trivial, trivial⟩
  have joined := h.setServer hok hs
  obtain ⟨post', encrypted, hsend', hpost, hquery⟩ :=
    exists_send_query ch draws salt (actionQuery (some r.payload) none)
  cases hsend.symm.trans hsend'
  have arrived : t.received[s.server.received.length]? = some ⟨"transaction", post⟩ := by
    cases Server.step_cases hs with
    | request =>
        rw [(Server.State.performAll_frame ..).1]
        simp
  refine ⟨joined.server, joined.page, ?_, ?_, ?_, fun m r' v hr' hv => ?_, joined.success⟩
  · refine Calls.forall_mem_concat (fun a ha => ⟨(joined.posted a ha).sent⟩)
      ⟨r, hr, post, some (.str encrypted), arrived, hpost, ?_⟩
    rw [payloadOf, queryOf_eq hpost, hquery, Js.except_ok_bind]
    exact (prop_actionQuery (some r.payload) none).2
  · rw [List.map_append, List.nodup_append]
    refine ⟨joined.transactions, by simp, fun _ ht _ hn => ?_⟩
    obtain ⟨a, ha, rfl⟩ := List.mem_map.mp ht
    rw [List.mem_singleton.mp hn]
    simpa using List.find?_eq_none.mp hnew a ha
  · rw [List.map_append, List.nodup_append]
    refine ⟨joined.reqs, by simp, fun _ hq _ hn => ?_⟩
    obtain ⟨a, ha, rfl⟩ := List.mem_map.mp hq
    rw [List.mem_singleton.mp hn]
    obtain ⟨r', -, post', -, hreceived, -⟩ := (h.posted a ha).sent
    exact (List.getElem?_eq_some_iff.mp hreceived).1.ne
  · obtain ⟨a, ha, rest⟩ := joined.told m r' v hr' hv
    exact ⟨a, List.mem_append_left _ ha, rest⟩

theorem init (S : Students) (L : Ledger) :
    Joined E ch toUpperCase page store S L (State.init S L) where
  server := .refl
  page := .refl
  posted := by simp [State.init]
  transactions := List.nodup_nil
  reqs := List.nodup_nil
  told n r v hr := by
    rw [State.init, Payment.initial] at hr
    cases hr
  success hp := by cases hp

theorem step (h : Joined E ch toUpperCase page store S L s) {e : Event} (hok : Proper E ch s e)
    (hs : Session.step E ch toUpperCase page store s e = some s') :
    Joined E ch toUpperCase page store S L s' := by
  cases e with
  | page e =>
      obtain ⟨he, hs⟩ := Option.ite_none_left_eq_some.mp hs
      obtain ⟨p, hp, rfl⟩ := Option.map_eq_some_iff.mp hs
      exact h.setPage (Bool.eq_false_of_not_eq_true he) hp
  | arrive n w env draws salt =>
      rw [Session.step] at hs
      split at hs
      · rename_i r hr hnew
        split at hs
        · rename_i passphrase post hsend
          obtain ⟨t, ht, rfl⟩ := Option.map_eq_some_iff.mp hs
          exact h.arrive hr hnew hsend ht
        · cases hs
      · cases hs
  | answer n k err salt status =>
      rw [Session.step] at hs
      split at hs
      · rename_i a ha hstatus
        obtain ⟨value, hvalue, hs⟩ := Option.bind_eq_some_iff.mp hs
        have hmem := List.mem_of_find?_eq_some ha
        have hn : a.transaction = n := by simpa using List.find?_some ha
        obtain ⟨m, hm, v, hv, rfl⟩ := transmit_eq_some (h.posted a hmem) hvalue
        obtain ⟨p, hp, rfl⟩ := Option.map_eq_some_iff.mp hs
        obtain ⟨payload, shown, hget, ⟨-, htr, hsuccess⟩ | ⟨hne, -⟩⟩ := Payment.transaction_step hp
        · refine h.endTransaction hget ?_ hp htr fun hp => (hsuccess hp).imp_right fun hok => ?_
          · rintro v' hv'
            cases hv'
            exact ⟨a, hmem, hn, m, hm, err, hv⟩
          · cases m with
            | text | error | dbError =>
                cases hv
                rw [of_decide_eq_true (Except.ok.inj hok)]
            | _ => cases hv
        · exact absurd hstatus hne
      · cases hs
  | fail n status =>
      obtain ⟨hstatus, hs⟩ := Option.ite_none_right_eq_some.mp hs
      obtain ⟨p, hp, rfl⟩ := Option.map_eq_some_iff.mp hs
      obtain ⟨payload, shown, hget, ⟨hne, -⟩ | ⟨-, htr, hsuccess⟩⟩ := Payment.transaction_step hp
      · rw [hne] at hstatus
        cases hstatus
      · exact h.endTransaction hget (fun v hv => by cases hv) hp htr fun hp => .inl (hsuccess ▸ hp)
  | server e =>
      obtain ⟨t, ht, rfl⟩ := Option.map_eq_some_iff.mp hs
      exact h.setServer hok ht

end Joined

/-! ## Runs -/

/-- In every run, in which the other requests of the server are arbitrary, at most one entry is
written for each transaction of the page.  When the page was given an answer to a transaction,
the entry was written exactly if this is "ok", and then it pays what the confirm window showed,
between records that lookups in the run have found.
The success of a payment is only displayed when one of the transactions was answered so. -/
theorem booked_as_shown {past : List (State × Event)}
    (run : Run (recorded (step E ch toUpperCase page store)) (fun p e => Proper E ch p.1 e)
      (State.init S L, []) (s, past)) :
    (∀ a ∈ s.arrived, Pending.booked s.server.bank a.req ≤ 1) ∧
    (s.page.success = true →
      ∃ r ∈ s.page.transactions, r.outcome = some (some (.str "ok"))) ∧
    ∀ n r v, s.page.transactions[n]? = some r → r.outcome = some (some v) →
      ∃ a ∈ s.arrived, a.transaction = n ∧
        (∀ b ∈ s.arrived, b.transaction = n ∨ b.req = a.req → b = a) ∧
        (v ≠ .str "ok" → Pending.booked s.server.bank a.req = 0) ∧
        (v = .str "ok" → Pending.booked s.server.bank a.req = 1 ∧
          ∃ c ∈ s.server.bank.writes, c.answer.req = a.req ∧ c.phase.outcome = some true ∧
            PaysAsShown (Server.seen E (serverPast ch past)) toUpperCase page store
              s.page.identifies r c.entry) := by
  have h : Joined E ch toUpperCase page store S L s :=
    run.forget.invariant (.init S L) fun _ _ _ h hok hs => h.step hok hs
  have settling := Server.settling_of_run h.server
  have receipts := Server.receipts_of_run h.server
  have sourced := Server.sourced_of_run (server_of_run run)
  have booked : ∀ a ∈ s.arrived, Pending.booked s.server.bank a.req ≤ 1 ∧
      ∀ m ∈ s.server.told a.req, m.isMessage = true ∧
        Pending.booked s.server.bank a.req = if m.isText "ok" then 1 else 0 := by
    intro a ha
    obtain ⟨r, hr, post, encrypted, hq, -⟩ := (h.posted a ha).sent
    exact settling.booked receipts hq ⟨.transaction, rfl⟩
  refine ⟨fun a ha => (booked a ha).1, h.success, fun n r v hr ho => ?_⟩
  obtain ⟨a, ha, hn, m, hm, err, hv⟩ := h.told n r v hr ho
  obtain ⟨r', hr', post, encrypted, hq, hpost, hpayload⟩ := (h.posted a ha).sent
  rw [hn] at hr'
  cases hr.symm.trans hr'
  have count := ((booked a ha).2 m hm).2
  refine ⟨a, ha, hn, ?_, fun hne => ?_, ?_⟩
  · rintro b hb (hb' | hb')
    · exact List.inj_on_of_nodup_map h.transactions hb ha (hb'.trans hn.symm)
    · exact List.inj_on_of_nodup_map h.reqs hb ha hb'
  · rw [count, if_neg fun hok => hne ((isText_ok hv).mp hok)]
  · rintro rfl
    have hone : Pending.booked s.server.bank a.req = 1 := by
      rw [count, if_pos ((isText_ok hv).mpr rfl)]
    obtain ⟨c, hc, hfor⟩ := List.countP_pos_iff.mp (hone ▸ Nat.one_pos)
    simp only [Bool.and_eq_true, decide_eq_true_eq] at hfor
    obtain ⟨q, rq, hq', hgranted, hbuilds⟩ := sourced.written hc
    rw [hfor.1, hq] at hq'
    cases hq'
    exact ⟨hone, c, hc, hfor.1, hfor.2,
      paysAsShown_of_granted ((Payment.Careful.run h.page).sent r (mem_of_getElem? hr)) hpayload
        hgranted hbuilds⟩

section Sample

open Server (editKeys lookup citizens taxAccount writeIntent)
open Pending (endowment)

/-- Citizen `1` pays citizen `3`. -/
def saleEvents : List Event :=
  [.page (.fill ⟨"3", "", "", "", "10", "cake", ""⟩), .page .confirm,
    .page (.identified 0 (.obj [("qrid", .str "3"), ("firstname", .str "Karl"),
      ("lastname", .str "Marx"), ("type", .str "citizen")]) .SUCCESS_INTRANET),
    .page .submit, .arrive 0 0 .start ⟨List.replicate 32 0, rfl⟩ ⟨List.replicate 8 0, rfl⟩] ++
  (lookup 0 (someStudent 1) ++ lookup 1 (taxAccount 4) ++ lookup 2 (someStudent 1) ++
    lookup 3 (someStudent 3) ++ writeIntent ++ [Server.Event.bank (.writeReply 0)]).map .server ++
  [.answer 0 0 "" ⟨List.replicate 8 0, rfl⟩ .SUCCESS_INTERNET]

def sale : Payment.Storage := ⟨some (.str "1"), some (.str "pw")⟩

/-- The query and the answer of the sale.  Passphrase and salt are blanks. -/
def saleAnswers : KnownAnswers where
  salted_password := String.ofList (List.replicate 40 ' ')
  first := [0xf4, 0x8f, 0x1c, 0xab, 0x15, 0xdd, 0x26, 0x55, 0xd6, 0x49, 0xab, 0xe3, 0x47, 0xd5,
      0x71, 0xbd]
  second := [0x2f, 0x67, 0x13, 0x11, 0x1b, 0x6a, 0xad, 0x95, 0x00, 0x92, 0x8d, 0x2a, 0x30, 0xc3,
      0x34, 0x1c]
  third := [0xbb, 0xb1, 0xbf, 0x09, 0x54, 0xb2, 0xf3, 0xbe, 0xbb, 0x26, 0xf5, 0x7d, 0x7b, 0xc8,
      0x44, 0x67]
  ciphertexts := [
    (Js.utf8 ("\x7b\"payload\":\x7b\"amount_sent\":10,\"sender\":\"1\",\"recipient\":\"3\"," ++
        "\"comment\":\"cake\",\"sender_password\":\"pw\"\x7d\x7d"),
      [0xba, 0x7f, 0x0d, 0x09, 0x8e, 0xc1, 0xf1, 0x48, 0x34, 0xef, 0xc2, 0x46, 0xc7, 0x71, 0x01,
       0x03, 0x84, 0x06, 0xdd, 0xe3, 0xe5, 0x72, 0x11, 0x07, 0x3e, 0xee, 0xee, 0x5e, 0x2d, 0xbd,
       0xe1, 0x66, 0xf4, 0xbf, 0xde, 0xf4, 0x2a, 0x3b, 0x7e, 0xf4, 0x93, 0x4c, 0x5e, 0x46, 0x02,
       0xe2, 0x00, 0x5d, 0x90, 0x3c, 0xa6, 0x3f, 0xe9, 0x08, 0x4c, 0x1b, 0x6b, 0xda, 0x9d, 0xc6,
       0xfd, 0x47, 0xe7, 0x93, 0xe1, 0xcc, 0x57, 0x80, 0xd5, 0x93, 0xc5, 0xed, 0xbb, 0xdc, 0x08,
       0xb1, 0x2c, 0x37, 0x4a, 0x87, 0xff, 0x33, 0xa6, 0x98, 0x1f, 0x60, 0xff, 0x86, 0xb9, 0x7a,
       0xcc, 0xa8, 0xb9, 0x47, 0xfc, 0x48, 0xab, 0xd8, 0x69, 0x24, 0x02, 0x1b, 0xaf, 0x19, 0x33,
       0xf8, 0x79, 0x48, 0xec, 0x90, 0xf9, 0x2c]),
    (Js.utf8 "\"ok\"", [0xca, 0x80, 0x17, 0xc1, 0x39, 0xf7, 0x2c, 0x45, 0xbc, 0x25, 0x70, 0x87,
      0xf4, 0x0b, 0x50, 0x57])]
  lengths := by decide +kernel
  lawful := by decide +kernel

/-- The channel of the sale. -/
def saleChannel : Channel := .known saleAnswers

/-- What can be decided of `Proper`. -/
def Ordered (s : State) : Event → Prop
  | .server e => Server.Ordered s.server e
  | _ => True

instance (s : State) (e : Event) : Decidable (Ordered s e) :=
  match e with
  | .server _ => inferInstanceAs (Decidable (Server.Ordered _ _))
  | .page _ | .arrive .. | .answer .. | .fail .. => isTrue trivial

/-- The rest of `Proper`. -/
def Answered (E : Ext) (ch : Channel) : Event → Prop
  | .server e => Server.Answered E ch.keys e
  | _ => True

theorem answered_saleEvents : ∀ e ∈ saleEvents, Answered .simple saleChannel e := by
  have write : ∀ e ∈ writeIntent, Server.Answered .simple saleChannel.keys e := by
    simp only [writeIntent, List.forall_mem_map]
    exact fun _ _ => trivial
  simp only [saleEvents, lookup, List.map_append, List.forall_mem_append, List.forall_mem_map,
    List.forall_mem_cons, Answered, Server.Answered, true_and]
  exact ⟨⟨by simp, ⟨by simp, write⟩, by simp⟩, by simp⟩

/-- The page shows that the payment has succeeded. -/
theorem booked_as_shown_sale : ∃ s past,
    Run (recorded (step .simple saleChannel String.toUpper .send sale))
      (fun p e => Proper .simple saleChannel p.1 e) (State.init citizens endowment, []) (s, past) ∧
      s.page.success = true ∧
      ∃ n r a, s.page.transactions[n]? = some r ∧ a ∈ s.arrived ∧ a.transaction = n ∧
        Pending.booked s.server.bank a.req = 1 ∧
          ∃ c ∈ s.server.bank.writes, c.answer.req = a.req ∧
            PaysAsShown (Server.seen .simple (serverPast saleChannel past)) String.toUpper .send sale
              s.page.identifies r c.entry := by
  have hexec : (exec (step .simple saleChannel String.toUpper .send sale) Ordered
      (State.init citizens endowment) saleEvents).map (·.page.success) = some true := by
    decide +kernel
  obtain ⟨s, run, hs⟩ := exists_run_of_exec_forall answered_saleEvents hexec
  have run : Run (step .simple saleChannel String.toUpper .send sale) (Proper .simple saleChannel)
      (State.init citizens endowment) s := run.mono fun t e he => by
    cases e with
    | server e => exact he
    | _ => trivial
  obtain ⟨past, run⟩ := run.exists_recorded
  obtain ⟨-, success, answers⟩ := booked_as_shown run
  obtain ⟨r, hr, ho⟩ := success hs
  obtain ⟨n, hn⟩ := List.mem_iff_getElem?.mp hr
  obtain ⟨a, ha, hn', -, -, hok⟩ := answers n r _ hn ho
  obtain ⟨hone, c, hc, hreq, -, hpays⟩ := hok rfl
  exact ⟨s, past, run, hs, n, r, a, hn, ha, hn', hone, c, hc, hreq, hpays⟩

end Sample

end Session

end SchuleAlsStaat
