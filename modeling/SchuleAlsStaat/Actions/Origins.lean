import SchuleAlsStaat.Actions.Bookings
import SchuleAlsStaat.Actions.Duties

/-!
# Where entries and polls come from

A request only answers and asks the database.  An entry is handed over by the
lookup of its recipient, or by an earlier lookup when the money is destroyed.  A
poll starts when a password is accepted for it.
-/

namespace SchuleAlsStaat

open Js (JsVal JS)

variable {E : Ext} {K : Keys} {env : Env} {client : Client} {a : Act}

/-- The act hands over no entry and starts no poll. -/
def Act.Calm : Act → Prop
  | .intent _ _ _ => False
  | .spawn _ _ => False
  | .poll _ _ _ => False
  | _ => True

theorem Act.Idle.calm (h : a.Idle) : a.Calm := by
  cases a with
  | intent | spawn | poll => exact h.elim
  | _ => trivial

theorem Act.Calm.draft_eq_none (h : a.Calm) : a.draft = none := by
  cases a with
  | intent | spawn => exact h.elim
  | _ => rfl

/-! ## Requests -/

theorem calm_transaction {q : Request}
    (h : a ∈ (transaction env client q.sender_qrid q.recipient_qrid q.amount_sent
      q.amount_received q.tax q.comment).acts) : a.Calm := by
  obtain ⟨spawn, destroy, -, -, ⟨e, -, rfl⟩ | ⟨given, -, rfl⟩⟩ := mem_transaction h <;> trivial

/-- An action that moves money starts with a lookup. -/
theorem calm_money {payload : JsVal} (b : MoneyAction)
    (h : a ∈ (b.run env client payload).acts) : a.Calm := by
  have normal : ∀ tax, a ∈ (transaction_normal env client payload tax).acts → a.Calm := by
    intro tax h
    obtain ⟨args, -, h⟩ := JS.mem_lift_bind_acts.mp h
    rcases mem_normal h with ⟨m, rfl⟩ | ⟨-, -, rfl⟩ <;> trivial
  cases b with
  | transaction => exact normal _ h
  | transaction_taxfree => exact normal _ h
  | spawn_money =>
      obtain ⟨recipient, -, h⟩ := JS.mem_lift_bind_acts.mp h
      obtain ⟨amount, -, h⟩ := JS.mem_lift_bind_acts.mp h
      obtain ⟨comment, -, h⟩ := JS.mem_lift_bind_acts.mp h
      exact calm_transaction (q := ⟨_, recipient, amount, _, _, comment⟩) h
  | destroy_money =>
      obtain ⟨sender, -, h⟩ := JS.mem_lift_bind_acts.mp h
      obtain ⟨amount, -, h⟩ := JS.mem_lift_bind_acts.mp h
      obtain ⟨comment, -, h⟩ := JS.mem_lift_bind_acts.mp h
      exact calm_transaction (q := ⟨sender, _, amount, _, _, comment⟩) h
  | master_transaction =>
      obtain ⟨tax, -, h⟩ := JS.mem_lift_bind_acts.mp h
      obtain ⟨percent, -, h⟩ := JS.mem_lift_bind_acts.mp h
      split at h
      next =>
        rw [answer_acts] at h
        cases List.mem_singleton.mp h
        trivial
      next =>
        obtain ⟨sender, -, h⟩ := JS.mem_lift_bind_acts.mp h
        obtain ⟨recipient, -, h⟩ := JS.mem_lift_bind_acts.mp h
        obtain ⟨sent, -, h⟩ := JS.mem_lift_bind_acts.mp h
        obtain ⟨received, -, h⟩ := JS.mem_lift_bind_acts.mp h
        obtain ⟨comment, -, h⟩ := JS.mem_lift_bind_acts.mp h
        exact calm_transaction (q := ⟨sender, recipient, sent, received, tax, comment⟩) h

theorem calm_prepare_action {name post : String}
    (h : a ∈ (prepare_action E K env client name post).acts) : a.Calm := by
  rcases mem_prepare_action h with ⟨m, -, rfl⟩ | ⟨payload, rfl⟩ | ⟨b, payload, -, hb⟩
  · trivial
  · trivial
  · cases hm : b.moves with
    | false => exact (idle_run E env client payload hm a hb).2.calm
    | true =>
        cases b with
        | money b => exact calm_money b hb
        | _ => cases hm

/-! ## Entries -/

/-- The callback of the lookup hands over an entry of destroyed money, whose
recipient has this name. -/
def Query.destroys : Query → Option String
  | .student _ _ (.transaction_taxinc t) =>
      if t.spawn_money && t.destroy_money then some t.magic_account else none
  | .student _ _ (.transaction_sender t _) =>
      if t.destroy_money then some t.magic_account else none
  | _ => none

/-- The recipient of an entry is the account that was just found, or the money
is destroyed. -/
theorem mem_onReply_draft {q : Query} {r : Reply} {d : Draft}
    (h : a ∈ (onReply E env client q r).acts) (hd : a.draft = some d) :
    (∃ component qrid t taxinc sender st,
      q = .student component qrid (.transaction_recipient t taxinc sender) ∧
        r = .student (some st) ∧ d.recipient = (Party.account st).profile t.magic_account) ∨
      ∃ m st, q.destroys = some m ∧ r = .student (some st) ∧
        d.recipient = Party.profile m .magic_account := by
  have recipient : ∀ {t taxinc sender recipient},
      a ∈ (onRecipient E env client t taxinc sender recipient).acts →
        d.recipient = recipient.profile t.magic_account := by
    intro t taxinc sender recipient h
    obtain ⟨percent, -, ⟨-, rfl⟩ | ⟨st, -, rfl⟩⟩ := mem_onRecipient h <;> cases hd <;> rfl
  have silent : a.Calm → False := fun hcalm => by
    rw [hcalm.draft_eq_none] at hd
    cases hd
  cases hm : q.moves with
  | false =>
      have hplain := ((plain_onReply E env client hm r).acts a h).2
      cases a with
      | intent | spawn => exact hplain.elim
      | _ => cases hd
  | true =>
      obtain ⟨component, qrid, cb, st, rfl, rfl, h⟩ := mem_onReply_moves E env client hm h
      cases cb with
      | transaction_normal args =>
          rcases mem_transaction_normal_cb h with ⟨m, rfl⟩ | ⟨st, -, -, h⟩
          · cases hd
          · exact (silent (calm_transaction (q := args.request) h)).elim
      | transaction_taxinc t =>
          rcases mem_transaction_taxinc_cb h with ⟨m, rfl⟩ | ⟨taxinc, rfl, ⟨hs, h⟩ | ⟨-, rfl⟩⟩
          · cases hd
          · rcases mem_onSender h with ⟨hdestroy, h⟩ | ⟨-, rfl⟩
            · exact .inr ⟨t.magic_account, taxinc, by simp [Query.destroys, hs, hdestroy], rfl,
                recipient h⟩
            · cases hd
          · cases hd
      | transaction_sender t taxinc =>
          rcases mem_transaction_sender_cb h with ⟨m, rfl⟩ | ⟨st, rfl, h⟩
          · cases hd
          · rcases mem_onSender h with ⟨hdestroy, h⟩ | ⟨-, rfl⟩
            · exact .inr ⟨t.magic_account, st, by simp [Query.destroys, hdestroy], rfl, recipient h⟩
            · cases hd
      | transaction_recipient t taxinc sender =>
          rcases mem_transaction_recipient_cb h with ⟨m, rfl⟩ | ⟨st, rfl, h⟩
          · cases hd
          · exact .inl ⟨component, qrid, t, taxinc, sender, st, rfl, rfl, recipient h⟩
      | _ => cases hm

/-! ## Polls -/

theorem mem_transactions_poll_cb {payload : JsVal} {st : Option Student}
    (h : a ∈ (transactions_poll_cb E payload client st).acts) :
    (∃ m, m.isList = false ∧ a = .answer client m) ∨ ∃ s password date qrid, st = some s ∧
      payload.prop "password" = .ok password ∧ check_password E s password = .ok true ∧
        payload.prop "qrid" = .ok qrid ∧ (∃ key, qrid.toStr = .ok key) ∧
          a = .poll { client with auth := some s._id } date qrid := by
  cases st with
  | none =>
      rw [transactions_poll_cb, answer_acts] at h
      exact .inl ⟨_, rfl, List.mem_singleton.mp h⟩
  | some s =>
      rw [transactions_poll_cb, JS.mem_lift_bind_acts] at h
      obtain ⟨password, hpassword, h⟩ := h
      rw [JS.mem_lift_bind_acts] at h
      obtain ⟨ok, hok, h⟩ := h
      cases ok with
      | false =>
          rw [Bool.not_false, if_pos rfl, answer_acts] at h
          exact .inl ⟨_, rfl, List.mem_singleton.mp h⟩
      | true =>
          obtain ⟨date, -, h⟩ := JS.mem_lift_bind_acts.mp h
          cases date with
          | none =>
              rw [answer_acts] at h
              exact .inl ⟨_, rfl, List.mem_singleton.mp h⟩
          | some date =>
              obtain ⟨qrid, hqrid, h⟩ := JS.mem_lift_bind_acts.mp h
              rw [info_bind] at h
              obtain ⟨key, hkey, h⟩ := JS.mem_lift_bind_acts.mp h
              exact .inr ⟨s, password, date, qrid, rfl, hpassword, hok, hqrid, ⟨key, hkey⟩,
                List.mem_singleton.mp h⟩

/-- The callbacks of a transaction ask and answer, until the last one hands it over. -/
theorem moves_cases {q : Query} {r : Reply} (hm : q.moves = true)
    (h : a ∈ (onReply E env client q r).acts) :
    a.Calm ∨ ∃ t taxinc sender recipient,
      a ∈ (onRecipient E env client t taxinc sender recipient).acts := by
  have sender : ∀ {t taxinc sender}, a ∈ (onSender E env client t taxinc sender).acts →
      a.Calm ∨ ∃ t taxinc sender recipient,
        a ∈ (onRecipient E env client t taxinc sender recipient).acts := by
    intro t taxinc sender h
    rcases mem_onSender h with ⟨-, h⟩ | ⟨-, rfl⟩
    · exact .inr ⟨_, _, _, _, h⟩
    · exact .inl trivial
  obtain ⟨component, v, cb, st, rfl, rfl, h⟩ := mem_onReply_moves E env client hm h
  cases cb with
  | transaction_normal args =>
      rcases mem_transaction_normal_cb h with ⟨m, rfl⟩ | ⟨st, -, -, h⟩
      · exact .inl trivial
      · exact .inl (calm_transaction (q := args.request) h)
  | transaction_taxinc t =>
      rcases mem_transaction_taxinc_cb h with ⟨m, rfl⟩ | ⟨taxinc, -, ⟨-, h⟩ | ⟨-, rfl⟩⟩
      · exact .inl trivial
      · exact sender h
      · exact .inl trivial
  | transaction_sender t taxinc =>
      rcases mem_transaction_sender_cb h with ⟨m, rfl⟩ | ⟨st, -, h⟩
      · exact .inl trivial
      · exact sender h
  | transaction_recipient t taxinc sender =>
      rcases mem_transaction_recipient_cb h with ⟨m, rfl⟩ | ⟨st, -, h⟩
      · exact .inl trivial
      · exact .inr ⟨_, _, _, _, h⟩
  | _ => cases hm

/-- The lookups of a transaction start no poll. -/
theorem not_poll_of_moves {q : Query} {r : Reply} (hm : q.moves = true)
    (h : a ∈ (onReply E env client q r).acts) (c : Client) (date : ℚ) (qrid : JsVal) :
    a ≠ .poll c date qrid := by
  rcases moves_cases hm h with hcalm | ⟨t, taxinc, sender, recipient, h⟩
  · rintro rfl
    exact hcalm
  · obtain ⟨percent, -, ⟨-, rfl⟩ | ⟨st, -, rfl⟩⟩ := mem_onRecipient h <;> simp

/-- An intent is for the sender of its entry. -/
def Act.Matched : Act → Prop
  | .intent _ sender e => e.sender.reference = some sender
  | _ => True

theorem Act.Calm.matched (h : a.Calm) : a.Matched := by
  cases a with
  | intent => exact h.elim
  | _ => trivial

theorem matched_onReply {q : Query} {r : Reply} (h : a ∈ (onReply E env client q r).acts) :
    a.Matched := by
  cases hm : q.moves with
  | false =>
      have hplain := ((plain_onReply E env client hm r).acts a h).2
      cases a with
      | intent => exact hplain.elim
      | _ => trivial
  | true =>
      rcases moves_cases hm h with hcalm | ⟨t, taxinc, sender, recipient, h⟩
      · exact hcalm.matched
      · obtain ⟨percent, -, ⟨-, rfl⟩ | ⟨st, rfl, rfl⟩⟩ := mem_onRecipient h
        · trivial
        · rfl

/-- A poll starts when a password is accepted for it, and it belongs to the
record that was found. -/
theorem mem_onReply_poll {q : Query} {r : Reply} {c : Client} {date : ℚ} {qrid : JsVal}
    (h : Act.poll c date qrid ∈ (onReply E env client q r).acts) :
    ∃ component v payload st password, q = .student component v (.transactions_poll payload) ∧
      r = .student (some st) ∧ payload.prop "password" = .ok password ∧
        check_password E st password = .ok true ∧ payload.prop "qrid" = .ok qrid ∧
          (∃ key, qrid.toStr = .ok key) ∧ c = { client with auth := some st._id } := by
  cases hm : q.moves with
  | true => exact absurd rfl (not_poll_of_moves hm h c date qrid)
  | false =>
      cases hp : q.polls with
      | false => exact ((idle_onReply E env client hm hp r).acts _ h).2.elim
      | true =>
          cases q with
          | student component v cb =>
              cases cb with
              | transactions_poll payload =>
                  cases r with
                  | student st =>
                      rcases mem_transactions_poll_cb h with ⟨m, -, ha⟩ |
                        ⟨s, password, d, k, rfl, hpassword, hok, hqrid, hkey, ha⟩
                      · cases ha
                      · cases ha
                        exact ⟨component, v, payload, s, password, rfl, rfl, hpassword, hok,
                          hqrid, hkey, rfl⟩
                  | _ => cases h
              | _ => cases hp
          | _ => cases hp

/-- The act is a part of `transactions_poll`. -/
def Act.OfPoll : Act → Prop
  | .invoke _ _ => True
  | .answer _ m => m.isList = false
  | .query _ q => q.polls = true
  | .poll _ _ _ => True
  | _ => False

theorem isList_eq_false_of_isError {m : Answer} (h : m.isError = true) : m.isList = false := by
  cases m with
  | transactions l => cases h
  | _ => rfl

theorem ofPoll_prepare_action {post : String}
    (h : a ∈ (prepare_action E K env client "transactions_poll" post).acts) : a.OfPoll := by
  rcases mem_prepare_action h with ⟨m, hm, rfl⟩ | ⟨payload, rfl⟩ | ⟨b, payload, ⟨hb, -⟩, ha⟩
  · exact isList_eq_false_of_isError hm
  · trivial
  · have hname : actions "transactions_poll" = some (.action .transactions_poll) := rfl
    cases hname.symm.trans hb
    obtain ⟨qrid, -, ha⟩ := JS.mem_lift_bind_acts.mp ha
    cases List.mem_singleton.mp ha
    rfl

theorem ofPoll_onReply {q : Query} {r : Reply} (hq : q.polls = true)
    (h : a ∈ (onReply E env client q r).acts) : a.OfPoll := by
  cases q with
  | student component v cb =>
      cases cb with
      | transactions_poll payload =>
          cases r with
          | student st =>
              rcases mem_transactions_poll_cb h with ⟨m, hm, rfl⟩ |
                ⟨s, password, date, qrid, -, -, -, -, -, rfl⟩
              · exact hm
              · trivial
          | _ => cases h
      | _ => cases hq
  | _ => cases hq

end SchuleAlsStaat
