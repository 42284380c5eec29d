import SchuleAlsStaat.Actions.Permits
import SchuleAlsStaat.Server.Bank
import SchuleAlsStaat.Server.Records
import SchuleAlsStaat.Server.Traced

/-!
# Who may change the database

Every call to the database is issued for a request that was accepted for the
action the call belongs to, with the certificate that the action needs.  So each
part of the database stays as it was until such a request arrives: `Authorized`.
-/

namespace SchuleAlsStaat.Server

open Runs (Run AnyRun exec exists_run_of_exec)
open Calls (mem_of_getElem?)

variable {E : Ext} {K : Keys} {S : Students} {L : Ledger} {s s' : State}

/-! ## Requests that were accepted -/

/-- A request has arrived that names the action and has a certificate for it. -/
def Used (E : Ext) (K : Keys) (s : State) (b : ActionName) : Prop :=
  ∃ q ∈ s.received, Dispatched E K q.name q.post b

theorem Used.step {b : ActionName} (h : Used E K s b) {e : Event}
    (hs : Server.step E K s e = some s') : Used E K s' b := by
  obtain ⟨q, hq, hd⟩ := h
  obtain ⟨r, hr⟩ := List.getElem?_of_mem hq
  exact ⟨q, mem_of_getElem? (received_step hs hr), hd⟩

/-- The request answers, or it was accepted for the action that issues the act. -/
def Permitted (E : Ext) (K : Keys) (q : Received) (a : Act) : Prop :=
  (∃ client m, a = .answer client m) ∨ (∃ name payload, a = .invoke name payload) ∨
    ∃ b, Dispatched E K q.name q.post b ∧ b.Issues a

theorem permitted_prepare_action {env : Env} {client : Client} {name post : String} {a : Act}
    (h : a ∈ (prepare_action E K env client name post).acts) :
    Permitted E K ⟨name, post⟩ a := by
  rcases mem_prepare_action h with ⟨m, -, rfl⟩ | ⟨payload, rfl⟩ | ⟨b, payload, hd, hb⟩
  · exact .inl ⟨client, m, rfl⟩
  · exact .inr (.inl ⟨name, payload, rfl⟩)
  · exact .inr (.inr ⟨b, hd, does_run b a hb⟩)

theorem permitted_onReply {env : Env} {client : Client} {query : Query} {r : Reply}
    {q : Received} {a : Act} (hq : Permitted E K q (.query client query))
    (h : a ∈ (onReply E env client query r).acts) : Permitted E K q a := by
  rcases hq with ⟨_, _, hq⟩ | ⟨_, _, hq⟩ | ⟨b, hd, hb⟩
  · cases hq
  · cases hq
  · exact .inr (.inr ⟨b, hd, does_onReply hb r a h⟩)

theorem permitted_step (h : Traced (Permitted E K) L s) {e : Event}
    (hs : step E K s e = some s') : Traced (Permitted E K) L s' :=
  h.step (fun _ _ _ _ _ _ ha => permitted_prepare_action ha)
    (fun _ _ _ _ _ _ _ _ _ hq _ ha => permitted_onReply hq ha) hs

/-- A request that was accepted for an action that moves money. -/
def PaidFor (E : Ext) (K : Keys) (s : State) (client : Client) : Prop :=
  ∃ q b, s.received[client.req]? = some q ∧ Dispatched E K q.name q.post (.money b)

/-- What is written was handed over for such a request. -/
theorem paidFor_of_write (h : Traced (Permitted E K) L s) {c : Pending.WriteCall}
    (hc : c ∈ s.bank.writes) : PaidFor E K s c.answer := by
  have money : ∀ {b : ActionName}, b.moves = true → ∃ m, b = .money m := by
    intro b hb
    cases b with
    | money m => exact ⟨m, rfl⟩
    | _ => cases hb
  rcases h.bank.written hc with ⟨_, q, hq, hp⟩ | ⟨q, hq, hp⟩
  all_goals
    rcases hp with ⟨_, _, hp⟩ | ⟨_, _, hp⟩ | ⟨b, hd, hb⟩
    · cases hp
    · cases hp
    · obtain ⟨m, rfl⟩ := money hb
      exact ⟨q, m, hq, hd⟩

/-- A call belongs to an action that its request was accepted for. -/
theorem accepted_of_call (h : Traced (Permitted E K) L s) {c : Call} (hc : c ∈ s.calls) :
    ∃ q b, s.received[c.client.req]? = some q ∧ Dispatched E K q.name q.post b ∧
      c.query.belongs b = true := by
  obtain ⟨q, hq, hperm⟩ := h.calls c hc
  rcases hperm with ⟨_, _, hq'⟩ | ⟨_, _, hq'⟩ | ⟨b, hd, hb⟩
  · cases hq'
  · cases hq'
  · exact ⟨q, b, hq, hd, hb⟩

theorem used_of_call (h : Traced (Permitted E K) L s) {c : Call} (hc : c ∈ s.calls) :
    ∃ b, Used E K s b ∧ c.query.belongs b = true := by
  obtain ⟨q, b, hq, hd, hb⟩ := accepted_of_call h hc
  exact ⟨b, ⟨q, mem_of_getElem? hq, hd⟩, hb⟩

/-! ## What stays -/

/-- The password of a record, as a hash with its salt. -/
def passwordOf (st : Student) : Option String × Option String := (st.pwdhash, st.pwdsalt)

/-- Each part of the database is as it was in `S` and `L`, or a request was
accepted for an action that changes it.  What was added to the ledger are the
writes, each for a request that was accepted for an action that moves money, and
an insert into the configuration log is for one that was accepted for it. -/
structure Authorized (E : Ext) (K : Keys) (S : Students) (L : Ledger) (s : State) : Prop where
  added : Used E K s .register_student ∨ ∀ st ∈ s.students, ∃ st₀ ∈ S, st₀._id = st._id
  removed : Used E K s .student_delete ∨ ∀ st₀ ∈ S, ∃ st ∈ s.students, st._id = st₀._id
  profile : Used E K s .profile_edit ∨ Keeps student_public_fields S s.students
  password : Used E K s .password_change ∨ Used E K s .password_change_master ∨
    Keeps passwordOf S s.students
  appear : Used E K s .ec_checkin ∨ Used E K s .ec_checkout ∨ Keeps Student.appear S s.students
  transactions : Pending.Composed (Used E K s .transaction_delete) L s.bank
  written : ∀ c ∈ s.bank.writes, PaidFor E K s c.answer
  config : ∀ c ∈ s.calls, ∀ key value, c.query = .setConfig key value →
    ∃ q, s.received[c.client.req]? = some q ∧
      (Dispatched E K q.name q.post .config_set ∨ Dispatched E K q.name q.post .config_del)

/-! ## Which calls write a field -/

theorem leaves_profile (E : Ext) (q : Query) : Leaves E student_public_fields q ∨
    ∃ id key value, q = .saveStudent id (.profile key value) := by
  cases q with
  | saveStudent id u =>
      cases u with
      | profile key value => exact .inr ⟨id, key, value, rfl⟩
      | password hash salt =>
          refine .inl fun st st' h => ?_
          cases h
          rfl
  | addAppear qrid spec => exact .inl fun _ => rfl
  | _ => exact .inl trivial

theorem leaves_password (E : Ext) (q : Query) : Leaves E passwordOf q ∨
    ∃ id hash salt, q = .saveStudent id (.password hash salt) := by
  cases q with
  | saveStudent id u =>
      cases u with
      | profile key value =>
          refine .inl fun st st' h => ?_
          cases key <;>
            (obtain ⟨v, -, rfl⟩ := Option.map_eq_some_iff.mp h
             rfl)
      | password hash salt => exact .inr ⟨id, hash, salt, rfl⟩
  | addAppear qrid spec => exact .inl fun _ => rfl
  | _ => exact .inl trivial

theorem leaves_appear (E : Ext) (q : Query) : Leaves E Student.appear q ∨
    ∃ qrid spec, q = .addAppear qrid spec := by
  cases q with
  | saveStudent id u => exact .inl fun st st' h => StudentUpdate.apply_appear h
  | addAppear qrid spec => exact .inr ⟨qrid, spec, rfl⟩
  | _ => exact .inl trivial

/-! ## Steps -/

/-- What an executed call leaves, or that a request was accepted for its action. -/
theorem kept_or_used {α : Type} {f : Student → α} {U : Prop}
    (htraced : Traced (Permitted E K) L s) (hS : ∀ st₀ ∈ S, st₀._id < s.nextStudent) {c : Call}
    (hc : c ∈ s.calls) {r : Reply} {T : Students} {m : ObjectId} (ha : Alters E s c.query r T m)
    (hf : ∀ b, Used E K s b → c.query.belongs b = true → U ∨ Leaves E f c.query)
    (h : U ∨ Keeps f S s.students) : U ∨ Keeps f S T := by
  obtain ⟨b, hb, hbelongs⟩ := used_of_call htraced hc
  rcases h with h | h
  · exact .inl h
  · exact (hf b hb hbelongs).imp_right fun hq => h.alters hS hq ha

/-- The invariant of the proof. -/
structure Guarded (E : Ext) (K : Keys) (S : Students) (L : Ledger) (s : State) : Prop
    extends Authorized E K S L s where
  traced : Traced (Permitted E K) L s
  bound : ∀ st₀ ∈ S, st₀._id < s.nextStudent

namespace Guarded

theorem init (hS : S.Unique) (L : Ledger) : Guarded E K S L (State.init S L) := by
  have same : ∀ {α : Type} (f : Student → α), Keeps f S S := by
    intro α f st₀ hst₀ st hst hid
    rw [hS.eq_of_id hst hst₀ hid]
  exact {
    added := .inr fun st hst => ⟨st, hst, rfl⟩
    removed := .inr fun st hst => ⟨st, hst, rfl⟩
    profile := .inr (same _)
    password := .inr (.inr (same _))
    appear := .inr (.inr (same _))
    transactions := .init _ L
    written := fun c hc => absurd hc List.not_mem_nil
    config := fun c hc => absurd hc List.not_mem_nil
    traced := .init S L
    bound := (Indexed.init hS L).fresh }

variable {e : Event}

/-- The parts that only executed calls change. -/
theorem records (h : Guarded E K S L s) (hs : step E K s e = some s') :
    (Used E K s .register_student ∨ ∀ st ∈ s'.students, ∃ st₀ ∈ S, st₀._id = st._id) ∧
      (Used E K s .student_delete ∨ ∀ st₀ ∈ S, ∃ st ∈ s'.students, st._id = st₀._id) ∧
      (Used E K s .profile_edit ∨ Keeps student_public_fields S s'.students) ∧
      ((Used E K s .password_change ∨ Used E K s .password_change_master) ∨
        Keeps passwordOf S s'.students) ∧
      ((Used E K s .ec_checkin ∨ Used E K s .ec_checkout) ∨ Keeps Student.appear S s'.students) ∧
      ∀ st₀ ∈ S, st₀._id < s'.nextStudent := by
  rcases records_step hs with ⟨hstudents, hnext⟩ | ⟨n, r, c, -, hc, -, ha⟩
  · rw [hstudents, hnext]
    exact ⟨h.added, h.removed, h.profile, or_assoc.mpr h.password, or_assoc.mpr h.appear, h.bound⟩
  · have hmem := mem_of_getElem? hc
    obtain ⟨b, hb, hbelongs⟩ := used_of_call h.traced hmem
    refine ⟨?_, ?_, ?_, ?_, ?_, fun st₀ hst₀ => (h.bound st₀ hst₀).trans_le ha.next_le⟩
    · rcases h.added with hused | hadded
      · exact .inl hused
      · by_cases hq : ∃ info, c.query = .addStudent info
        · obtain ⟨info, hq⟩ := hq
          rw [hq] at hbelongs
          exact .inl (of_decide_eq_true hbelongs ▸ hb)
        · refine .inr fun st hst => ?_
          obtain ⟨t, ht, hid⟩ := ha.ids.1 (fun info hinfo => hq ⟨info, hinfo⟩) st hst
          obtain ⟨st₀, hst₀, hid₀⟩ := hadded t ht
          exact ⟨st₀, hst₀, hid₀.trans hid⟩
    · rcases h.removed with hused | hremoved
      · exact .inl hused
      · by_cases hq : ∃ id, c.query = .removeStudent id
        · obtain ⟨id, hq⟩ := hq
          rw [hq] at hbelongs
          exact .inl (of_decide_eq_true hbelongs ▸ hb)
        · refine .inr fun st₀ hst₀ => ?_
          obtain ⟨t, ht, hid⟩ := hremoved st₀ hst₀
          obtain ⟨st, hst, hid'⟩ := ha.ids.2 (fun id hid => hq ⟨id, hid⟩) t ht
          exact ⟨st, hst, hid'.trans hid⟩
    · refine kept_or_used h.traced h.bound hmem ha (fun b hb hbelongs => ?_) h.profile
      rcases leaves_profile E c.query with hq | ⟨id, key, value, hq⟩
      · exact .inr hq
      · rw [hq] at hbelongs
        exact .inl (of_decide_eq_true hbelongs ▸ hb)
    · refine kept_or_used h.traced h.bound hmem ha (fun b hb hbelongs => ?_)
        (or_assoc.mpr h.password)
      rcases leaves_password E c.query with hq | ⟨id, hash, salt, hq⟩
      · exact .inr hq
      · rw [hq] at hbelongs
        have hor : b = .password_change ∨ b = .password_change_master :=
          of_decide_eq_true hbelongs
        rcases hor with rfl | rfl
        · exact .inl (.inl hb)
        · exact .inl (.inr hb)
    · refine kept_or_used h.traced h.bound hmem ha (fun b hb hbelongs => ?_)
        (or_assoc.mpr h.appear)
      rcases leaves_appear E c.query with hq | ⟨qrid, spec, hq⟩
      · exact .inr hq
      · rw [hq] at hbelongs
        have hor : b = .ec_checkin ∨ b = .ec_checkout := of_decide_eq_true hbelongs
        rcases hor with rfl | rfl
        · exact .inl (.inl hb)
        · exact .inl (.inr hb)

/-- An entry is removed only for a request that was accepted. -/
theorem composed (h : Guarded E K S L s) (hs : step E K s e = some s') :
    Pending.Composed (Used E K s .transaction_delete) L s'.bank := by
  have hdelete : ∀ n k, e = .removeDb n k → Used E K s .transaction_delete := by
    rintro n k rfl
    cases step_cases hs with
    | @removeDb n k c id bank hc hp hq hb =>
        obtain ⟨b, hb, hbelongs⟩ := used_of_call h.traced (mem_of_getElem? hc)
        rw [hq] at hbelongs
        exact of_decide_eq_true hbelongs ▸ hb
  have hbank : ∀ b, e = .bank b → ∀ k, b ≠ .delete k := by
    rintro b rfl k rfl
    cases step_cases hs with
    | bank hi => cases hi
  have run : Run Pending.step (fun _ b => ∀ k, b = .delete k → Used E K s .transaction_delete)
      s.bank s'.bank :=
    bank_step (fun _ _ _ hnot k hk => absurd hk (hnot k))
      (fun b hb k hk => absurd hk (hbank b hb k)) (fun n k he _ _ => hdelete n k he) hs
  exact run.invariant h.transactions fun _ _ _ hc hok hs => hc.step hok hs

theorem step (h : Guarded E K S L s) (hs : Server.step E K s e = some s') :
    Guarded E K S L s' := by
  have htraced := permitted_step h.traced hs
  have keep : ∀ {b}, Used E K s b → Used E K s' b := fun hb => hb.step hs
  obtain ⟨hadded, hremoved, hprofile, hpassword, happear, hbound⟩ := h.records hs
  exact {
    added := hadded.imp_left keep
    removed := hremoved.imp_left keep
    profile := hprofile.imp_left keep
    password := or_assoc.mp (hpassword.imp_left (.imp keep keep))
    appear := or_assoc.mp (happear.imp_left (.imp keep keep))
    transactions := (h.composed hs).mono keep
    written := fun c hc => paidFor_of_write htraced hc
    config := fun c hc key value hq => by
      obtain ⟨q, b, hreceived, hd, hbelongs⟩ := accepted_of_call htraced hc
      rw [hq] at hbelongs
      have hor : b = .config_set ∨ b = .config_del := of_decide_eq_true hbelongs
      rcases hor with rfl | rfl
      · exact ⟨q, hreceived, .inl hd⟩
      · exact ⟨q, hreceived, .inr hd⟩
    traced := htraced
    bound := hbound }

end Guarded

/-- In every run each part of the database stays as it was, unless a request
arrives that was accepted for an action that changes it, with the certificate
which this action needs. -/
theorem changes_authorized (hS : S.Unique) (run : AnyRun (step E K) (State.init S L) s) :
    Authorized E K S L s := by
  have h : Guarded E K S L s :=
    run.invariant (Guarded.init hS L) fun _ _ _ ih _ hs => ih.step hs
  exact h.toAuthorized

section Sample

/-- A deletion with a certificate that does not match, a checkin, and money that is spawned. -/
def mixedKeys : Keys := .simple [
  ("delete", "\x7b\"cert\":\"ec_hash.\",\"payload\":\"1\"\x7d"),
  ("checkin", "\x7b\"cert\":\"ec_hash.\",\"payload\":\"1\"\x7d"),
  ("spawn", "\x7b\"cert\":\"master_hash.\",\"payload\":\x7b\"recipient\":\"1\",\"amount\":10\x7d\x7d")]

def incomeAccount : Student := { someStudent 2 with qrid := .str Config.defaults.taxinc_qrid }

/-- The three requests, which overlap. -/
def mixedEvents : List Event :=
  [.request 0 .start "spawn_money" (bodyOf "spawn"),
    .request 0 .start "student_delete" (bodyOf "delete"),
    .callDb 0 (.student (some incomeAccount)), .callReply 0 .start,
    .request 1 .start "ec_checkin" (bodyOf "checkin"),
    .callDb 1 (.student (some (someStudent 1))), .callDb 2 (.appear true), .callReply 1 .start,
    .bank (.writeDb 0 true), .callReply 2 .start, .bank (.writeReply 0)]

theorem changes_authorized_mixed : ∃ s, AnyRun (step Ext.simple mixedKeys)
    (State.init [someStudent 1, incomeAccount] []) s ∧
      (s.answers.map fun x => (x.1.req, x.2.isText "ok")) = [(1, false), (2, true)] ∧
      s.bank.transactions.map (·.recipient.reference) = [some 1] ∧
      Authorized Ext.simple mixedKeys [someStudent 1, incomeAccount] [] s := by
  have hexec : (exec (step Ext.simple mixedKeys) (fun _ _ => True)
      (State.init [someStudent 1, incomeAccount] []) mixedEvents).map
        (fun s => (s.answers.map fun x => (x.1.req, x.2.isText "ok"),
          s.bank.transactions.map (·.recipient.reference))) =
          some ([(1, false), (2, true)], [some 1]) := by decide +kernel
  have hS : Students.Unique [someStudent 1, incomeAccount] := by
    constructor <;> simp only [List.pairwise_pair] <;> decide
  obtain ⟨s, run, h⟩ := exists_run_of_exec mixedEvents hexec
  exact ⟨s, run, congrArg (·.1) h, congrArg (·.2) h, changes_authorized hS run⟩

end Sample

end SchuleAlsStaat.Server
