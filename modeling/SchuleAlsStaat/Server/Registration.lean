import Mathlib.Data.List.MinMax
import SchuleAlsStaat.Server.Asking

/-!
# Registration

Requests for `register_student` that run at the same time.  A request looks up a QR-ID,
the preset one or random ones until one is free, and then adds the record.  Other requests
may take the QR-ID in between, and then the unique index rejects the record.

`AllOrNothing` says that a request adds one record and answers "ok", or adds none and does
not answer "ok", and that no request alters a record.
-/

namespace SchuleAlsStaat

open Js (Json JsVal JS)

/-! ## Acts -/

section Acts

variable {E : Ext} {K : Keys} {env : Env} {client : Client} {payload : JsVal} {a : Act}

/-- The lookup of a random QR-ID. -/
def lookupRandom (env : Env) (payload : JsVal) : Query :=
  .student "stdb.getByQridLean" (some (.str env.qrid)) (.regStudent payload env.qrid)

theorem mem_addRegistered {qrid : JsVal} (h : a ∈ (addRegistered E env client payload qrid).acts) :
    ∃ info, a = .query client (.addStudent info) ∧ info.qrid = qrid := by
  rw [addRegistered] at h
  obtain ⟨_, -, h⟩ := JS.mem_lift_bind_acts.mp h
  obtain ⟨_, -, h⟩ := JS.mem_lift_bind_acts.mp h
  obtain ⟨_, -, h⟩ := JS.mem_lift_bind_acts.mp h
  obtain ⟨_, -, h⟩ := JS.mem_lift_bind_acts.mp h
  obtain ⟨_, -, h⟩ := JS.mem_lift_bind_acts.mp h
  obtain ⟨_, -, h⟩ := JS.mem_lift_bind_acts.mp h
  obtain ⟨_, -, h⟩ := JS.mem_lift_bind_acts.mp h
  obtain ⟨_, -, h⟩ := JS.mem_lift_bind_acts.mp h
  obtain ⟨_, -, h⟩ := JS.mem_lift_bind_acts.mp h
  exact ⟨_, List.mem_singleton.mp h, rfl⟩

/-- A preset QR-ID is taken, and otherwise a random one is looked up. -/
theorem mem_chooseQrid (h : a ∈ (chooseQrid E env client payload).acts) :
    ∃ preset, payload.prop "qrid" = .ok preset ∧
      ((preset.truthy = true ∧ ∃ info, a = .query client (.addStudent info) ∧ info.qrid = preset) ∨
        preset.truthy = false ∧ a = .query client (lookupRandom env payload)) := by
  obtain ⟨preset, hpreset, h⟩ := JS.mem_lift_bind_acts.mp h
  refine ⟨preset, hpreset, ?_⟩
  split at h
  next ht => exact .inl ⟨ht, mem_addRegistered h⟩
  next ht => exact .inr ⟨by simpa using ht, List.mem_singleton.mp h⟩

theorem mem_register_student (h : a ∈ (register_student E env client payload).acts) :
    ∃ preset, payload.prop "qrid" = .ok preset ∧
      ((preset.truthy = true ∧
          a = .query client (.student "stdb.getByQridLean" preset (.register_student payload))) ∨
        preset.truthy = false ∧ a = .query client (lookupRandom env payload)) := by
  obtain ⟨_, -, h⟩ := JS.mem_lift_bind_acts.mp h
  obtain ⟨_, -, h⟩ := JS.mem_lift_bind_acts.mp h
  obtain ⟨preset, hpreset, h⟩ := JS.mem_lift_bind_acts.mp h
  refine ⟨preset, hpreset, ?_⟩
  split at h
  next ht => exact .inl ⟨ht, List.mem_singleton.mp h⟩
  next ht =>
    obtain ⟨preset', hpreset', ⟨ht', -⟩ | h⟩ := mem_chooseQrid h
    · cases hpreset.symm.trans hpreset'
      exact absurd ht' ht
    · cases hpreset.symm.trans hpreset'
      exact .inr h

theorem mem_register_student_cb {st : Option Student}
    (h : a ∈ (register_student_cb E env payload client st).acts) :
    (∃ m, m.isError = true ∧ a = .answer client m) ∨
      st = none ∧ a ∈ (chooseQrid E env client payload).acts := by
  cases st with
  | none => exact .inr ⟨rfl, h⟩
  | some st =>
      obtain ⟨_, -, h⟩ := JS.mem_lift_bind_acts.mp h
      obtain ⟨qrid, -, h⟩ := JS.mem_lift_bind_acts.mp h
      rw [answer_acts] at h
      refine .inl ⟨_, ?_, List.mem_singleton.mp h⟩
      simp [Answer.isError, String.toList_append]

end Acts

namespace Server

open Runs (Run exec exists_run_of_exec)
open Calls (Phase countP_set forall_mem_concat forall_mem_set mem_of_getElem?)

/-! ## All or nothing -/

/-- The record that a call has added. -/
def Call.added (c : Call) : Option Student :=
  match c.query, c.phase.outcome with
  | .addStudent _, some (some (.added st)) => some st
  | _, _ => none

/-- The QR-ID that a request may register: the preset one, or a random one that a lookup of
the request has found to be free. -/
def Chosen (K : Keys) (received : List Received) (calls : List Call) (r : ReqId) (v : JsVal) :
    Prop :=
  ∃ q payload preset, received[r]? = some q ∧ payloadOf K q.post = .ok payload ∧
    payload.prop "qrid" = .ok preset ∧
      ((preset.truthy = true ∧ v = preset) ∨ (preset.truthy = false ∧
        ∃ c ∈ calls, ∃ component g, c.client.req = r ∧
          c.query = .student component (some (.str g)) (.regStudent payload g) ∧
            c.phase = .done (some (.student none)) ∧ v = some (.str g)))

/-- The requests for registration have registered all or nothing, starting with the
students `S`. -/
structure AllOrNothing (E : Ext) (K : Keys) (S : Students) (s : State) : Prop where
  /-- The records that were there are unaltered, and the others are those of the requests. -/
  records : ∃ l, s.students = S ++ l ∧ l.Perm (s.calls.filterMap Call.added)
  once : ∀ r, (s.calls.countP fun c => c.client.req = r && c.added.isSome) ≤ 1
  answered : ∀ r, answersTo s r ≤ 1
  ok : ∀ x ∈ s.answers, x.2 = .ok ↔ ∃ c ∈ s.calls, c.client.req = x.1.req ∧ c.added.isSome
  told : ∀ c ∈ s.calls, c.added.isSome → c.phase.open? = false → (c.client, .ok) ∈ s.answers
  qrid : ∀ c ∈ s.calls, ∀ info st, c.query = .addStudent info → c.added = some st →
    Chosen K s.received s.calls c.client.req info.qrid ∧ E.castString info.qrid = some st.qrid ∧
      st ∈ s.students ∧ ∀ t ∈ s.students, t.qrid.toOption = st.qrid.toOption → t = st

/-! ## Requests and callbacks -/

section Acts

variable {E : Ext} {K : Keys} {env : Env} {client : Client} {a : Act} {q : Received}

/-- The payload of a request and the QR-ID that it presets. -/
def Preset (K : Keys) (q : Received) (payload preset : JsVal) : Prop :=
  payloadOf K q.post = .ok payload ∧ payload.prop "qrid" = .ok preset

/-- The act is a part of the registration that `q` asks for. -/
def Registers (K : Keys) (q : Received) : Act → Prop
  | .invoke _ _ => True
  | .answer _ _ => True
  | .query _ (.student _ _ (.register_student payload)) => payloadOf K q.post = .ok payload
  | .query _ (.student _ qrid (.regStudent payload g)) =>
      qrid = some (.str g) ∧ ∃ preset, Preset K q payload preset ∧ preset.truthy = false
  | .query _ (.addStudent info) =>
      ∃ payload preset, Preset K q payload preset ∧ (preset.truthy = true → info.qrid = preset)
  | _ => False

theorem Registers.asks (h : Registers K q a) : a.Asks := by
  cases a with
  | query client query =>
      intro id hid
      rw [hid] at h
      exact h.elim
  | getBalance | intent | spawn | poll => exact h.elim
  | _ => trivial

/-- A request is answered an error or leads to a lookup. -/
theorem mem_request {post : String}
    (h : a ∈ (prepare_action E K env client "register_student" post).acts) :
    (∃ m, m.isError = true ∧ a = .answer client m) ∨
      (∃ payload, a = .invoke "register_student" payload) ∨
      ∃ component v cb, a = .query client (.student component v cb) ∧
        Registers K ⟨"register_student", post⟩ a := by
  rcases mem_prepare_action_payload h with h | h | ⟨b, payload, ⟨hb, -⟩, hpayload, h⟩
  · exact .inl h
  · exact .inr (.inl h)
  · have hname : actions "register_student" = some (.action .register_student) := rfl
    cases hname.symm.trans hb
    obtain ⟨preset, hpreset, ⟨-, rfl⟩ | ⟨ht, rfl⟩⟩ := mem_register_student h
    · exact .inr (.inr ⟨_, _, _, rfl, hpayload⟩)
    · exact .inr (.inr ⟨_, _, _, rfl, rfl, preset, ⟨hpayload, hpreset⟩, ht⟩)

/-- What the callbacks of a registration do. -/
inductive Continues (K : Keys) (env : Env) (client : Client) (q : Received) (query : Query)
    (r : Reply) : Act → Prop where
  | error {m : Answer} : m.isError = true → Continues K env client q query r (.answer client m)
  | ok {info : NewStudent} {st : Student} : query = .addStudent info → r = .added st →
      Continues K env client q query r (.answer client .ok)
  | lookup {payload preset : JsVal} : Preset K q payload preset → preset.truthy = false →
      Continues K env client q query r (.query client (lookupRandom env payload))
  | addPreset {info : NewStudent} {payload preset : JsVal} : Preset K q payload preset →
      preset.truthy = true → info.qrid = preset →
        Continues K env client q query r (.query client (.addStudent info))
  | addRandom {info : NewStudent} {payload preset : JsVal} {component g : String} :
      Preset K q payload preset → preset.truthy = false →
        query = .student component (some (.str g)) (.regStudent payload g) →
          r = .student none → info.qrid = some (.str g) →
            Continues K env client q query r (.query client (.addStudent info))

theorem continues_chooseQrid {query : Query} {r : Reply} {payload : JsVal}
    (hq : payloadOf K q.post = .ok payload) (h : a ∈ (chooseQrid E env client payload).acts) :
    Continues K env client q query r a := by
  obtain ⟨preset, hpreset, ⟨ht, info, rfl, hinfo⟩ | ⟨ht, rfl⟩⟩ := mem_chooseQrid h
  · exact .addPreset ⟨hq, hpreset⟩ ht hinfo
  · exact .lookup ⟨hq, hpreset⟩ ht

theorem continues_onReply {query : Query} {r : Reply} (hq : Registers K q (.query client query))
    (h : a ∈ (onReply E env client query r).acts) : Continues K env client q query r a := by
  cases query with
  | student component v cb =>
      cases r with
      | student st =>
          cases cb with
          | register_student payload =>
              rcases mem_register_student_cb h with ⟨m, hm, rfl⟩ | ⟨-, h⟩
              · exact .error hm
              · exact continues_chooseQrid hq h
          | regStudent payload g =>
              obtain ⟨rfl, preset, hpreset, ht⟩ := hq
              cases st with
              | some st => exact continues_chooseQrid hpreset.1 h
              | none =>
                  obtain ⟨info, rfl, hinfo⟩ := mem_addRegistered h
                  exact .addRandom hpreset ht rfl rfl hinfo
          | _ => exact hq.elim
      | _ => cases h
  | addStudent info =>
      cases r with
      | added st =>
          have h : a ∈ (answer client .ok).acts := h
          rw [answer_acts] at h
          rw [List.mem_singleton.mp h]
          exact .ok rfl rfl
      | _ => cases h
  | _ => exact hq.elim

theorem Continues.registers {query : Query} {r : Reply} (h : Continues K env client q query r a) :
    Registers K q a := by
  cases h with
  | error | ok => trivial
  | lookup hp ht => exact ⟨rfl, _, hp, ht⟩
  | addPreset hp ht hinfo => exact ⟨_, _, hp, fun _ => hinfo⟩
  | addRandom hp ht _ _ hinfo =>
      refine ⟨_, _, hp, fun ht' => ?_⟩
      rw [ht] at ht'
      cases ht'

end Acts

/-! ## Calls that add a record -/

section Added

variable {K : Keys} {c : Call} {st : Student}

theorem Call.added_eq_some : c.added = some st ↔
    ∃ info, c.query = .addStudent info ∧ c.phase.outcome = some (some (.added st)) := by
  rw [Call.added]
  split
  next info st' hq hp => simp [hq, hp]
  next hne =>
    refine iff_of_false (by simp) ?_
    rintro ⟨info, hq, hp⟩
    exact hne info st hq hp

/-- The callback keeps the outcome. -/
theorem Call.added_done {v : Option Reply} (hp : c.phase = .replied v) :
    Call.added { c with phase := .done v } = c.added := by
  rw [Call.added, Call.added, hp]
  rfl

theorem Call.added_sent (hp : c.phase = .sent) : c.added = none := by
  rw [Option.eq_none_iff_forall_ne_some]
  intro st hst
  obtain ⟨info, -, h⟩ := Call.added_eq_some.mp hst
  rw [hp] at h
  cases h

/-- The call is an insert whose callback has run. -/
def Call.closedAdd (c : Call) : Bool :=
  match c.query with
  | .addStudent _ => !c.phase.open?
  | _ => false

theorem Chosen.mono {received received' : List Received} {calls calls' : List Call} {r : ReqId}
    {v : JsVal} (h : Chosen K received calls r v)
    (hr : ∀ q, received[r]? = some q → received'[r]? = some q)
    (hc : ∀ c ∈ calls, c.phase.open? = false → c ∈ calls') : Chosen K received' calls' r v := by
  obtain ⟨q, payload, preset, hq, hpayload, hpreset, hv⟩ := h
  refine ⟨q, payload, preset, hr q hq, hpayload, hpreset, hv.imp_right ?_⟩
  rintro ⟨ht, c, hcs, component, g, hreq, hquery, hp, hv⟩
  exact ⟨ht, c, hc c hcs (by rw [hp]; rfl), component, g, hreq, hquery, hp, hv⟩

/-- Calls that are done stay when another one changes. -/
theorem done_mem_set {calls : List Call} {n : ℕ} {c d : Call} (hc : calls[n]? = some c)
    (hp : c.phase.open? = true) : ∀ x ∈ calls, x.phase.open? = false → x ∈ calls.set n d := by
  intro x hx hdone
  refine Calls.mem_set_of_ne d hc hx ?_
  rintro rfl
  rw [hp] at hdone
  cases hdone

end Added

/-! ## The invariant -/

section Invariant

variable {E : Ext} {K : Keys} {S : Students} {L : Ledger} {s s' : State}

/-- What the inserts of a run have done. -/
structure Registering (E : Ext) (K : Keys) (S : Students) (s : State) : Prop where
  unique : s.students.Unique
  fresh : ∀ st ∈ s.students, st._id < s.nextStudent
  records : ∃ l, s.students = S ++ l ∧ l.Perm (s.calls.filterMap Call.added)
  chosen : ∀ c ∈ s.calls, ∀ info, c.query = .addStudent info →
    Chosen K s.received s.calls c.client.req info.qrid
  added : ∀ c ∈ s.calls, ∀ info r, c.query = .addStudent info →
    c.phase.outcome = some (some r) →
      ∃ st, r = .added st ∧ E.castString info.qrid = some st.qrid ∧ st ∈ s.students
  closed : ∀ r, (s.calls.countP fun c => c.client.req = r && c.closedAdd) ≤
    answersFor s.answers r
  told : ∀ c ∈ s.calls, c.added.isSome → c.phase.open? = false → (c.client, .ok) ∈ s.answers
  oks : ∀ x ∈ s.answers, x.2 = .ok → ∃ c ∈ s.calls, c.client.req = x.1.req ∧ c.added.isSome

namespace Registering

theorem init (h : S.Unique) (L : Ledger) : Registering E K S (State.init S L) where
  unique := h
  fresh _ hst := Nat.lt_succ_of_le (List.le_max_of_le' 0 (List.mem_map_of_mem hst) le_rfl)
  records := ⟨[], (List.append_nil S).symm, .nil⟩
  chosen c hc := by cases hc
  added c hc := by cases hc
  closed r := Nat.zero_le _
  told c hc := by cases hc
  oks x hx := by cases hx

theorem receive (h : Registering E K S s) (q : Received) :
    Registering E K S { s with received := s.received ++ [q] } where
  unique := h.unique
  fresh := h.fresh
  records := h.records
  chosen c hc info hq := (h.chosen c hc info hq).mono
    (fun _ hq' => Calls.getElem?_append_of_some hq' [q]) fun _ hx _ => hx
  added := h.added
  closed := h.closed
  told := h.told
  oks := h.oks

section Set

variable (h : Registering E K S s) {n : ℕ} {c d : Call} (hc : s.calls[n]? = some c)
  (hclient : d.client = c.client)

include h hc hclient

/-- The QR-ID of an insert was chosen, whatever else happens to the calls. -/
theorem chosen_set (hopen : c.phase.open? = true) (hquery : d.query = c.query) :
    ∀ x ∈ s.calls.set n d, ∀ info, x.query = .addStudent info →
      Chosen K s.received (s.calls.set n d) x.client.req info.qrid := by
  have hold : ∀ x ∈ s.calls, ∀ info, x.query = .addStudent info →
      Chosen K s.received (s.calls.set n d) x.client.req info.qrid :=
    fun x hx info hq => (h.chosen x hx info hq).mono (fun _ h => h) (done_mem_set hc hopen)
  refine forall_mem_set n hold fun info hq => ?_
  rw [hclient]
  exact hold c (mem_of_getElem? hc) info (hquery ▸ hq)

omit hclient in
/-- An insert that is not done with does not count. -/
theorem closed_set (hclosed : d.closedAdd = false) (r : ReqId) :
    ((s.calls.set n d).countP fun c => c.client.req = r && c.closedAdd) ≤
      answersFor s.answers r := by
  have hcount := countP_set (fun c : Call => c.client.req = r && c.closedAdd) hc d
  have hle := h.closed r
  simp only [hclosed, Bool.and_false, Bool.false_eq_true, if_false, add_zero] at hcount
  omega

/-- What was inserted stays inserted. -/
theorem oks_set (hadded : c.added.isSome → d.added.isSome) : ∀ x ∈ s.answers, x.2 = .ok →
    ∃ e ∈ s.calls.set n d, e.client.req = x.1.req ∧ e.added.isSome := by
  intro x hx hok
  obtain ⟨e, he, hreq, hsome⟩ := h.oks x hx hok
  by_cases hne : e = c
  · subst hne
    exact ⟨d, Calls.mem_set_self d hc, by rw [hclient, hreq], hadded hsome⟩
  · exact ⟨e, Calls.mem_set_of_ne d hc he hne, hreq, hsome⟩

end Set

/-- A call that inserts nothing changes. -/
theorem records_set (h : Registering E K S s) {n : ℕ} {c d : Call} (hc : s.calls[n]? = some c)
    (hadded : d.added = c.added) :
    ∃ l, s.students = S ++ l ∧ l.Perm ((s.calls.set n d).filterMap Call.added) := by
  obtain ⟨l, hl, hperm⟩ := h.records
  exact ⟨l, hl, by rwa [Calls.filterMap_set Call.added hc hadded]⟩

/-- A call changes its phase, and is not an insert that is done with it. -/
theorem setCall (h : Registering E K S s) {n : ℕ} {c d : Call} (hc : s.calls[n]? = some c)
    (hopen : c.phase.open? = true) (hclient : d.client = c.client) (hquery : d.query = c.query)
    (hadded : d.added = c.added) (hclosed : d.closedAdd = false)
    (hout : ∀ info r, c.query = .addStudent info → d.phase.outcome = some (some r) →
      c.phase.outcome = some (some r)) :
    Registering E K S { s with calls := s.calls.set n d } where
  unique := h.unique
  fresh := h.fresh
  records := h.records_set hc hadded
  chosen := h.chosen_set hc hclient hopen hquery
  added := by
    refine forall_mem_set n h.added fun info r hq hr => ?_
    rw [hquery] at hq
    exact h.added c (mem_of_getElem? hc) info r hq (hout info r hq hr)
  closed := h.closed_set hc hclosed
  told := by
    refine forall_mem_set n h.told fun hsome hdone => ?_
    rw [hadded] at hsome
    obtain ⟨st, hst⟩ := Option.isSome_iff_exists.mp hsome
    obtain ⟨info, hq, -⟩ := Call.added_eq_some.mp hst
    simp [Call.closedAdd, hquery, hq, hdone] at hclosed
  oks := h.oks_set hc hclient fun hsome => hadded ▸ hsome

/-- A call replies, and inserts nothing. -/
theorem replied (h : Registering E K S s) {n : ℕ} {c : Call} {v : Option Reply}
    (hc : s.calls[n]? = some c) (hp : c.phase = .sent)
    (hv : ∀ info, c.query = .addStudent info → v = none) :
    Registering E K S { s with calls := s.calls.set n { c with phase := .replied v } } := by
  refine h.setCall hc (by rw [hp]; rfl) rfl rfl ?_ ?_ ?_
  · rw [Call.added_sent hp, Option.eq_none_iff_forall_ne_some]
    intro st hst
    obtain ⟨info, hq, hout⟩ := Call.added_eq_some.mp hst
    rw [hv info hq] at hout
    cases hout
  · rw [Call.closedAdd]
    split <;> rfl
  · intro info r hq hout
    rw [hv info hq] at hout
    cases hout

/-- An act of a registration. -/
def Allowed (K : Keys) (s : State) : Act → Prop
  | .invoke _ _ => True
  | .answer _ m => m.isError = true
  | .query _ (.student _ _ _) => True
  | .query client (.addStudent info) => Chosen K s.received s.calls client.req info.qrid
  | _ => False

theorem concatCall (h : Registering E K S s) {c : Call} (hp : c.phase = .sent)
    (hchosen : ∀ info, c.query = .addStudent info →
      Chosen K s.received s.calls c.client.req info.qrid) :
    Registering E K S { s with calls := s.calls ++ [c] } := by
  have hadded := Call.added_sent hp
  have hstay : ∀ x ∈ s.calls, x.phase.open? = false → x ∈ s.calls ++ [c] :=
    fun x hx _ => List.mem_append_left _ hx
  refine ⟨h.unique, h.fresh, ?_, ?_, ?_, ?_, ?_, ?_⟩
  · obtain ⟨l, hl, hperm⟩ := h.records
    refine ⟨l, hl, ?_⟩
    show l.Perm ((s.calls ++ [c]).filterMap Call.added)
    rwa [List.filterMap_append, List.filterMap_cons_none hadded, List.filterMap_nil,
      List.append_nil]
  · exact forall_mem_concat
      (fun x hx info hq => (h.chosen x hx info hq).mono (fun _ h => h) hstay)
      fun info hq => (hchosen info hq).mono (fun _ h => h) hstay
  · refine forall_mem_concat h.added fun info r _ hr => ?_
    rw [hp] at hr
    cases hr
  · intro r
    have hclosed : c.closedAdd = false := by
      rw [Call.closedAdd, hp]
      split <;> rfl
    show (s.calls ++ [c]).countP (fun c : Call => c.client.req = r && c.closedAdd) ≤
      answersFor s.answers r
    rw [List.countP_append, List.countP_singleton, hclosed, Bool.and_false]
    exact h.closed r
  · refine forall_mem_concat h.told fun hsome => ?_
    rw [hadded] at hsome
    cases hsome
  · intro x hx hok
    obtain ⟨d, hd, hreq, hsome⟩ := h.oks x hx hok
    exact ⟨d, List.mem_append_left _ hd, hreq, hsome⟩

/-- An answer other than "ok". -/
theorem sendError (h : Registering E K S s) (client : Client) {m : Answer} (hm : m.isError = true) :
    Registering E K S (s.send client m) := by
  refine ⟨h.unique, h.fresh, h.records, h.chosen, h.added, ?_, ?_, ?_⟩
  · intro r
    have hle := h.closed r
    simp only [State.send, answersFor_concat]
    omega
  · exact fun c hc hsome hdone => List.mem_append_left _ (h.told c hc hsome hdone)
  · refine forall_mem_concat h.oks fun hok => ?_
    rw [show m = .ok from hok] at hm
    cases hm

theorem perform (h : Registering E K S s) {a : Act} (ha : Allowed K s a) (w : WorkerId)
    (now : Time) : Registering E K S (s.perform w now a) := by
  cases a with
  | invoke => exact h
  | answer client m => exact h.sendError client ha
  | query client q =>
      refine h.concatCall (c := ⟨w, client, q, .sent⟩) rfl fun info hq => ?_
      cases hq
      exact ha
  | getBalance | intent | spawn | poll => exact ha.elim

/-- What is allowed stays allowed. -/
theorem Allowed.perform {a b : Act} (hb : Allowed K s b) (w : WorkerId) (now : Time) :
    Allowed K (s.perform w now a) b := by
  cases b with
  | query client q =>
      cases q with
      | addStudent info =>
          refine Chosen.mono hb (fun q hq => ?_) fun c hc _ => ?_
          · exact (congrArg (·[client.req]?) (State.performAll_frame w now [a] s).1).trans hq
          · have hcalls := State.performAll_calls w now s [a]
            show c ∈ (s.performAll w now [a]).calls
            rw [hcalls]
            exact List.mem_append_left _ hc
      | _ => exact hb
  | _ => exact hb

theorem performAll (h : Registering E K S s) {acts : List Act} (hacts : ∀ a ∈ acts, Allowed K s a)
    (w : WorkerId) (now : Time) : Registering E K S (s.performAll w now acts) := by
  induction acts generalizing s with
  | nil => exact h
  | cons a acts ih =>
      refine ih (h.perform (hacts a (List.mem_cons_self ..)) w now) fun b hb => ?_
      exact (hacts b (List.mem_cons_of_mem _ hb)).perform w now

/-- The callback of an insert answers. -/
theorem closeAdd (h : Registering E K S s) {n : ℕ} {c : Call} {info : NewStudent}
    {v : Option Reply} {m : Answer} (hc : s.calls[n]? = some c) (hq : c.query = .addStudent info)
    (hp : c.phase = .replied v)
    (hm : (∃ st, v = some (.added st) ∧ m = .ok) ∨ v = none ∧ m.isError = true) :
    Registering E K S
      (State.send { s with calls := s.calls.set n { c with phase := .done v } } c.client m) := by
  have hadded := Call.added_done hp
  have hopen : c.phase.open? = true := by rw [hp]; rfl
  refine ⟨h.unique, h.fresh, h.records_set hc hadded, h.chosen_set hc rfl hopen rfl, ?_, ?_, ?_, ?_⟩
  · refine forall_mem_set n h.added fun info r hq hr => h.added c (mem_of_getElem? hc) info r hq ?_
    rw [hp]
    exact hr
  · intro r
    have hcount := countP_set (fun c : Call => c.client.req = r && c.closedAdd) hc
      { c with phase := .done v }
    have hbefore : c.closedAdd = false := by simp [Call.closedAdd, hq, hp]
    have hafter : Call.closedAdd { c with phase := .done v } = true := by simp [Call.closedAdd, hq]
    have hle := h.closed r
    simp only [hbefore, hafter, Bool.and_false, Bool.and_true, Bool.false_eq_true, if_false,
      add_zero, decide_eq_true_eq] at hcount
    simp only [State.send, answersFor_concat, hcount]
    omega
  · refine forall_mem_set n (fun x hx hsome hdone => ?_) fun hsome _ => ?_
    · exact List.mem_append_left _ (h.told x hx hsome hdone)
    · obtain ⟨st, hst⟩ := Option.isSome_iff_exists.mp hsome
      obtain ⟨info, -, hout⟩ := Call.added_eq_some.mp hst
      cases Option.some.inj hout
      obtain ⟨-, -, rfl⟩ | ⟨hnone, -⟩ := hm
      · exact List.mem_append_right _ (List.mem_singleton_self _)
      · cases hnone
  · refine forall_mem_concat (h.oks_set hc rfl fun hsome => hadded ▸ hsome) fun hok => ?_
    obtain ⟨st, rfl, -⟩ | ⟨-, herror⟩ := hm
    · refine ⟨_, Calls.mem_set_self _ hc, rfl, ?_⟩
      rw [Option.isSome_iff_exists]
      exact ⟨st, Call.added_eq_some.mpr ⟨info, hq, rfl⟩⟩
    · rw [show m = .ok from hok] at herror
      cases herror

/-- An insert is executed. -/
theorem insert (h : Registering E K S s) {n : ℕ} {c : Call} {info : NewStudent} {st : Student}
    {T : Students} (hc : s.calls[n]? = some c) (hq : c.query = .addStudent info)
    (hp : c.phase = .sent) (hcast : info.cast E s.nextStudent = some st)
    (hins : s.students.insert st = some T) :
    Registering E K S { s with
      students := T
      nextStudent := s.nextStudent + 1
      calls := s.calls.set n { c with phase := .replied (some (.added st)) } } := by
  obtain ⟨hid, hqrid⟩ := NewStudent.cast_eq_some hcast
  obtain ⟨-, rfl⟩ := Students.insert_eq_some hins
  have hadded : Call.added { c with phase := .replied (some (.added st)) } = some st :=
    Call.added_eq_some.mpr ⟨info, hq, rfl⟩
  have hopen : c.phase.open? = true := by rw [hp]; rfl
  refine ⟨h.unique.insert (fun t ht => ?_) hins, ?_, ?_, h.chosen_set hc rfl hopen rfl, ?_,
    h.closed_set hc ?_, ?_, h.oks_set hc rfl fun _ => by rw [hadded]; rfl⟩
  · rw [hid]
    exact ne_of_lt (h.fresh t ht)
  · refine forall_mem_concat (fun t ht => Nat.lt_succ_of_lt (h.fresh t ht)) ?_
    rw [hid]
    exact Nat.lt_succ_self _
  · obtain ⟨l, hl, hperm⟩ := h.records
    refine ⟨l ++ [st], ?_, ?_⟩
    · show s.students ++ [st] = _
      rw [hl, List.append_assoc]
    · have hset := Calls.filterMap_set_perm hc (Call.added_sent hp) hadded
      exact (List.perm_append_singleton st l).trans ((hperm.cons st).trans hset.symm)
  · refine forall_mem_set n (fun x hx info r hxq hr => ?_) fun info' r hq' hr => ?_
    · obtain ⟨t, ht, hcast, hin⟩ := h.added x hx info r hxq hr
      exact ⟨t, ht, hcast, List.mem_append_left _ hin⟩
    · cases hq.symm.trans hq'
      cases hr
      exact ⟨st, rfl, hqrid, List.mem_append_right _ (List.mem_singleton_self _)⟩
  · simp [Call.closedAdd, hq]
  · exact forall_mem_set n h.told fun _ hdone => by cases hdone

end Registering

/-- The invariant of runs of registrations. -/
structure Registered (E : Ext) (K : Keys) (L : Ledger) (S : Students) (s : State) : Prop
    extends Underway (Registers K) L s where
  registering : Registering E K S s

namespace Registered

theorem init (h : S.Unique) (L : Ledger) : Registered E K L S (State.init S L) :=
  ⟨.init S L, .init h L⟩

/-- A call of a registration looks up a QR-ID or inserts a record. -/
theorem call (h : Registered E K L S s) {n : ℕ} {c : Call} (hc : s.calls[n]? = some c) :
    c.query.hasCallback = true ∧ ((∃ component v cb, c.query = .student component v cb) ∨
      ∃ info, c.query = .addStudent info) := by
  obtain ⟨q, -, hq⟩ := h.traced.calls c (mem_of_getElem? hc)
  cases hquery : c.query with
  | student component v cb => exact ⟨rfl, .inl ⟨component, v, cb, rfl⟩⟩
  | addStudent info => exact ⟨rfl, .inr ⟨info, rfl⟩⟩
  | _ =>
      rw [hquery] at hq
      exact hq.elim

/-- A request for a registration starts with what is allowed. -/
theorem allowed_request {env : Env} {client : Client} {post : String} {a : Act}
    (ha : a ∈ (prepare_action E K env client "register_student" post).acts) :
    Registering.Allowed K s a := by
  rcases mem_request ha with ⟨m, hm, rfl⟩ | ⟨payload, rfl⟩ | ⟨component, v, cb, rfl, -⟩
  · exact hm
  · trivial
  · trivial

/-- The callback of a lookup does what is allowed. -/
theorem allowed_reply {n : ℕ} {c : Call} {r : Reply} {q : Received} {component : String}
    {v : JsVal} {cb : StudentCb} (hc : s.calls[n]? = some c)
    (hquery : c.query = .student component v cb) (hq : s.received[c.client.req]? = some q)
    {env : Env} {a : Act} (ha : Continues K env c.client q c.query r a) :
    Registering.Allowed K
      { s with calls := s.calls.set n { c with phase := .done (some r) } } a := by
  rw [hquery] at ha
  cases ha with
  | error hm => exact hm
  | ok hadd => cases hadd
  | lookup => trivial
  | addPreset hp ht hinfo =>
      rw [Registering.Allowed, hinfo]
      exact ⟨q, _, _, hq, hp.1, hp.2, .inl ⟨ht, rfl⟩⟩
  | addRandom hp ht hcall hr hinfo =>
      rw [Registering.Allowed, hinfo]
      refine ⟨q, _, _, hq, hp.1, hp.2, .inr ⟨ht, _, Calls.mem_set_self _ hc, ?_⟩⟩
      rw [hr]
      exact ⟨_, _, rfl, hquery.trans hcall, rfl, rfl⟩

/-- The callback of a lookup runs. -/
theorem lookupDone (h : Registered E K L S s) {n : ℕ} {c : Call} {v : Option Reply}
    {component : String} {qrid : JsVal} {cb : StudentCb} (hc : s.calls[n]? = some c)
    (hquery : c.query = .student component qrid cb) (hp : c.phase = .replied v) :
    Registering E K S { s with calls := s.calls.set n { c with phase := .done v } } := by
  refine h.registering.setCall hc (by rw [hp]; rfl) rfl rfl (Call.added_done hp) ?_ ?_
  · rw [Call.closedAdd, hquery]
  · intro info r hadd
    cases hquery.symm.trans hadd

theorem registering_step (h : Registered E K L S s) {e : Event} (hok : Only "register_student" e)
    (hs : Server.step E K s e = some s') : Registering E K S s' := by
  cases h.asking.step_cases hs with
  | stay => exact h.registering
  | request w env name post =>
      cases hok
      exact (h.registering.receive _).performAll (fun a ha => allowed_request ha) w env.now
  | @callDb n r c T m hc hp hx =>
      obtain ⟨-, ⟨component, v, cb, hquery⟩ | ⟨info, hquery⟩⟩ := h.call hc
      · rw [hquery] at hx
        obtain ⟨heq, -⟩ := execute_student hx
        obtain rfl : T = s.students := congrArg State.students heq
        obtain rfl : m = s.nextStudent := congrArg State.nextStudent heq
        refine h.registering.replied hc hp fun info hadd => ?_
        cases hquery.symm.trans hadd
      · rw [hquery] at hx
        obtain ⟨st, U, rfl, hcast, hins, heq⟩ := execute_addStudent hx
        obtain rfl : T = U := congrArg State.students heq
        obtain rfl : m = s.nextStudent + 1 := congrArg State.nextStudent heq
        exact h.registering.insert hc hquery hp hcast hins
  | @callFail n c hc hp => exact h.registering.replied hc hp fun _ _ => rfl
  | @callReply n c r env hc hp =>
      obtain ⟨q, hq, hregisters⟩ := h.traced.calls c (mem_of_getElem? hc)
      obtain ⟨-, ⟨component, v, cb, hquery⟩ | ⟨info, hquery⟩⟩ := h.call hc
      · refine (h.lookupDone hc hquery hp).performAll (fun a ha => ?_) c.worker env.now
        exact allowed_reply hc hquery hq (continues_onReply hregisters ha)
      · obtain ⟨st, rfl, -⟩ := h.registering.added c (mem_of_getElem? hc) info r hquery
          (by rw [hp]; rfl)
        have hacts : (onReply E env c.client c.query (.added st)).acts =
            [.answer c.client .ok] := by
          rw [hquery]
          exact answer_acts ..
        rw [hacts]
        exact h.registering.closeAdd hc hquery hp (.inl ⟨st, rfl, rfl⟩)
  | @callError n c env hc hp =>
      obtain ⟨-, ⟨component, v, cb, hquery⟩ | ⟨info, hquery⟩⟩ := h.call hc
      · exact (h.lookupDone hc hquery hp).sendError c.client rfl
      · exact h.registering.closeAdd hc hquery hp (.inr ⟨rfl, rfl⟩)
  | callDropped env hc hp hcb =>
      rw [(h.call hc).1] at hcb
      cases hcb

theorem registers_request {env : Env} {client : Client} {post : String} {a : Act}
    (ha : a ∈ (prepare_action E K env client "register_student" post).acts) :
    Registers K ⟨"register_student", post⟩ a := by
  rcases mem_request ha with ⟨m, -, rfl⟩ | ⟨payload, rfl⟩ | ⟨component, v, cb, -, hb⟩
  · trivial
  · trivial
  · exact hb

theorem handled : Handled E K "register_student" (Registers K) where
  request := registers_request
  reply hq ha := (continues_onReply hq ha).registers
  asks := Registers.asks
  once env post := .of_action env post rfl (fun fns h => by cases h; exact le_rfl) fun _ => trivial

theorem step (h : Registered E K L S s) {e : Event} (hok : Only "register_student" e)
    (hs : Server.step E K s e = some s') : Registered E K L S s' :=
  ⟨h.toUnderway.step handled hok hs, h.registering_step hok hs⟩

/-- The inserts of a request that are done are answered, and the others are a duty. -/
theorem adds_le (h : Registered E K L S s) (r : ReqId) :
    (s.calls.countP fun c => c.client.req = r && c.added.isSome) ≤ 1 := by
  have hsplit : (s.calls.countP fun c => c.client.req = r && c.added.isSome) ≤
      (s.calls.countP fun c => c.client.req = r && c.closedAdd) + callsFor s.calls r := by
    refine Calls.countP_le_add (fun c hc => ?_) s.calls
    simp only [Bool.and_eq_true, decide_eq_true_eq] at hc ⊢
    obtain ⟨hreq, hsome⟩ := hc
    obtain ⟨st, hst⟩ := Option.isSome_iff_exists.mp hsome
    obtain ⟨info, hq, -⟩ := Call.added_eq_some.mp hst
    cases hopen : c.phase.open? with
    | true => exact .inr ⟨⟨by rw [hq]; rfl, hreq⟩, rfl⟩
    | false => exact .inl ⟨hreq, by simp [Call.closedAdd, hq, hopen]⟩
  have hclosed := h.registering.closed r
  have howing := h.owing_le_one r
  rw [owing] at howing
  omega

theorem allOrNothing (h : Registered E K L S s) : AllOrNothing E K S s where
  records := h.registering.records
  once := h.adds_le
  answered r := (answersTo_le_owing s r).trans (h.owing_le_one r)
  ok x hx := by
    refine ⟨h.registering.oks x hx, ?_⟩
    rintro ⟨c, hc, hreq, hsome⟩
    cases hopen : c.phase.open? with
    | true =>
        -- the insert is a duty of the request, beside the answer
        obtain ⟨st, hst⟩ := Option.isSome_iff_exists.mp hsome
        obtain ⟨info, hq, -⟩ := Call.added_eq_some.mp hst
        have hzero := h.answersFor_eq_zero hc (by rw [hq]; rfl) hopen
        rw [hreq, answersFor, List.countP_eq_zero] at hzero
        exact absurd (decide_eq_true rfl) (hzero x hx)
    | false =>
        have htold := h.registering.told c hc hsome hopen
        have howing := h.owing_le_one x.1.req
        rw [owing] at howing
        have hone : answersFor s.answers x.1.req ≤ 1 := by omega
        have heq := Calls.eq_of_countP_le_one hone hx htold (by simp) (by simp [hreq])
        rw [heq]
  told := h.registering.told
  qrid c hc info st hq hst := by
    obtain ⟨info', hq', hout⟩ := Call.added_eq_some.mp hst
    obtain ⟨st', hr, hcast, hin⟩ := h.registering.added c hc info _ hq hout
    cases hr
    exact ⟨h.registering.chosen c hc info hq, hcast, hin,
      fun t ht hqrid => h.registering.unique.eq_of_qrid ht hin hqrid⟩

end Registered

end Invariant

/-! ## Runs -/

/-- Requests for registration that run at the same time each register all or nothing,
whatever QR-IDs are drawn and whatever the database replies. -/
theorem register_all_or_nothing {E : Ext} {K : Keys} {S : Students} {L : Ledger} {s : State}
    (unique : S.Unique)
    (run : Run (step E K) (fun _ e => Only "register_student" e) (State.init S L) s) :
    AllOrNothing E K S s := by
  have h : Registered E K L S s :=
    run.invariant (Registered.init unique L) fun _ _ _ ih hok hs => ih.step hok hs
  exact h.allOrNothing

section Sample

/-- Queries to register, with and without a preset QR-ID. -/
def registerKeys : Keys := .simple [
  ("preset", "\x7b\"cert\":\"registration_hash.\",\"payload\":\x7b\"qrid\":\"7\"," ++
    "\"firstname\":\"Rosa\",\"birthyear\":\"1970\",\"birthmonth\":\"1\",\"birthday\":\"1\"," ++
    "\"sclass\":\"5\",\"subclass\":\"a\",\"password\":\"pw\"\x7d\x7d"),
  ("random", "\x7b\"cert\":\"registration_hash.\",\"payload\":\x7b\"firstname\":\"Rosa\"," ++
    "\"birthyear\":\"1970\",\"birthmonth\":\"1\",\"birthday\":\"1\"," ++
    "\"sclass\":\"5\",\"subclass\":\"a\",\"password\":\"pw\"\x7d\x7d")]

/-- The record with the QR-ID "7". -/
def newcomer : Student where
  _id := 2
  qrid := .str "7"
  firstname := some "Rosa"
  lastname := none
  picname := none
  country := none
  birth := some 0
  type := some "5a"
  special_name := none
  appear := []
  pwdhash := some "sha256:pwsalt"
  pwdsalt := some "salt"

/-- Two requests preset the QR-ID "7" and a third one draws it, after the one of the
citizen.  All three find it free. -/
def registerEvents : List Event :=
  [.request 0 .start "register_student" (bodyOf "preset"),
    .request 1 .start "register_student" (bodyOf "preset"),
    .request 0 { Env.start with qrid := "1" } "register_student" (bodyOf "random"),
    .callDb 0 (.student none), .callDb 1 (.student none),
    .callDb 2 (.student (some (someStudent 1))), .callReply 2 { Env.start with qrid := "7" },
    .callDb 3 (.student none), .callReply 0 .start, .callReply 3 .start, .callReply 1 .start,
    .callDb 5 (.added newcomer), .callFail 4, .callFail 6, .callReply 4 .start,
    .callReply 5 .start, .callReply 6 .start]

/-- The third request is the one that registers. -/
theorem register_all_or_nothing_three : ∃ s, Run (step Ext.simple registerKeys)
    (fun _ e => Only "register_student" e) (State.init [someStudent 1] []) s ∧
      (s.answers.map fun x => (x.1.req, x.2.isText "ok")) = [(0, false), (2, true), (1, false)] ∧
        AllOrNothing Ext.simple registerKeys [someStudent 1] s := by
  have hexec : (exec (step Ext.simple registerKeys) (fun _ e => Only "register_student" e)
      (State.init [someStudent 1] []) registerEvents).map
        (fun s => s.answers.map fun x => (x.1.req, x.2.isText "ok")) =
          some [(0, false), (2, true), (1, false)] := by decide +kernel
  obtain ⟨s, run, h⟩ := exists_run_of_exec registerEvents hexec
  have unique : Students.Unique [someStudent 1] :=
    ⟨List.pairwise_singleton .., List.pairwise_singleton ..⟩
  exact ⟨s, run, h, register_all_or_nothing unique run⟩

end Sample

end Server

end SchuleAlsStaat
