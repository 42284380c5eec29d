import SchuleAlsStaat.Actions.Callbacks
import SchuleAlsStaat.Js.Parse

/-!
# Dispatching a request

`prepare_action` of `actions/index.js` and `check` of `cert.js`.  A request
names an action and carries a body.  The body is a JSON object with an
RSA-encrypted key and a query that is encrypted with this key.  The decrypted
query is a JSON object as well, with a certificate and a payload.

Exceptions are caught while the body is decoded, while the query is decrypted
and while the action runs, but not in between.  `Dispatchable` says for which
requests that is enough.
-/

namespace SchuleAlsStaat

open Js (Exn Json JsVal JS)

/-! ## Actions -/

inductive ActionName where
  | test
  | config_get
  | config_set
  | config_del
  | config_getall
  | transactions_poll
  | students_get
  | profile_edit
  | student_delete
  | student_identify
  | password_change
  | password_change_master
  | ec_student_get
  | ec_checkin
  | ec_checkout
  | register_student
  | get_balance
  | get_balance_master
  | get_last_transactions
  | find_transactions
  | money (a : MoneyAction)
  | transaction_delete
deriving DecidableEq, Repr

/-- The names that are passed to `register` and `register_cert`. -/
def ActionName.ofString : String → Option ActionName
  | "test" => some .test
  | "config_get" => some .config_get
  | "config_set" => some .config_set
  | "config_del" => some .config_del
  | "config_getall" => some .config_getall
  | "transactions_poll" => some .transactions_poll
  | "students_get" => some .students_get
  | "profile_edit" => some .profile_edit
  | "student_delete" => some .student_delete
  | "student_identify" => some .student_identify
  | "password_change" => some .password_change
  | "password_change_master" => some .password_change_master
  | "ec_student_get" => some .ec_student_get
  | "ec_checkin" => some .ec_checkin
  | "ec_checkout" => some .ec_checkout
  | "register_student" => some .register_student
  | "get_balance" => some .get_balance
  | "get_balance_master" => some .get_balance_master
  | "get_last_transactions" => some .get_last_transactions
  | "find_transactions" => some .find_transactions
  | "transaction" => some (.money .transaction)
  | "transaction_taxfree" => some (.money .transaction_taxfree)
  | "spawn_money" => some (.money .spawn_money)
  | "destroy_money" => some (.money .destroy_money)
  | "master_transaction" => some (.money .master_transaction)
  | "transaction_delete" => some .transaction_delete
  | _ => none

/-- The hash files that suffice for an action.  `none` if it needs no
certificate. -/
def ActionName.cert : ActionName → Option (List String)
  | .config_set => some ["master_hash"]
  | .config_del => some ["master_hash"]
  | .students_get => some ["admin_hash"]
  | .profile_edit => some ["admin_hash"]
  | .student_delete => some ["master_hash"]
  | .password_change_master => some ["master_hash"]
  | .ec_student_get => some ["ec_hash", "admin_hash"]
  | .ec_checkin => some ["ec_hash", "admin_hash"]
  | .ec_checkout => some ["ec_hash", "admin_hash"]
  | .register_student => some ["registration_hash"]
  | .get_balance_master => some ["admin_hash"]
  | .find_transactions => some ["admin_hash"]
  | .money .transaction => none
  | .money .transaction_taxfree => some ["registration_hash", "admin_hash"]
  | .money _ => some ["master_hash"]
  | .transaction_delete => some ["master_hash"]
  | _ => none

/-- The function of an action. -/
def ActionName.run (E : Ext) (env : Env) (client : Client) (payload : JsVal) : ActionName → Code
  | .test => SchuleAlsStaat.test client payload
  | .config_get => SchuleAlsStaat.config_get env client payload
  | .config_set => SchuleAlsStaat.config_set client payload
  | .config_del => SchuleAlsStaat.config_del client payload
  | .config_getall => SchuleAlsStaat.config_getall env client payload
  | .transactions_poll => SchuleAlsStaat.transactions_poll client payload
  | .students_get => SchuleAlsStaat.students_get client payload
  | .profile_edit => SchuleAlsStaat.profile_edit client payload
  | .student_delete => SchuleAlsStaat.student_delete client payload
  | .student_identify => SchuleAlsStaat.student_identify E client payload
  | .password_change => SchuleAlsStaat.password_change client payload
  | .password_change_master => SchuleAlsStaat.password_change_master client payload
  | .ec_student_get => SchuleAlsStaat.ec_student_get client payload
  | .ec_checkin => SchuleAlsStaat.ec_checkin env client payload
  | .ec_checkout => SchuleAlsStaat.ec_checkout env client payload
  | .register_student => SchuleAlsStaat.register_student E env client payload
  | .get_balance => SchuleAlsStaat.get_balance client payload
  | .get_balance_master => SchuleAlsStaat.get_balance_master client payload
  | .get_last_transactions => SchuleAlsStaat.get_last_transactions client payload
  | .find_transactions => SchuleAlsStaat.find_transactions client payload
  | .money a => a.run env client payload
  | .transaction_delete => SchuleAlsStaat.transaction_delete E client payload

/-- What `actions[name]` is: a registered action, or something without a
certificate and without a function that the object inherits. -/
inductive Registration where
  | action (a : ActionName)
  | inherited
deriving DecidableEq, Repr

def Registration.cert : Registration → Option (List String)
  | .action a => a.cert
  | .inherited => none

/-- The properties of `Object.prototype`. -/
def objectPrototype : List String :=
  ["constructor", "toString", "toLocaleString", "valueOf", "hasOwnProperty", "isPrototypeOf",
    "propertyIsEnumerable", "__proto__", "__defineGetter__", "__defineSetter__",
    "__lookupGetter__", "__lookupSetter__"]

/-- `actions[name]`. -/
def actions (name : String) : Option Registration :=
  match ActionName.ofString name with
  | some a => some (.action a)
  | none => if name ∈ objectPrototype then some .inherited else none

/-! ## Keys and certificates -/

/-- The private key, the cipher and the files in `cert`. -/
structure Keys where
  /-- `decrypt_aes_key`. -/
  decrypt_aes_key : JsVal → Except Exn String
  /-- `aes.decrypt`. -/
  decrypt : JsVal → String → Except Exn String
  /-- `readFileSync` of a hash file. -/
  readFile : String → Except Exn String

/-- `s.slice(0, -1)`. -/
def sliceEnd (s : String) : String := String.ofList s.toList.dropLast

/-- The hash of a certificate.  An array can be sliced, but not hashed. -/
def certHash (E : Ext) : JsVal → Except Exn String
  | some (.str s) => .ok (E.sha256 (sliceEnd s))
  | _ => .error .typeError

/-- The comparison with the hash files.  `cb` is called for every match. -/
def compareHashes (K : Keys) (hash : String) (cb : Code) : List String → JS Act Bool
  | [] => pure false
  | fn :: hashfiles => do
      let cmp_hash ← JS.lift (K.readFile fn)
      if sliceEnd cmp_hash = hash then
        cb
        let _ ← compareHashes K hash cb hashfiles
        return true
      else
        compareHashes K hash cb hashfiles

/-- `check` of `cert.js`. -/
def check (E : Ext) (K : Keys) (hashfiles : Option (List String)) (cert : JsVal)
    (cb cb_false : Code) : Code :=
  match hashfiles with
  | none => cb
  | some hashfiles =>
      if cert.truthy then do
        let hash ← JS.lift (certHash E cert)
        if ← compareHashes K hash cb hashfiles then pure () else cb_false
      else cb_false

/-! ## prepare_action -/

/-- The encrypted query and its key. -/
def decodePost (K : Keys) (post : String) : Except Exn (JsVal × String) := do
  let post_data ← Json.parse post
  let encrypted ← post_data.prop "encrypted"
  let aes_key ← K.decrypt_aes_key (← post_data.prop "passphrase")
  return (encrypted, aes_key)

def decodeQuery (K : Keys) (query_enc : JsVal) (aes_key : String) : Except Exn Json := do
  Json.parse (← K.decrypt query_enc aes_key)

/-- An error is answered, and the query is then `undefined`. -/
def decrypt_query (K : Keys) (client : Client) (query_enc : JsVal) (aes_key : String) :
    JS Act JsVal :=
  match decodeQuery K query_enc aes_key with
  | .ok query => pure (some query)
  | .error e => do
      answer client (.error e)
      return none

/-- The callback that `prepare_action` passes to `check`. -/
def runAction (E : Ext) (env : Env) (client : Client) (name : String) (query : JsVal) :
    Registration → Code
  | .action a => JS.tryCatch (do
      let payload ← JS.lift (query.prop "payload")
      JS.act (.invoke name payload)
      a.run E env client payload) fun e => answer client (.error e)
  | .inherited => answer client (.error .typeError)  -- its function is `undefined`

def prepare_action (E : Ext) (K : Keys) (env : Env) (client : Client) (name post : String) :
    Code :=
  match actions name with
  | none => JS.act (.answer client (.text "error: invalid action"))
  | some r =>
      match decodePost K post with
      | .error e => JS.act (.answer client (.error e))
      | .ok (encrypted, aes_key) => do
          let query ← decrypt_query K client encrypted aes_key
          let cert ← JS.lift (query.prop "cert")
          check E K r.cert cert (runAction E env client name query r)
            (answer client (.text "error: incorrect certificate"))

/-- The query that a body carries. -/
def queryOf (K : Keys) (post : String) : Except Exn Json := do
  let (encrypted, aes_key) ← decodePost K post
  decodeQuery K encrypted aes_key

/-- The payload that a body carries. -/
def payloadOf (K : Keys) (post : String) : Except Exn JsVal := do
  (← queryOf K post).prop "payload"

/-! ## What a request leads to -/

section Mem

variable {E : Ext} {K : Keys} {env : Env} {client : Client} {name post : String} {a : Act}

theorem queryOf_eq {p : JsVal × String} (hp : decodePost K post = .ok p) :
    queryOf K post = decodeQuery K p.1 p.2 := by
  rw [queryOf, hp]
  rfl

variable (E env client) in
/-- A decoded body is checked and run. -/
theorem prepare_action_decoded {r : Registration} {p : JsVal × String} {query : Json}
    (hr : actions name = some r) (hp : decodePost K post = .ok p)
    (hq : decodeQuery K p.1 p.2 = .ok query) :
    prepare_action E K env client name post = (do
      let cert ← JS.lift (query.prop "cert")
      check E K r.cert cert (runAction E env client name query r)
        (answer client (.text "error: incorrect certificate"))) := by
  rw [prepare_action, hr]
  simp only [hp, decrypt_query, hq]
  rfl

variable (E env client) in
/-- When the query does not decrypt, an error is answered and reading its
certificate throws. -/
theorem prepare_action_undecryptable {r : Registration} {p : JsVal × String} {e : Exn}
    (hr : actions name = some r) (hp : decodePost K post = .ok p)
    (hq : decodeQuery K p.1 p.2 = .error e) :
    prepare_action E K env client name post = ⟨[.answer client (.error e)], .error .typeError⟩ := by
  rw [prepare_action, hr]
  simp only [hp, decrypt_query, hq]
  rfl

/-- The hash file matches. -/
def Keys.matches (K : Keys) (hash fn : String) : Bool :=
  match K.readFile fn with
  | .ok cmp_hash => sliceEnd cmp_hash = hash
  | .error _ => false

/-- The certificate matches one of the hash files, if there are any. -/
def Certified (E : Ext) (K : Keys) (hashfiles : Option (List String)) (cert : JsVal) : Prop :=
  ∀ fns, hashfiles = some fns → ∃ hash, certHash E cert = .ok hash ∧
    ∃ fn ∈ fns, K.matches hash fn = true

theorem bind_true_acts (x : JS Act Bool) :
    (x >>= fun _ => (pure true : JS Act Bool)).acts = x.acts := by
  cases hx : x.result with
  | error e => exact JS.bind_acts_error hx
  | ok b => rw [JS.bind_acts_ok hx, JS.pure_acts, List.append_nil]

/-- The comparison only calls `cb`, and only when a file matches. -/
theorem mem_compareHashes {hash : String} {cb : Code} {hashfiles : List String}
    (h : a ∈ (compareHashes K hash cb hashfiles).acts) :
    a ∈ cb.acts ∧ ∃ fn ∈ hashfiles, K.matches hash fn = true := by
  induction hashfiles with
  | nil => cases h
  | cons fn hashfiles ih =>
      rw [compareHashes, JS.mem_lift_bind_acts] at h
      obtain ⟨cmp_hash, hread, h⟩ := h
      have tail : a ∈ (compareHashes K hash cb hashfiles).acts →
          a ∈ cb.acts ∧ ∃ fn' ∈ fn :: hashfiles, K.matches hash fn' = true := by
        intro h
        obtain ⟨hcb, fn', hmem, hmatch⟩ := ih h
        exact ⟨hcb, fn', List.mem_cons_of_mem _ hmem, hmatch⟩
      split at h
      next heq =>
        rcases JS.mem_bind_acts.mp h with h | ⟨-, -, h⟩
        · exact ⟨h, fn, List.mem_cons_self .., by simp [Keys.matches, hread, heq]⟩
        · rw [bind_true_acts] at h
          exact tail h
      next => exact tail h

theorem mem_check {hashfiles : Option (List String)} {cert : JsVal} {cb cb_false : Code}
    (h : a ∈ (check E K hashfiles cert cb cb_false).acts) :
    a ∈ cb_false.acts ∨ a ∈ cb.acts ∧ Certified E K hashfiles cert := by
  cases hashfiles with
  | none => exact .inr ⟨h, fun fns hfns => by cases hfns⟩
  | some fns =>
      rw [check] at h
      split at h
      next =>
        obtain ⟨hash, hhash, h⟩ := JS.mem_lift_bind_acts.mp h
        rcases JS.mem_bind_acts.mp h with h | ⟨b, -, h⟩
        · obtain ⟨hcb, hmatch⟩ := mem_compareHashes h
          exact .inr ⟨hcb, fun fns' hfns => by cases hfns; exact ⟨hash, hhash, hmatch⟩⟩
        · cases b with
          | true => cases h
          | false => exact .inl h
      next => exact .inl h

theorem mem_runAction {query : JsVal} {r : Registration}
    (h : a ∈ (runAction E env client name query r).acts) :
    (∃ m, m.isError = true ∧ a = .answer client m) ∨ (∃ payload, a = .invoke name payload) ∨
      ∃ b payload, r = .action b ∧ query.prop "payload" = .ok payload ∧
        a ∈ (b.run E env client payload).acts := by
  cases r with
  | inherited =>
      rw [runAction, answer_acts] at h
      exact .inl ⟨_, rfl, List.mem_singleton.mp h⟩
  | action b =>
      have body : a ∈ (do
          let payload ← JS.lift (query.prop "payload")
          JS.act (.invoke name payload)
          b.run E env client payload : Code).acts → (∃ payload, a = .invoke name payload) ∨
            ∃ b' payload, Registration.action b = .action b' ∧
              query.prop "payload" = .ok payload ∧ a ∈ (b'.run E env client payload).acts := by
        intro h
        obtain ⟨payload, hpayload, h⟩ := JS.mem_lift_bind_acts.mp h
        rcases List.mem_cons.mp h with rfl | h
        · exact .inl ⟨payload, rfl⟩
        · exact .inr ⟨b, payload, rfl, hpayload, h⟩
      rw [runAction, JS.tryCatch] at h
      split at h
      next => exact .inr (body h)
      next =>
        rcases List.mem_append.mp h with h | h
        · exact .inr (body h)
        · rw [answer_acts] at h
          exact .inl ⟨_, rfl, List.mem_singleton.mp h⟩

/-- A request names an action and has a certificate for it. -/
def Dispatched (E : Ext) (K : Keys) (name post : String) (b : ActionName) : Prop :=
  actions name = some (.action b) ∧ ∃ query cert, queryOf K post = .ok query ∧
    query.prop "cert" = .ok cert ∧ Certified E K b.cert cert

/-- A request runs the function of its action only with a certificate for it.
By itself it answers errors only. -/
theorem mem_prepare_action_payload (h : a ∈ (prepare_action E K env client name post).acts) :
    (∃ m, m.isError = true ∧ a = .answer client m) ∨ (∃ payload, a = .invoke name payload) ∨
      ∃ b payload, Dispatched E K name post b ∧ payloadOf K post = .ok payload ∧
        a ∈ (b.run E env client payload).acts := by
  cases hr : actions name with
  | none =>
      rw [prepare_action, hr] at h
      exact .inl ⟨_, rfl, List.mem_singleton.mp h⟩
  | some r =>
      cases hp : decodePost K post with
      | error e =>
          rw [prepare_action, hr] at h
          simp only [hp] at h
          exact .inl ⟨_, rfl, List.mem_singleton.mp h⟩
      | ok p =>
          cases hq : decodeQuery K p.1 p.2 with
          | error e =>
              rw [prepare_action_undecryptable E env client hr hp hq] at h
              exact .inl ⟨_, rfl, List.mem_singleton.mp h⟩
          | ok query =>
              rw [prepare_action_decoded E env client hr hp hq] at h
              obtain ⟨cert, hcert, h⟩ := JS.mem_lift_bind_acts.mp h
              rcases mem_check h with h | ⟨h, hcertified⟩
              · rw [answer_acts] at h
                exact .inl ⟨_, rfl, List.mem_singleton.mp h⟩
              · refine (mem_runAction h).imp_right (Or.imp_right ?_)
                rintro ⟨b, payload, rfl, hpayload, hb⟩
                have hquery := (queryOf_eq hp).trans hq
                refine ⟨b, payload, ⟨hr, query, cert, hquery, hcert, hcertified⟩, ?_, hb⟩
                rw [payloadOf, hquery]
                exact hpayload

theorem mem_prepare_action (h : a ∈ (prepare_action E K env client name post).acts) :
    (∃ m, m.isError = true ∧ a = .answer client m) ∨ (∃ payload, a = .invoke name payload) ∨
      ∃ b payload, Dispatched E K name post b ∧ a ∈ (b.run E env client payload).acts := by
  refine (mem_prepare_action_payload h).imp_right (Or.imp_right ?_)
  exact fun ⟨b, payload, hb, _, h⟩ => ⟨b, payload, hb, h⟩

end Mem

/-! ## Which requests survive -/

section Survive

variable {E : Ext} {K : Keys} {env : Env} {client : Client} {name post : String}

/-- No exception of an action escapes. -/
theorem runAction_result (query : JsVal) (r : Registration) :
    (runAction E env client name query r).result = .ok () := by
  cases r with
  | action a =>
      rw [runAction, JS.tryCatch]
      split
      next h => exact h
      next e _ =>
        show (answer client (.error e)).result = .ok ()
        exact answer_result rfl
  | inherited => exact answer_result rfl

/-- The files can be read. -/
def Readable (K : Keys) (hashfiles : List String) : Prop :=
  ∀ fn ∈ hashfiles, ∃ s, K.readFile fn = .ok s

theorem compareHashes_result {cb : Code} (hcb : cb.result = .ok ()) (hash : String)
    (hashfiles : List String) :
    (∃ b, (compareHashes K hash cb hashfiles).result = .ok b) ↔ Readable K hashfiles := by
  induction hashfiles with
  | nil => simp [compareHashes, Readable]
  | cons fn hashfiles ih =>
      rw [Readable, List.forall_mem_cons, ← Readable, ← ih, compareHashes]
      cases hread : K.readFile fn with
      | error e => simp
      | ok s =>
          rw [JS.lift_ok_bind]
          split
          next =>
            rw [JS.bind_result_ok hcb]
            cases hrest : (compareHashes K hash cb hashfiles).result with
            | error e => simp [JS.bind_result_error hrest]
            | ok b => simp [JS.bind_result_ok hrest]
          next => simp

/-- The certificate can be compared with the hash files. -/
def Checkable (K : Keys) (hashfiles : Option (List String)) (cert : JsVal) : Prop :=
  ∀ fns, hashfiles = some fns → cert.truthy = true → (∃ s, cert = some (.str s)) ∧ Readable K fns

theorem check_result {hashfiles : Option (List String)} {cert : JsVal} {cb cb_false : Code}
    (hcb : cb.result = .ok ()) (hfalse : cb_false.result = .ok ()) :
    (check E K hashfiles cert cb cb_false).result = .ok () ↔ Checkable K hashfiles cert := by
  cases hashfiles with
  | none => simp [check, Checkable, hcb]
  | some fns =>
      by_cases ht : cert.truthy = true
      · have hcheck : Checkable K (some fns) cert ↔
            (∃ s, cert = some (.str s)) ∧ Readable K fns := by
          simp [Checkable, ht]
        rw [hcheck, check, if_pos ht]
        by_cases hs : ∃ s, cert = some (.str s)
        · obtain ⟨s, rfl⟩ := hs
          rw [certHash, JS.lift_ok_bind, ← compareHashes_result hcb (E.sha256 (sliceEnd s)) fns]
          cases hcmp : (compareHashes K (E.sha256 (sliceEnd s)) cb fns).result with
          | error e => simp [JS.bind_result_error hcmp]
          | ok b => cases b <;> simp [JS.bind_result_ok hcmp, hfalse]
        · have herr : certHash E cert = .error .typeError := by
            rw [certHash.eq_def]
            split
            next s => exact absurd ⟨s, rfl⟩ hs
            next => rfl
          simp [herr, hs]
      · rw [check, if_neg ht]
        simp [Checkable, ht, hfalse]

/-- The body carries a query object. -/
def CarriesQuery (K : Keys) (post : String) : Prop := ∃ fields, queryOf K post = .ok (.obj fields)

/-- No exception escapes, and if the body carries no query object then the
action is not run and an error is answered. -/
def Survives (E : Ext) (K : Keys) (env : Env) (client : Client) (name post : String) : Prop :=
  let code := prepare_action E K env client name post
  code.result = .ok () ∧ (¬ CarriesQuery K post →
    (∀ payload, Act.invoke name payload ∉ code.acts) ∧
      ∃ m, Act.answer client m ∈ code.acts ∧ m.isError = true)

/-- The query is an object with a certificate that can be compared, or another
value that has properties when there is no action to run on it. -/
def Acceptable (K : Keys) (r : Registration) : Json → Prop
  | .obj fields => Checkable K r.cert (Json.field "cert" fields)
  | .null => False
  | _ => r.cert ≠ none ∨ r = .inherited

/-- The action does not exist, or the key does not decrypt, or the body carries
an acceptable query. -/
def Dispatchable (K : Keys) (name post : String) : Prop :=
  ∀ r, actions name = some r → ∀ p, decodePost K post = .ok p →
    ∃ query, queryOf K post = .ok query ∧ Acceptable K r query

/-- A request that is only answered an error survives. -/
theorem survives_of_error {m : Answer} (hm : m.isError = true)
    (hres : (prepare_action E K env client name post).result = .ok ())
    (hacts : (prepare_action E K env client name post).acts = [.answer client m]) :
    Survives E K env client name post := by
  refine ⟨hres, fun _ => ⟨fun payload h => ?_, m, ?_, hm⟩⟩
  · rw [hacts] at h
    cases List.mem_singleton.mp h
  · rw [hacts]
    exact List.mem_singleton_self _

variable (E env client) in
/-- A query that is neither an object nor `null` has no certificate and no
payload. -/
theorem survives_scalar {r : Registration} {p : JsVal × String} {query : Json}
    (hr : actions name = some r) (hp : decodePost K post = .ok p)
    (hq : decodeQuery K p.1 p.2 = .ok query) (hprop : ∀ key, query.prop key = .ok none)
    (hcarries : ¬ CarriesQuery K post) :
    Survives E K env client name post ↔ r.cert ≠ none ∨ r = .inherited := by
  have hcode := prepare_action_decoded E env client hr hp hq
  rw [hprop, JS.lift_ok_bind] at hcode
  cases hcert : r.cert with
  | some fns =>
      have hcode' : prepare_action E K env client name post =
          answer client (.text "error: incorrect certificate") := by
        rw [hcode, hcert]
        rfl
      have herror : (Answer.text "error: incorrect certificate").isError = true := by decide
      refine iff_of_true (survives_of_error herror ?_ ?_) (.inl (Option.some_ne_none fns))
      · rw [hcode']
        exact answer_result rfl
      · rw [hcode', answer_acts]
  | none =>
      have hcode' : prepare_action E K env client name post =
          runAction E env client name query r := by
        rw [hcode, hcert]
        rfl
      cases r with
      | inherited =>
          refine iff_of_true (survives_of_error (m := .error .typeError) rfl ?_ ?_) (.inr rfl)
          · rw [hcode', runAction]
            exact answer_result rfl
          · rw [hcode', runAction, answer_acts]
      | action a =>
          have hinvoke : Act.invoke name none ∈ (prepare_action E K env client name post).acts := by
            rw [hcode', runAction, JS.tryCatch]
            have hmem : Act.invoke name none ∈ (do
                let payload ← JS.lift (JsVal.prop "payload" query)
                JS.act (.invoke name payload)
                a.run E env client payload : Code).acts := by
              rw [JsVal.prop, hprop, JS.lift_ok_bind, JS.act_bind_acts]
              exact List.mem_cons_self ..
            split
            next => exact hmem
            next => exact List.mem_append_left _ hmem
          simp only [ne_eq, not_true_eq_false, reduceCtorEq, or_self, iff_false]
          intro h
          exact (h.2 hcarries).1 none hinvoke

/-- A request survives exactly when it is dispatchable. -/
theorem survives_iff_dispatchable :
    Survives E K env client name post ↔ Dispatchable K name post := by
  cases hr : actions name with
  | none =>
      have hcode : prepare_action E K env client name post =
          JS.act (.answer client (.text "error: invalid action")) := by
        rw [prepare_action, hr]
      have herror : (Answer.text "error: invalid action").isError = true := by decide
      refine iff_of_true (survives_of_error herror ?_ ?_) fun r h => ?_
      · rw [hcode, JS.act_result]
      · rw [hcode, JS.act_acts]
      · cases hr.symm.trans h
  | some r =>
      cases hp : decodePost K post with
      | error e =>
          have hcode : prepare_action E K env client name post =
              JS.act (.answer client (.error e)) := by
            rw [prepare_action, hr]
            simp only [hp]
          refine iff_of_true (survives_of_error (m := .error e) rfl ?_ ?_) fun r _ p h => ?_
          · rw [hcode, JS.act_result]
          · rw [hcode, JS.act_acts]
          · cases hp.symm.trans h
      | ok p =>
          have hqo := queryOf_eq hp
          cases hq : decodeQuery K p.1 p.2 with
          | error e =>
              constructor
              · intro h
                rw [Survives, prepare_action_undecryptable E env client hr hp hq] at h
                cases h.1
              · intro h
                obtain ⟨query, hquery, -⟩ := h r hr p hp
                cases (hqo.trans hq).symm.trans hquery
          | ok query =>
              have hd : Dispatchable K name post ↔ Acceptable K r query := by
                simp only [Dispatchable, hr, hp, hqo, hq, Option.some.injEq, forall_eq',
                  Except.ok.injEq, exists_eq_left']
              rw [hd]
              have hcode := prepare_action_decoded E env client hr hp hq
              have scalar := survives_scalar E env client hr hp hq
              cases query with
              | null =>
                  refine ⟨fun h => ?_, False.elim⟩
                  rw [Survives, hcode] at h
                  cases h.1
              | obj fields =>
                  have hcarries : CarriesQuery K post := ⟨fields, hqo.trans hq⟩
                  rw [Survives, hcode]
                  simp only [hcarries, not_true_eq_false, false_implies, and_true]
                  exact check_result (runAction_result _ _) (answer_result rfl)
              | _ =>
                  refine scalar (fun _ => rfl) fun ⟨fields, h⟩ => ?_
                  cases (hqo.trans hq).symm.trans h

end Survive

section Sample

/-- Keys for runs on fixed inputs.  One passphrase decrypts, and a query decrypts
as `plain` says.  The hash file of a certificate has the name of the
certificate. -/
def Keys.simple (plain : List (String × String)) : Keys where
  decrypt_aes_key
    | some (.str "passphrase") => .ok "key"
    | _ => .error (.error "decoding error")
  decrypt
    | some (.str c), "key" => ((plain.lookup c).elim (.error (.error "bad decrypt")) .ok)
    | _, _ => .error (.error "bad decrypt")
  readFile fn := .ok ("sha256:" ++ fn ++ "\n")

/-- A body with a passphrase that decrypts. -/
def bodyOf (encrypted : String) : String :=
  "\x7b\"passphrase\":\"passphrase\",\"encrypted\":\"" ++ encrypted ++ "\"\x7d"

/-- The exception of reading the certificate of `undefined` escapes. -/
theorem undecryptable_query_escapes :
    ¬ ∀ (E : Ext) (K : Keys) (env : Env) (client : Client) (name post : String),
      Survives E K env client name post := by
  intro claim
  have h := claim Ext.simple (.simple []) .start ⟨0, none⟩ "test" (bodyOf "query")
  have hbody : decodePost (.simple []) (bodyOf "query") = .ok (some (.str "query"), "key") :=
by
    rw [decodePost, Json.parse_of_lex (v := .obj [("passphrase", .str "passphrase"),
      ("encrypted", .str "query")]) (by decide +kernel)]
    rfl
  have hquery : decodeQuery (.simple []) (some (.str "query")) "key" =
      .error (.error "bad decrypt") := rfl
  rw [Survives, prepare_action_undecryptable _ _ _ rfl hbody hquery] at h
  cases h.1

end Sample

end SchuleAlsStaat
