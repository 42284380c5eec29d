import SchuleAlsStaat.Api.Dispatch

/-!
# Checking a certificate against several files

`check` of `cert.js` calls its callback inside the loop over the hash files and does
not leave the loop.  It calls it once for each file that matches, so a protected
action runs twice when two of its hash files hold the same hash.
-/

namespace SchuleAlsStaat

open Js (Exn Json JsVal JS)

variable {E : Ext} {K : Keys}

/-- How many of the files match a certificate. -/
def matching (E : Ext) (K : Keys) (hashfiles : List String) (cert : String) : ℕ :=
  hashfiles.countP (K.matches (E.sha256 (sliceEnd cert)))

theorem matching_pos_iff {hashfiles : List String} {cert : String} :
    0 < matching E K hashfiles cert ↔
      ∃ fn ∈ hashfiles, ∃ cmp_hash, K.readFile fn = .ok cmp_hash ∧
        sliceEnd cmp_hash = E.sha256 (sliceEnd cert) := by
  rw [matching, List.countP_pos_iff]
  refine exists_congr fun fn => and_congr_right fun _ => ?_
  rw [Keys.matches]
  cases K.readFile fn <;> simp

/-- One call of the callback for each file that matches. -/
theorem compareHashes_eq {hash : String} {cb : Code} (hcb : cb.result = .ok ())
    {hashfiles : List String} (h : Readable K hashfiles) :
    compareHashes K hash cb hashfiles =
      ⟨(List.replicate (hashfiles.countP (K.matches hash)) cb.acts).flatten,
        .ok (decide (0 < hashfiles.countP (K.matches hash)))⟩ := by
  induction hashfiles with
  | nil => rfl
  | cons fn hashfiles ih =>
      obtain ⟨⟨cmp_hash, hread⟩, hrest⟩ := List.forall_mem_cons.mp h
      have hmatches : K.matches hash fn = decide (sliceEnd cmp_hash = hash) := by
        rw [Keys.matches, hread]
      rw [compareHashes, hread, JS.lift_ok_bind, ih hrest, List.countP_cons, hmatches]
      by_cases heq : sliceEnd cmp_hash = hash
      · rw [if_pos heq, decide_eq_true heq, if_pos rfl, List.replicate_succ, List.flatten_cons]
        simp [Bind.bind, JS.bind, hcb, Pure.pure]
      · rw [if_neg heq, decide_eq_false heq]
        simp

theorem check_eq {cb cb_false : Code} (hcb : cb.result = .ok ()) {hashfiles : List String}
    (h : Readable K hashfiles) {cert : String} (hcert : cert ≠ "") :
    check E K (some hashfiles) (some (.str cert)) cb cb_false =
      if matching E K hashfiles cert = 0 then cb_false
      else ⟨(List.replicate (matching E K hashfiles cert) cb.acts).flatten, .ok ()⟩ := by
  have truthy : JsVal.truthy (some (.str cert)) = true := by simp [Json.truthy, hcert]
  rw [check, if_pos truthy, certHash, JS.lift_ok_bind, compareHashes_eq hcb h]
  by_cases h0 : matching E K hashfiles cert = 0
  · rw [if_pos h0]
    rw [matching] at h0
    rw [h0]
    rfl
  · rw [if_neg h0]
    rw [matching] at h0 ⊢
    simp [Bind.bind, JS.bind, Pure.pure, Nat.pos_of_ne_zero h0]

/-- Of two callbacks that leave a mark, exactly one is called, exactly once, and it
is the first one if a file matches. -/
def DecidesOnce (E : Ext) (K : Keys) (hashfiles : List String) (cert : String) : Prop :=
  ∀ mark mark_false : Act,
    let marks := (check E K (some hashfiles) (some (.str cert)) (JS.act mark)
      (JS.act mark_false)).acts
    ((∃ fn ∈ hashfiles, ∃ cmp_hash, K.readFile fn = .ok cmp_hash ∧
        sliceEnd cmp_hash = E.sha256 (sliceEnd cert)) → marks = [mark]) ∧
      (¬ (∃ fn ∈ hashfiles, ∃ cmp_hash, K.readFile fn = .ok cmp_hash ∧
        sliceEnd cmp_hash = E.sha256 (sliceEnd cert)) → marks = [mark_false])

theorem decidesOnce_iff {hashfiles : List String} (h : Readable K hashfiles) {cert : String}
    (hcert : cert ≠ "") :
    DecidesOnce E K hashfiles cert ↔ matching E K hashfiles cert ≤ 1 := by
  have marks (mark mark_false : Act) :
      (check E K (some hashfiles) (some (.str cert)) (JS.act mark) (JS.act mark_false)).acts =
        if matching E K hashfiles cert = 0 then [mark_false]
        else List.replicate (matching E K hashfiles cert) mark := by
    rw [check_eq rfl h hcert]
    split
    · rfl
    · rw [JS.act_acts, List.flatten_replicate_singleton]
  simp only [DecidesOnce, ← matching_pos_iff, marks]
  rcases Nat.eq_zero_or_pos (matching E K hashfiles cert) with h0 | hpos
  · simp [h0]
  · simp only [hpos, hpos.ne', if_false, true_imp_iff, not_true, false_imp_iff, and_true]
    constructor
    · intro once
      have length := congrArg List.length
        (once (.invoke "" none) (.invoke "" none))
      rw [List.length_replicate, List.length_singleton] at length
      exact length.le
    · intro hle mark _
      rw [le_antisymm hle hpos]
      rfl

/-- A request runs its protected action once for each file that matches. -/
theorem prepare_action_acts {env : Env} {client : Client} {name post : String} {a : ActionName}
    {query : Json} {hashfiles : List String} {cert : String} (ha : actions name = some (.action a))
    (hfiles : a.cert = some hashfiles) (hq : queryOf K post = .ok query)
    (hprop : query.prop "cert" = .ok (some (.str cert))) (h : Readable K hashfiles)
    (hcert : cert ≠ "") :
    (prepare_action E K env client name post).acts =
      if matching E K hashfiles cert = 0 then
        [.answer client (.text "error: incorrect certificate")]
      else (List.replicate (matching E K hashfiles cert)
        (runAction E env client name query (.action a)).acts).flatten := by
  obtain ⟨⟨encrypted, aes_key⟩, hp, hdecode⟩ := Js.except_bind_eq_ok hq
  have hcert' : Registration.cert (.action a) = some hashfiles := hfiles
  rw [prepare_action_decoded E env client ha hp hdecode, hprop, JS.lift_ok_bind, hcert',
    check_eq (runAction_result _ _) h hcert]
  split
  · rw [answer_acts]
  · rfl

/-- A certificate is decided on exactly once when at most one file matches.  A
protected action runs as often as a file matches. -/
theorem certificate_decides_once_iff {hashfiles : List String} (h : Readable K hashfiles)
    {cert : String} (hcert : cert ≠ "") :
    (DecidesOnce E K hashfiles cert ↔ matching E K hashfiles cert ≤ 1) ∧
      ∀ (env : Env) (client : Client) (name post : String) (a : ActionName) (query : Json),
        actions name = some (.action a) → a.cert = some hashfiles → queryOf K post = .ok query →
        query.prop "cert" = .ok (some (.str cert)) →
        (prepare_action E K env client name post).acts =
          if matching E K hashfiles cert = 0 then
            [.answer client (.text "error: incorrect certificate")]
          else (List.replicate (matching E K hashfiles cert)
            (runAction E env client name query (.action a)).acts).flatten := by
  refine ⟨decidesOnce_iff h hcert, ?_⟩
  intro env client name post a query ha hfiles hq hprop
  exact prepare_action_acts ha hfiles hq hprop h hcert

section Sample

/-- Keys with the same content in every hash file. -/
def Keys.sameHash (cmp_hash : String) : Keys := { Keys.simple [] with
  readFile := fun _ => .ok cmp_hash }

/-- Of the hash files of a checkin, both hold the hash of the certificate. -/
theorem same_hash_twice : ¬ ∀ (E : Ext) (K : Keys) (hashfiles : List String) (cert : String),
    hashfiles ≠ [] → Readable K hashfiles → cert ≠ "" → DecidesOnce E K hashfiles cert := by
  intro claim
  have once := claim Ext.simple (.sameHash "sha256:cert\n") ["ec_hash", "admin_hash"] "cert\n"
    (by simp) (fun _ _ => ⟨_, rfl⟩) (by decide)
  have matched : ∃ fn ∈ ["ec_hash", "admin_hash"], ∃ cmp_hash,
      (Keys.sameHash "sha256:cert\n").readFile fn = .ok cmp_hash ∧
        sliceEnd cmp_hash = Ext.simple.sha256 (sliceEnd "cert\n") :=
    ⟨"ec_hash", by simp, "sha256:cert\n", rfl, by decide⟩
  have marks := (once (.invoke "cb" none) (.invoke "cb_false" none)).1 matched
  have length := congrArg List.length marks
  exact absurd length (by decide +kernel)

/-- One of the two files matches. -/
theorem certificate_decides_once_ec :
    Readable (.simple []) ["ec_hash", "admin_hash"] ∧ "ec_hash." ≠ "" ∧
      matching Ext.simple (.simple []) ["ec_hash", "admin_hash"] "ec_hash." = 1 ∧
      DecidesOnce Ext.simple (.simple []) ["ec_hash", "admin_hash"] "ec_hash." := by
  have readable : Readable (.simple []) ["ec_hash", "admin_hash"] := fun _ _ => ⟨_, rfl⟩
  have one : matching Ext.simple (.simple []) ["ec_hash", "admin_hash"] "ec_hash." = 1 := by
    decide +kernel
  exact ⟨readable, by decide, one,
    (certificate_decides_once_iff readable (by decide)).1.mpr one.le⟩

end Sample

end SchuleAlsStaat
