import SchuleAlsStaat.Actions.Transactions
import Mathlib.Order.Bounds.Defs

/-!
# The decimal places of an amount

`transaction_normal` limits the decimal places of an amount.  `nDecimals` reads
them off the string of the number.  It finds the least number of places, in all
the forms that `ToString` gives, so the limit admits exactly the multiples of the
last allowed place.
-/

namespace SchuleAlsStaat

open Js (Json JsVal JS Decimal Numeral)

/-! ## Counting -/

theorem nDecimals_str (s : String) : nDecimals (some (.str s)) = .ok (decimalsOf s.toList) := by
  simp [nDecimals, JsVal.toStr, Json.toStr, Except.map]

/-- No fewer places are enough for a number than its numeral shows. -/
theorem isLeast_decimalsOf {p : Numeral} (h : p.Printed) :
    IsLeast {d : ℕ | ∃ n : ℤ, 10 ^ d * p.value = n} (decimalsOf p.render) := by
  have hmem (d : ℕ) : (∃ n : ℤ, 10 ^ d * p.value = n) ↔ p.places.toNat ≤ d := by
    rw [mul_comm]
    exact h.exists_value_mul_pow_iff d
  rw [decimalsOf_render h.wellFormed]
  constructor
  · exact (hmem _).mpr le_rfl
  · intro d hd
    exact (hmem d).mp hd

/-- A positive number has at most `k` decimal places when it is a multiple of
the `k`-th. -/
theorem nDecimals_le_iff {d : Decimal} (h : 0 < d.value) (k : ℕ) :
    decimalsOf d.numeral.render ≤ k ↔ Grid.OnGrid ((10 : ℚ) ^ k) d.value := by
  obtain ⟨printed, value⟩ := Decimal.numeral_of_pos h
  rw [decimalsOf_render printed.wellFormed, ← printed.exists_value_mul_pow_iff k, value]
  rfl

/-! ## The limit -/

/-- An amount is not given, or it is a positive number. -/
def IsAmount (amount : JsVal) : Prop :=
  amount.truthy = false ∨ ∃ d : Decimal, amount = some (.num d) ∧ 0 < d.value

/-- An amount that is given is a multiple of the last allowed place. -/
def FitsPlaces (cfg : Config) (amount : JsVal) : Prop :=
  ∀ d : Decimal, amount = some (.num d) → Grid.OnGrid ((10 : ℚ) ^ cfg.hgc_tr_decimal_places) d.value

theorem tooManyDecplaces_of_isAmount (cfg : Config) {amount : JsVal} (h : IsAmount amount) :
    ∃ b, tooManyDecplaces cfg amount = .ok b ∧ (b = false ↔ FitsPlaces cfg amount) := by
  rcases h with hfalsy | ⟨d, rfl, hpos⟩
  · refine ⟨false, by rw [tooManyDecplaces, hfalsy]; rfl, iff_of_true rfl ?_⟩
    rintro d rfl
    have h0 : d.coeff = 0 := by simpa [Json.truthy] using hfalsy
    exact ⟨0, by simp [Decimal.value, h0]⟩
  · have hne : d.coeff ≠ 0 := by
      intro h0
      simp [Decimal.value, h0] at hpos
    refine ⟨cfg.hgc_tr_decimal_places < decimalsOf d.numeral.render, ?_, ?_⟩
    · rw [tooManyDecplaces, if_pos (by simpa [Json.truthy] using hne), nDecimals_num]
      rfl
    · rw [decide_eq_false_iff_not, not_lt, nDecimals_le_iff hpos]
      exact ⟨fun h d' hd' => by cases hd'; exact h, fun h => h d rfl⟩

/-- The amounts of a transaction pass when each of them fits. -/
theorem normal_eq (env : Env) (client : Client) {args : NormalArgs}
    (hcomment : commentTooLong env.cfg args.comment = .ok false) (hs : IsAmount args.sent)
    (hr : IsAmount args.received) :
    (FitsPlaces env.cfg args.sent ∧ FitsPlaces env.cfg args.received →
      normal env client args = getByQridLean client args.sender (.transaction_normal args)) ∧
    (¬ (FitsPlaces env.cfg args.sent ∧ FitsPlaces env.cfg args.received) →
      normal env client args = answer client (.text "too_many_decplaces")) := by
  obtain ⟨bs, sent, fits_sent⟩ := tooManyDecplaces_of_isAmount env.cfg hs
  obtain ⟨br, received, fits_received⟩ := tooManyDecplaces_of_isAmount env.cfg hr
  rw [normal, hcomment, sent, received, ← fits_sent, ← fits_received]
  cases bs <;> cases br <;> simp [JS.lift_ok_bind]

/-- `nDecimals` is exact on every numeral of a positive number, and the limit of
`transaction_normal` admits the multiples of the last allowed place. -/
theorem nDecimals_exact :
    (∀ p : Numeral, p.Printed → ∃ n, nDecimals (some (.str (String.ofList p.render))) = .ok n ∧
      IsLeast {d : ℕ | ∃ i : ℤ, 10 ^ d * p.value = i} n) ∧
    (∀ d : Decimal, 0 < d.value → d.numeral.Printed ∧ d.numeral.value = d.value ∧
      nDecimals (some (.num d)) = nDecimals (some (.str (String.ofList d.numeral.render)))) ∧
    ∀ (env : Env) (client : Client) (payload tax : JsVal) (args : NormalArgs),
      NormalArgs.read payload tax = .ok args → commentTooLong env.cfg args.comment = .ok false →
      IsAmount args.sent → IsAmount args.received →
      (FitsPlaces env.cfg args.sent ∧ FitsPlaces env.cfg args.received →
        transaction_normal env client payload tax =
          getByQridLean client args.sender (.transaction_normal args)) ∧
      (¬ (FitsPlaces env.cfg args.sent ∧ FitsPlaces env.cfg args.received) →
        transaction_normal env client payload tax =
          answer client (.text "too_many_decplaces")) := by
  refine ⟨fun p hp => ?_, fun d hd => ?_, fun env client payload tax args hread => ?_⟩
  · refine ⟨_, nDecimals_str _, ?_⟩
    rw [String.toList_ofList]
    exact isLeast_decimalsOf hp
  · obtain ⟨printed, value⟩ := Decimal.numeral_of_pos hd
    refine ⟨printed, value, ?_⟩
    rw [nDecimals_num, nDecimals_str, String.toList_ofList]
  · rw [transaction_normal, hread, JS.lift_ok_bind]
    exact normal_eq env client

/-- Fifteen hundred-millionths have eight places. -/
theorem nDecimals_exact_small :
    (⟨['1'], ['5'], some (true, ['7'])⟩ : Numeral).Printed ∧
      IsLeast {d : ℕ | ∃ i : ℤ, 10 ^ d *
        (⟨['1'], ['5'], some (true, ['7'])⟩ : Numeral).value = i} 8 := by
  have printed : (⟨['1'], ['5'], some (true, ['7'])⟩ : Numeral).Printed :=
    .exponent (by decide) (by decide) (List.forall_mem_singleton.mpr (by decide)) (by decide)
      (by simp) (List.forall_mem_singleton.mpr (by decide))
  obtain ⟨n, hn, least⟩ := nDecimals_exact.1 _ printed
  have eight : nDecimals (some (.str (String.ofList
      (⟨['1'], ['5'], some (true, ['7'])⟩ : Numeral).render))) = .ok 8 := by decide
  cases hn.symm.trans eight
  exact ⟨printed, least⟩

end SchuleAlsStaat
