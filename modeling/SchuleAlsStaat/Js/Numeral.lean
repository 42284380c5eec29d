import Mathlib.Data.List.TakeWhile
import Mathlib.Tactic.IntervalCases
import Mathlib.Tactic.Ring
import SchuleAlsStaat.Js.Value

/-!
# Numerals and their values

`ToString` of a number writes digits, a fraction without a zero at the end and
an exponent.  What follows from the text alone is where the last digit of the
number stands: `Numeral.places` is its distance from the point.  In the numeral of
a positive number this digit is not zero unless it stands before the point, so no
smaller number of places is enough (`Printed.exists_value_mul_pow_iff`).
-/

namespace SchuleAlsStaat.Js

/-! ## Digits -/

theorem natOfDigits_append (l l' : List Char) :
    natOfDigits (l ++ l') = natOfDigits l * 10 ^ l'.length + natOfDigits l' := by
  rw [natOfDigits, Nat.ofDigitChars_append, Nat.ofDigitChars_eq_ofDigitChars_zero, mul_comm]
  rfl

theorem natOfDigits_replicate_zero (k : ℕ) : natOfDigits (List.replicate k '0') = 0 := by
  rw [natOfDigits, Nat.ofDigitChars_replicate_zero, mul_zero]

theorem natOfDigits_digits (n : ℕ) : natOfDigits (digits n) = n := Nat.ofDigitChars_ten_toDigits

theorem isDigit_of_mem_digits {n : ℕ} {c : Char} (h : c ∈ digits n) : c.isDigit = true :=
  Nat.isDigit_of_mem_toDigits (by decide) le_rfl h

theorem digits_ne_nil (n : ℕ) : digits n ≠ [] := Nat.toDigits_ne_nil

/-- Only zeros are stripped. -/
theorem append_stripZeros (ds : List Char) :
    ds = stripZeros ds ++ List.replicate (ds.length - (stripZeros ds).length) '0' := by
  have zeros : ds.reverse.takeWhile (· = '0') =
      List.replicate (ds.reverse.takeWhile (· = '0')).length '0' :=
    List.eq_replicate_of_mem fun c hc => by simpa using List.mem_takeWhile_imp hc
  have split : ds = stripZeros ds ++ (ds.reverse.takeWhile (· = '0')).reverse := by
    rw [stripZeros, ← List.reverse_append, List.takeWhile_append_dropWhile, List.reverse_reverse]
  have len := congrArg List.length split
  rw [List.length_append, List.length_reverse] at len
  conv_lhs => rw [split]
  rw [zeros, List.reverse_replicate]
  congr 2
  omega

/-- A number is the number of its stripped digits, with the zeros put back. -/
theorem natOfDigits_stripZeros (n : ℕ) :
    natOfDigits (stripZeros (digits n)) *
      10 ^ ((digits n).length - (stripZeros (digits n)).length) = n := by
  conv_rhs => rw [← natOfDigits_digits n, append_stripZeros (digits n), natOfDigits_append,
    natOfDigits_replicate_zero, List.length_replicate, add_zero]

theorem length_stripZeros_le (ds : List Char) : (stripZeros ds).length ≤ ds.length := by
  have := congrArg List.length (append_stripZeros ds)
  rw [List.length_append] at this
  omega

theorem mem_of_mem_stripZeros {ds : List Char} {c : Char} (h : c ∈ stripZeros ds) : c ∈ ds := by
  rw [append_stripZeros ds]
  exact List.mem_append_left _ h

/-! ## The last digit -/

namespace Numeral

/-- The exponent. -/
def exponent (p : Numeral) : ℤ :=
  match p.exp with
  | none => 0
  | some (true, ds) => -natOfDigits ds
  | some (false, ds) => natOfDigits ds

/-- How many places the last digit stands after the point. -/
def places (p : Numeral) : ℤ := p.frac.length - p.exponent

/-- Digits are digits, and the integer part has no point and no exponent. -/
structure WellFormed (p : Numeral) : Prop where
  int : ∀ c ∈ p.int, c ≠ '.' ∧ c ≠ 'e' ∧ c ≠ 'E'
  frac : ∀ c ∈ p.frac, c.isDigit = true
  exp : ∀ neg ds, p.exp = some (neg, ds) → ds ≠ [] ∧ ∀ c ∈ ds, c.isDigit = true

theorem ne_of_isDigit {c : Char} (h : c.isDigit = true) : c ≠ '.' ∧ c ≠ 'e' ∧ c ≠ 'E' := by
  refine ⟨?_, ?_, ?_⟩ <;>
  · rintro rfl
    exact absurd h (by decide)

variable {sign ds : List Char} {n : ℤ}

theorem wellFormed_format (hs : ∀ c ∈ sign, c = '-') (hd : ∀ c ∈ ds, c.isDigit = true) :
    (format sign ds n).WellFormed := by
  have minus : ∀ c ∈ sign, c ≠ '.' ∧ c ≠ 'e' ∧ c ≠ 'E' := fun c hc => by
    rw [hs c hc]
    decide
  have digit : ∀ c ∈ ds, c ≠ '.' ∧ c ≠ 'e' ∧ c ≠ 'E' := fun c hc => ne_of_isDigit (hd c hc)
  have zero : ∀ k, ∀ c ∈ List.replicate k '0', c.isDigit = true := fun k c hc => by
    rw [List.eq_of_mem_replicate hc]
    decide
  rw [format]
  split
  · refine ⟨fun c hc => ?_, by simp, by simp⟩
    rw [List.mem_append, List.mem_append] at hc
    rcases hc with (hc | hc) | hc
    · exact minus c hc
    · exact digit c hc
    · exact ne_of_isDigit (zero _ c hc)
  split
  · refine ⟨fun c hc => ?_, fun c hc => hd c (List.mem_of_mem_drop hc), by simp⟩
    rcases List.mem_append.mp hc with hc | hc
    · exact minus c hc
    · exact digit c (List.mem_of_mem_take hc)
  split
  · refine ⟨fun c hc => ?_, fun c hc => ?_, by simp⟩
    · rcases List.mem_append.mp hc with hc | hc
      · exact minus c hc
      · rw [List.mem_singleton.mp hc]
        decide
    · rcases List.mem_append.mp hc with hc | hc
      · exact zero _ c hc
      · exact hd c hc
  · refine ⟨fun c hc => ?_, fun c hc => hd c (List.mem_of_mem_drop hc), fun neg es hes => ?_⟩
    · rcases List.mem_append.mp hc with hc | hc
      · exact minus c hc
      · exact digit c (List.mem_of_mem_take hc)
    · cases hes
      exact ⟨digits_ne_nil _, fun c hc => isDigit_of_mem_digits hc⟩

/-- The exponent of `format` is the position of the point after the first digit. -/
theorem exponent_format (int frac : List Char) (n : ℤ) :
    exponent ⟨int, frac, some (n - 1 < 0, digits (n - 1).natAbs)⟩ = n - 1 := by
  by_cases hneg : n - 1 < 0
  · simp only [exponent, hneg, decide_true, natOfDigits_digits]
    rw [Int.ofNat_natAbs_of_nonpos hneg.le, neg_neg]
  · simp only [exponent, hneg, decide_false, natOfDigits_digits]
    exact Int.natAbs_of_nonneg (not_lt.mp hneg)

/-- The digits `ds` end `ds.length - n` places after the point. -/
theorem toNat_places_format (hd : ds ≠ []) :
    (format sign ds n).places.toNat = (ds.length - n).toNat := by
  have hlen : 0 < ds.length := List.length_pos_iff.mpr hd
  rw [format]
  split
  next h => simp only [places, exponent, List.length_nil]; omega
  split
  next h => simp only [places, exponent, List.length_drop]; omega
  split
  next h => simp only [places, exponent, List.length_append, List.length_replicate]; omega
  next h =>
    rw [places, exponent_format, List.length_drop]
    omega

end Numeral

/-- The numeral of a number is well formed. -/
theorem Decimal.wellFormed_numeral (d : Decimal) : d.numeral.WellFormed := by
  rw [numeral]
  split
  · exact ⟨by simp, by simp, by simp⟩
  · refine Numeral.wellFormed_format (fun c hc => ?_) fun c hc =>
      isDigit_of_mem_digits (mem_of_mem_stripZeros hc)
    split at hc
    · exact List.mem_singleton.mp hc
    · cases hc

/-- A number is a multiple of the place of its last digit. -/
theorem Decimal.exists_value_mul_pow (d : Decimal) :
    ∃ m : ℤ, d.value * 10 ^ d.numeral.places.toNat = m := by
  by_cases h0 : d.coeff = 0
  · exact ⟨0, by simp [value, h0]⟩
  rw [numeral, if_neg h0]
  set all := digits d.coeff.natAbs
  set ds := stripZeros all
  -- the digits of the coefficient are `ds` and `k` zeros
  set k := all.length - ds.length
  have hcoeff : natOfDigits ds * 10 ^ k = d.coeff.natAbs := natOfDigits_stripZeros _
  have hlen : ds.length ≤ all.length := length_stripZeros_le all
  have hne : ds ≠ [] := by
    intro hnil
    rw [hnil] at hcoeff
    exact h0 (Int.natAbs_eq_zero.mp (by simpa [natOfDigits] using hcoeff.symm))
  have hsign : (d.coeff : ℚ) = d.coeff.sign * (natOfDigits ds * 10 ^ k : ℕ) := by
    rw [hcoeff, ← Int.cast_natCast, ← Int.cast_mul, Int.sign_mul_natAbs]
  rw [Numeral.toNat_places_format hne]
  -- the exponent that is left after the shift is not negative
  set j := (ds.length - (all.length + d.exp) : ℤ).toNat with hj
  obtain ⟨i, hi⟩ : ∃ i : ℕ, (k : ℤ) + d.exp + j = i := ⟨((k : ℤ) + d.exp + j).toNat, by omega⟩
  refine ⟨d.coeff.sign * (natOfDigits ds * 10 ^ i : ℕ), ?_⟩
  have hpow : (10 : ℚ) ^ k * 10 ^ d.exp * 10 ^ j = 10 ^ i := by
    rw [← zpow_natCast 10 k, ← zpow_natCast 10 j, ← zpow_natCast 10 i, ← hi,
      zpow_add₀ (by norm_num), zpow_add₀ (by norm_num)]
  rw [value, hsign]
  push_cast
  rw [← hpow]
  ring

/-! ## The numerals of positive numbers -/

theorem natOfDigits_singleton {c : Char} (hd : c.isDigit = true) (h0 : c ≠ '0') :
    0 < natOfDigits [c] ∧ natOfDigits [c] < 10 := by
  have hval : natOfDigits [c] = c.toNat - 48 := by simp [natOfDigits, Nat.ofDigitChars_cons]
  have hne : c.toNat ≠ 48 := fun h => h0 (Char.toNat_inj.mp h)
  obtain ⟨hle, hge⟩ : 48 ≤ c.toNat ∧ c.toNat ≤ 57 := by
    simpa [Char.isDigit, UInt32.le_iff_toNat_le] using hd
  omega

/-- Digits that end in another digit than zero denote no multiple of ten. -/
theorem not_ten_dvd_natOfDigits {ds : List Char} (hd : ∀ c ∈ ds, c.isDigit = true) (hne : ds ≠ [])
    (hlast : ds.getLast? ≠ some '0') : ¬ 10 ∣ natOfDigits ds := by
  have hmem := List.getLast_mem hne
  have h0 : ds.getLast hne ≠ '0' := fun h => hlast (by rw [List.getLast?_eq_some_getLast hne, h])
  obtain ⟨hpos, hlt⟩ := natOfDigits_singleton (hd _ hmem) h0
  rw [← List.dropLast_append_getLast hne, natOfDigits_append, List.length_singleton, pow_one]
  omega

/-- A number that is no multiple of ten needs all its places. -/
theorem exists_mul_zpow_iff {m : ℕ} (h : ¬ 10 ∣ m) (k : ℤ) :
    (∃ n : ℤ, (m : ℚ) * 10 ^ k = n) ↔ 0 ≤ k := by
  constructor
  · rintro ⟨n, hn⟩
    by_contra hk
    obtain ⟨j, hj⟩ : ∃ j : ℕ, k = -(j + 1 : ℕ) := ⟨(-k - 1).toNat, by omega⟩
    refine h ?_
    have hm : (m : ℚ) = n * 10 ^ (j + 1) := by
      rw [← hn, hj, zpow_neg, zpow_natCast, inv_mul_cancel_right₀ (by positivity)]
    have hm' : (m : ℤ) = n * 10 ^ (j + 1) := by exact_mod_cast hm
    have hdvd : (10 : ℤ) ∣ m := ⟨n * 10 ^ j, by rw [hm', pow_succ]; ring⟩
    exact_mod_cast hdvd
  · intro hk
    refine ⟨m * 10 ^ k.toNat, ?_⟩
    push_cast
    rw [← zpow_natCast, Int.toNat_of_nonneg hk]

namespace Numeral

/-- The number that a numeral without a sign denotes. -/
def value (p : Numeral) : ℚ := natOfDigits (p.int ++ p.frac) * 10 ^ (-p.places)

/-- What `ToString` gives for a positive number: an integer, digits around a
point, or one digit with an exponent. -/
inductive Printed : Numeral → Prop where
  | integer {ds : List Char} : ds ≠ [] → (∀ c ∈ ds, c.isDigit = true) → Printed ⟨ds, [], none⟩
  | point {ds fs : List Char} : ds ≠ [] → (∀ c ∈ ds, c.isDigit = true) → fs ≠ [] →
      (∀ c ∈ fs, c.isDigit = true) → fs.getLast? ≠ some '0' → Printed ⟨ds, fs, none⟩
  | exponent {c : Char} {fs es : List Char} {neg : Bool} : c.isDigit = true → c ≠ '0' →
      (∀ c ∈ fs, c.isDigit = true) → fs.getLast? ≠ some '0' → es ≠ [] →
      (∀ c ∈ es, c.isDigit = true) → Printed ⟨[c], fs, some (neg, es)⟩

theorem Printed.wellFormed {p : Numeral} (h : p.Printed) : p.WellFormed := by
  cases h with
  | integer _ hd => exact ⟨fun c hc => ne_of_isDigit (hd c hc), by simp, by simp⟩
  | point _ hd _ hf _ => exact ⟨fun c hc => ne_of_isDigit (hd c hc), hf, by simp⟩
  | exponent hc _ hf _ he hes =>
      refine ⟨fun c' hc' => ?_, hf, fun neg ds hds => ?_⟩
      · rw [List.mem_singleton.mp hc']
        exact ne_of_isDigit hc
      · cases hds
        exact ⟨he, hes⟩

/-- A positive number has no fewer decimal places than its numeral shows. -/
theorem Printed.exists_value_mul_pow_iff {p : Numeral} (h : p.Printed) (d : ℕ) :
    (∃ n : ℤ, p.value * 10 ^ d = n) ↔ p.places.toNat ≤ d := by
  have shift : p.value * 10 ^ d = natOfDigits (p.int ++ p.frac) * 10 ^ (-p.places + d) := by
    rw [value, mul_assoc, zpow_add₀ (by norm_num), zpow_natCast]
  -- unless the number is an integer, the last digit is not zero
  have last (hdvd : ¬ 10 ∣ natOfDigits (p.int ++ p.frac)) :
      (∃ n : ℤ, p.value * 10 ^ d = n) ↔ p.places.toNat ≤ d := by
    rw [shift, exists_mul_zpow_iff hdvd]
    omega
  cases h with
  | @integer ds _ _ =>
      have hplaces : places ⟨ds, [], none⟩ = 0 := rfl
      refine iff_of_true ⟨natOfDigits ds * 10 ^ d, ?_⟩ (by simp [hplaces])
      simp [value, hplaces]
  | @point ds fs _ hd hne hf hl =>
      refine last (not_ten_dvd_natOfDigits (fun c hc => ?_) (by simp [hne]) ?_)
      · exact (List.mem_append.mp hc).elim (hd c) (hf c)
      · rwa [List.getLast?_append_of_ne_nil _ hne]
  | @exponent c fs es neg hc h0 hf hl _ _ =>
      refine last (not_ten_dvd_natOfDigits (fun c' hc' => ?_) (by simp) ?_)
      · rcases List.mem_append.mp hc' with hc' | hc'
        · rwa [List.mem_singleton.mp hc']
        · exact hf c' hc'
      · by_cases hne : fs = []
        · simpa [hne] using h0
        · rwa [List.getLast?_append_of_ne_nil _ hne]

theorem printed_format (hne : ds ≠ []) (hd : ∀ c ∈ ds, c.isDigit = true)
    (hhead : ds.head? ≠ some '0') (hlast : ds.getLast? ≠ some '0') :
    (format [] ds n).Printed := by
  have hlen : 0 < ds.length := List.length_pos_iff.mpr hne
  have zero : ∀ k, ∀ c ∈ List.replicate k '0', c.isDigit = true := fun k c hc => by
    rw [List.eq_of_mem_replicate hc]
    decide
  rw [format]
  split
  · refine .integer (by simp [hne]) fun c hc => ?_
    rw [List.nil_append, List.mem_append] at hc
    exact hc.elim (hd c) (zero _ c)
  split
  next _ h =>
    refine .point ?_ (fun c hc => hd c (List.mem_of_mem_take hc)) ?_
      (fun c hc => hd c (List.mem_of_mem_drop hc)) ?_
    · rw [List.nil_append, ne_eq, List.take_eq_nil_iff, or_iff_left hne]
      omega
    · rw [ne_eq, List.drop_eq_nil_iff]
      omega
    · rwa [List.getLast?_drop, if_neg (by omega)]
  split
  · refine .point (by simp) (by simp) (by simp [hne]) (fun c hc => ?_) ?_
    · exact (List.mem_append.mp hc).elim (zero _ c) (hd c)
    · rwa [List.getLast?_append_of_ne_nil _ hne]
  · obtain ⟨c, cs, rfl⟩ := List.exists_cons_of_ne_nil hne
    refine .exponent (hd c (List.mem_cons_self ..)) (by simpa using hhead)
      (fun c' hc' => hd c' (List.mem_cons_of_mem _ hc')) ?_ (digits_ne_nil _)
      fun c' hc' => isDigit_of_mem_digits hc'
    cases cs with
    | nil => simp
    | cons c' cs => rwa [List.getLast?_cons_cons] at hlast

theorem value_format (hne : ds ≠ []) :
    (format [] ds n).value = natOfDigits ds * 10 ^ (n - ds.length) := by
  have hlen : 0 < ds.length := List.length_pos_iff.mpr hne
  have zeros (k : ℕ) (l : List Char) : natOfDigits (List.replicate k '0' ++ l) = natOfDigits l := by
    rw [natOfDigits_append, natOfDigits_replicate_zero, zero_mul, zero_add]
  rw [format]
  split
  next h =>
    obtain ⟨k, hk⟩ : ∃ k : ℕ, n = ds.length + k := ⟨(n - ds.length).toNat, by omega⟩
    have hpad : n.toNat - ds.length = k := by omega
    have hexp : n - ds.length = k := by omega
    have hplaces : places ⟨[] ++ ds ++ List.replicate k '0', [], none⟩ = 0 := rfl
    rw [hpad, hexp, value, hplaces, List.append_nil, List.nil_append, natOfDigits_append,
      natOfDigits_replicate_zero, List.length_replicate]
    simp
  split
  next h =>
    rw [value, List.nil_append, List.take_append_drop]
    congr 2
    simp only [places, exponent, List.length_drop]
    omega
  split
  next h =>
    have hint : [] ++ ['0'] ++ (List.replicate (-n).toNat '0' ++ ds) =
        List.replicate 1 '0' ++ (List.replicate (-n).toNat '0' ++ ds) := rfl
    rw [value, hint, zeros, zeros]
    congr 2
    simp only [places, exponent, List.length_append, List.length_replicate]
    omega
  next h =>
    rw [value, places, exponent_format, List.nil_append, List.take_append_drop, List.length_drop]
    congr 2
    omega

end Numeral

/-- The first digit of a positive number is not zero. -/
theorem head?_digits {n : ℕ} (h : 0 < n) : (digits n).head? ≠ some '0' := by
  induction n using Nat.strong_induction_on with
  | _ n ih =>
      rw [digits, Nat.toDigits_eq_if (by decide)]
      split
      next hlt => interval_cases n <;> decide
      next hge =>
        rw [List.head?_append_of_ne_nil _ (Nat.toDigits_ne_nil)]
        exact ih (n / 10) (by omega) (by omega)

theorem getLast?_stripZeros (ds : List Char) : (stripZeros ds).getLast? ≠ some '0' := by
  rw [stripZeros, List.getLast?_reverse]
  intro h
  have := List.head?_dropWhile_not (fun c => decide (c = '0')) ds.reverse
  rw [h] at this
  simp at this

/-- The digits of a positive number without the zeros at its end. -/
theorem stripZeros_digits {n : ℕ} (h : 0 < n) :
    stripZeros (digits n) ≠ [] ∧ (stripZeros (digits n)).head? ≠ some '0' := by
  have split := append_stripZeros (digits n)
  have hne : stripZeros (digits n) ≠ [] := by
    intro hnil
    rw [hnil, List.nil_append] at split
    have hval := natOfDigits_digits n
    rw [split, natOfDigits_replicate_zero] at hval
    exact h.ne hval
  refine ⟨hne, ?_⟩
  rw [← List.head?_append_of_ne_nil _ hne, ← split]
  exact head?_digits h

/-- The numeral of a positive number, and that it denotes the number. -/
theorem Decimal.numeral_of_pos {d : Decimal} (h : 0 < d.value) :
    d.numeral.Printed ∧ d.numeral.value = d.value := by
  have hpos : 0 < d.coeff := by
    have hpow : (0 : ℚ) < 10 ^ d.exp := zpow_pos (by norm_num) d.exp
    exact_mod_cast (pos_iff_pos_of_mul_pos h).mpr hpow
  have hnat : 0 < d.coeff.natAbs := by omega
  obtain ⟨hne, hhead⟩ := stripZeros_digits hnat
  have hd : ∀ c ∈ stripZeros (digits d.coeff.natAbs), c.isDigit = true := fun c hc =>
    isDigit_of_mem_digits (mem_of_mem_stripZeros hc)
  rw [numeral, if_neg hpos.ne', if_neg hpos.not_gt]
  refine ⟨Numeral.printed_format hne hd hhead (getLast?_stripZeros _), ?_⟩
  rw [Numeral.value_format hne, value]
  set all := digits d.coeff.natAbs
  set ds := stripZeros all
  have hcoeff : natOfDigits ds * 10 ^ (all.length - ds.length) = d.coeff.natAbs :=
    natOfDigits_stripZeros _
  have hlen : ds.length ≤ all.length := length_stripZeros_le all
  have hexp : (all.length + d.exp - ds.length : ℤ) = (all.length - ds.length : ℕ) + d.exp := by
    omega
  have hcast : ((natOfDigits ds * 10 ^ (all.length - ds.length) : ℕ) : ℚ) = d.coeff := by
    rw [hcoeff, ← Int.cast_natCast, Int.natAbs_of_nonneg hpos.le]
  rw [hexp, zpow_add₀ (by norm_num), zpow_natCast, ← hcast]
  push_cast
  ring

end SchuleAlsStaat.Js
