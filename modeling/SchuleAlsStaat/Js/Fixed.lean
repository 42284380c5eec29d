import Mathlib.Algebra.Order.Floor.Ring
import Mathlib.Data.Rat.Floor
import Mathlib.Tactic.Linarith
import SchuleAlsStaat.Js.Numeral

/-!
# Reading and showing amounts

`parseFloat` reads the longest prefix of a string that is a decimal literal.
`toFixed` shows a number with a fixed number of decimals, rounded to the nearest.
`Infinity` has no exact value, so `parseFloat` gives `NaN` for it, which is `none`.
-/

namespace SchuleAlsStaat.Js

/-! ## `parseFloat` -/

/-- The exponent at the front of `cs`, which is 0 if there is none. -/
def exponentPrefix (cs : List Char) : ℤ :=
  match cs with
  | [] => 0
  | c :: ds =>
      if c = 'e' ∨ c = 'E' then
        match ds with
        | '-' :: ds => -natOfDigits (ds.takeWhile Char.isDigit)
        | '+' :: ds => natOfDigits (ds.takeWhile Char.isDigit)
        | ds => natOfDigits (ds.takeWhile Char.isDigit)
      else 0

/-- The longest unsigned decimal literal at the front of `cs`. -/
def decimalPrefix (cs : List Char) : Option Decimal :=
  let ip := cs.takeWhile Char.isDigit
  let (fp, rest) := match cs.dropWhile Char.isDigit with
    | '.' :: r => (r.takeWhile Char.isDigit, r.dropWhile Char.isDigit)
    | r => ([], r)
  if ip = [] ∧ fp = [] then none
  else some ⟨natOfDigits (ip ++ fp), exponentPrefix rest - fp.length⟩

def parseFloat (s : String) : Option Decimal :=
  match s.toList.dropWhile isSpace with
  | '-' :: cs => (decimalPrefix cs).map fun d => ⟨-d.coeff, d.exp⟩
  | '+' :: cs => decimalPrefix cs
  | cs => decimalPrefix cs

example : parseFloat " 12.50 HGC" = some ⟨1250, -2⟩ := by decide +kernel
example : parseFloat "1.5e2e3" = some ⟨15, 1⟩ := by decide +kernel

/-! ## `toFixed` -/

/-- The digits of `n`, at least one more than `f`. -/
def paddedDigits (f n : ℕ) : List Char :=
  List.replicate (f + 1 - (digits n).length) '0' ++ digits n

/-- The number of units of the last of `f` decimals that are closest to `d`. -/
def roundedUnits (f : ℕ) (d : Decimal) : ℕ := ⌊|d.value| * 10 ^ f + 1 / 2⌋.toNat

/-- `toFixed` of a number below `10 ^ 21`, as a numeral. -/
def Decimal.fixed (f : ℕ) (d : Decimal) : Numeral :=
  let m := paddedDigits f (roundedUnits f d)
  ⟨(if d.value < 0 then ['-'] else []) ++ m.take (m.length - f), m.drop (m.length - f), none⟩

/-- `d.toFixed(f)`. -/
def Decimal.toFixed (f : ℕ) (d : Decimal) : String :=
  if 10 ^ 21 ≤ |d.value| then d.toString else String.ofList (d.fixed f).render

example : Decimal.toFixed 2 ⟨1250, -2⟩ = "12.50" := by decide +kernel
example : Decimal.toFixed 2 ⟨-1, -3⟩ = "-0.00" := by decide +kernel

section Fixed

variable {f n : ℕ} {d : Decimal}

theorem natOfDigits_paddedDigits : natOfDigits (paddedDigits f n) = n := by
  rw [paddedDigits, natOfDigits_append, natOfDigits_replicate_zero, zero_mul, zero_add,
    natOfDigits_digits]

theorem lt_length_paddedDigits : f < (paddedDigits f n).length := by
  rw [paddedDigits, List.length_append, List.length_replicate]
  omega

/-- What `toFixed` shows of a number is its rounded value. -/
theorem value_fixed (h : 0 ≤ d.value) :
    (d.fixed f).value = roundedUnits f d * 10 ^ (-(f : ℤ)) := by
  have hlt := lt_length_paddedDigits (f := f) (n := roundedUnits f d)
  have hplaces : (d.fixed f).places = f := by
    rw [Numeral.places, Decimal.fixed, List.length_drop]
    show (((paddedDigits f (roundedUnits f d)).length -
      ((paddedDigits f (roundedUnits f d)).length - f) : ℕ) : ℤ) - 0 = f
    omega
  rw [Numeral.value, hplaces, Decimal.fixed, if_neg (not_lt.mpr h), List.nil_append,
    List.take_append_drop, natOfDigits_paddedDigits]

/-- The units shown are half a unit off at most. -/
theorem abs_roundedUnits_sub_le (h : 0 ≤ d.value) :
    |(roundedUnits f d : ℚ) - d.value * 10 ^ f| ≤ 1 / 2 := by
  have hpos : (0 : ℚ) ≤ d.value * 10 ^ f + 1 / 2 :=
    add_nonneg (mul_nonneg h (by positivity)) (by norm_num)
  have hfloor : (roundedUnits f d : ℚ) = ⌊d.value * 10 ^ f + 1 / 2⌋ := by
    rw [roundedUnits, abs_of_nonneg h]
    exact_mod_cast Int.toNat_of_nonneg (Int.floor_nonneg.mpr hpos)
  have hle := Int.floor_le (d.value * 10 ^ f + 1 / 2)
  have hlt := Int.lt_floor_add_one (d.value * 10 ^ f + 1 / 2)
  rw [hfloor, abs_le]
  constructor <;> linarith

/-- `toFixed` is off by at most half a unit of the last decimal. -/
theorem abs_value_fixed_sub_le (h : 0 ≤ d.value) :
    |(d.fixed f).value - d.value| ≤ 1 / 2 * 10 ^ (-(f : ℤ)) := by
  have hpow : (0 : ℚ) < 10 ^ (-(f : ℤ)) := zpow_pos (by norm_num) _
  have hone : (10 : ℚ) ^ f * 10 ^ (-(f : ℤ)) = 1 := by
    rw [← zpow_natCast, ← zpow_add₀ (by norm_num), add_neg_cancel, zpow_zero]
  have hsplit : (d.fixed f).value - d.value =
      ((roundedUnits f d : ℚ) - d.value * 10 ^ f) * 10 ^ (-(f : ℤ)) := by
    rw [value_fixed h, sub_mul, mul_assoc, hone, mul_one]
  rw [hsplit, abs_mul, abs_of_pos hpow]
  exact mul_le_mul_of_nonneg_right (abs_roundedUnits_sub_le h) hpow.le

end Fixed

end SchuleAlsStaat.Js
