import SchuleAlsStaat.Actions.Decimals

/-!
# The decimal places at the terminal

The user terminal checks the decimal places of an amount before it sends it.  Its
`nDecimals` counts what stands after the point in the string of the number.  In
front of an exponent this is not the number of decimal places, and
`Numeral.SameVerdict` says when the terminal still decides like the server.
-/

namespace SchuleAlsStaat

open Js (Json JsVal Decimal Numeral)

namespace TransactionSimple

/-- What stands between the first two points, or after the only one.  An empty
string counts like none. -/
def nDecimals (number : List Char) : ℕ := ((number.splitOn '.')[1]?.getD []).length

/-- The check of the confirm button on the string of an amount. -/
def tooManyDecimals (HGC_TR_DECIMAL_PLACES : ℕ) (amount : List Char) : Bool :=
  HGC_TR_DECIMAL_PLACES < nDecimals amount

end TransactionSimple

section Numeral

variable {p : Numeral}

theorem point_notMem_exponentText (h : p.WellFormed) : '.' ∉ p.exponentText := by
  rw [Numeral.exponentText]
  cases hexp : p.exp with
  | none => simp
  | some e =>
      obtain ⟨neg, ds⟩ := e
      have hds : '.' ∉ ds := fun hmem => absurd ((h.exp neg ds hexp).2 '.' hmem) (by decide)
      cases neg <;> simp [hds]

/-- Everything after the point is counted, the exponent included. -/
theorem nDecimals_render (h : p.WellFormed) :
    TransactionSimple.nDecimals p.render =
      if p.frac = [] then 0 else p.frac.length + p.exponentText.length := by
  have hint : '.' ∉ p.int := fun hmem => (h.int '.' hmem).1 rfl
  have hexp := point_notMem_exponentText h
  rw [TransactionSimple.nDecimals, Numeral.render]
  split
  next =>
    rw [List.nil_append, List.splitOn_eq_singleton (by simp [hint, hexp])]
    rfl
  next =>
    have hfrac : '.' ∉ p.frac := fun hmem => absurd (h.frac '.' hmem) (by decide)
    rw [List.cons_append, List.splitOn_append_cons_self_of_not_mem hint,
      List.splitOn_eq_singleton (a := '.') (by simp [hfrac, hexp])]
    simp

/-- The length of an exponent with its letter and its sign. -/
theorem length_exponentText (p : Numeral) :
    p.exponentText.length = p.exp.elim 0 fun e => e.2.length + 2 := by
  rw [Numeral.exponentText]
  cases p.exp with
  | none => rfl
  | some e => simp

/-- When terminal and server decide alike: there is no exponent, or no fraction
and `k` places are enough, or `k` does not lie between the number of places and the
length of the text after the point. -/
def Js.Numeral.SameVerdict (p : Numeral) (k : ℕ) : Prop :=
  match p.exp with
  | none => True
  | some (_, ds) =>
      if p.frac = [] then p.places ≤ k
      else (k < p.places ∧ k < p.frac.length + 2 + ds.length) ∨
        (p.places ≤ k ∧ p.frac.length + 2 + ds.length ≤ k)

instance (k : ℕ) : Decidable (p.SameVerdict k) := by
  unfold Numeral.SameVerdict
  split <;> infer_instance

theorem sameVerdict_iff (h : p.WellFormed) (k : ℕ) :
    (TransactionSimple.tooManyDecimals k p.render = true ↔ k < decimalsOf p.render) ↔
      p.SameVerdict k := by
  rw [TransactionSimple.tooManyDecimals, decide_eq_true_iff, nDecimals_render h,
    length_exponentText, decimalsOf_render h, Numeral.SameVerdict]
  cases hexp : p.exp with
  | none =>
      -- without an exponent both count the fraction
      have hplaces : p.places = p.frac.length := by simp [Numeral.places, Numeral.exponent, hexp]
      simp only [hplaces, Int.toNat_natCast, Option.elim_none, add_zero, iff_true]
      by_cases hf : p.frac = []
      · simp [hf]
      · rw [if_neg hf]
  | some e =>
      obtain ⟨neg, ds⟩ := e
      simp only [Option.elim_some]
      by_cases hf : p.frac = []
      · rw [if_pos hf, if_pos hf]
        omega
      · rw [if_neg hf, if_neg hf]
        omega

end Numeral

/-- The terminal and the server reject the same amounts exactly when they reach the
same verdict on the numeral.  On a number the server decides by its string. -/
theorem terminal_agrees_iff {p : Numeral} (hp : p.Printed) (k : ℕ) :
    ((TransactionSimple.tooManyDecimals k p.render = true ↔
      ∃ n, nDecimals (some (.str (String.ofList p.render))) = .ok n ∧ k < n) ↔
      p.SameVerdict k) ∧
    ∀ (cfg : Config) (d : Decimal), 0 < d.value → d.numeral = p → cfg.hgc_tr_decimal_places = k →
      (tooManyDecplaces cfg (some (.num d)) = .ok true ↔
        ∃ n, nDecimals (some (.str (String.ofList p.render))) = .ok n ∧ k < n) := by
  simp only [nDecimals_str, String.toList_ofList, Except.ok.injEq, exists_eq_left']
  refine ⟨sameVerdict_iff hp.wellFormed k, ?_⟩
  rintro cfg d hpos rfl rfl
  have hne : d.coeff ≠ 0 := by
    intro h0
    simp [Decimal.value, h0] at hpos
  rw [tooManyDecplaces, if_pos (by simpa [Json.truthy] using hne), nDecimals_num]
  simp [Except.map]

/-- One ten-millionth, which is printed with an exponent. -/
def tenMillionth : Numeral := ⟨['1'], [], some (true, ['7'])⟩

theorem printed_tenMillionth : tenMillionth.Printed :=
  .exponent (by decide) (by decide) (by simp) (by simp) (by simp)
    (List.forall_mem_singleton.mpr (by decide))

example : (⟨1, -7⟩ : Decimal).numeral = tenMillionth := by decide

/-- The terminal accepts it and the server does not, when two places are allowed. -/
theorem terminal_accepts_tenMillionth :
    ¬ ∀ p : Numeral, p.Printed → ∀ k,
      (TransactionSimple.tooManyDecimals k p.render = true ↔
        ∃ n, nDecimals (some (.str (String.ofList p.render))) = .ok n ∧ k < n) := by
  intro h
  have hserver : nDecimals (some (.str (String.ofList tenMillionth.render))) = .ok 7 := by decide
  have hclient := (h tenMillionth printed_tenMillionth 2).mpr ⟨7, hserver, by decide⟩
  exact absurd hclient (by decide)

/-- With seven places they agree on it. -/
theorem terminal_agrees_tenMillionth :
    tenMillionth.Printed ∧ tenMillionth.SameVerdict 7 ∧
      (TransactionSimple.tooManyDecimals 7 tenMillionth.render = true ↔
        ∃ n, nDecimals (some (.str (String.ofList tenMillionth.render))) = .ok n ∧ 7 < n) := by
  have same : tenMillionth.SameVerdict 7 := by decide
  exact ⟨printed_tenMillionth, same, (terminal_agrees_iff printed_tenMillionth 7).1.mpr same⟩

end SchuleAlsStaat
