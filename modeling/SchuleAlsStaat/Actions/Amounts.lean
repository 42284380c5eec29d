import SchuleAlsStaat.Js.Numeral
import SchuleAlsStaat.Lib.Grid

/-!
# Amounts

The amount of a transaction is given as gross (`amount_sent`) or as net
(`amount_received`).  `transaction` checks it, `gross2tax` and `net2tax` compute
the tax and round it up to `hgc_decimal_places`, and `nDecimals` counts the
decimal places that `transaction_normal` limits.
-/

namespace SchuleAlsStaat

open Js (Exn Number Json JsVal Decimal Numeral)

/-- The configuration as the actions use it.  Its numbers may be stored as
strings and are converted where they are used.  The tax percentage is passed on
as it is stored. -/
structure Config where
  hgc_decimal_places : ℕ
  hgc_tr_decimal_places : ℕ
  transaction_tax_percent : JsVal
  tr_comment_maxlen : ℕ
  magic_account : String
  taxinc_qrid : String

/-- `defaults.json`. -/
def Config.defaults : Config where
  hgc_decimal_places := 5
  hgc_tr_decimal_places := 2
  transaction_tax_percent := some (.str "10")
  tr_comment_maxlen := 300
  magic_account := "Zentralbank"
  taxinc_qrid := "taxinc"

/-! ## Checking the amount -/

/-- The amount of a transaction, after the checks of `transaction`. -/
inductive Given where
  /-- `amount_sent`. -/
  | gross (amount : { q : ℚ // 0 < q })
  /-- `amount_received`. -/
  | net (amount : { q : ℚ // 0 < q })

/-- A positive number, without conversion. -/
def positive (v : JsVal) : Option { q : ℚ // 0 < q } :=
  match v.isFinite with
  | some q => if h : 0 < q then some ⟨q, h⟩ else none
  | none => none

theorem positive_eq_some {v : JsVal} {a : { q : ℚ // 0 < q }} (h : positive v = some a) :
    ∃ d : Decimal, v = some (.num d) ∧ d.value = a := by
  rw [positive] at h
  split at h
  next q hq =>
    split at h
    next hpos =>
      cases h
      unfold JsVal.isFinite at hq
      split at hq
      next d => exact ⟨d, rfl, Option.some.inj hq⟩
      next => cases hq
    next => cases h
  next => cases h

/-- The checks of `transaction`: over- and underspecification and invalid
amounts.  An error is the text that is answered. -/
def checkAmounts (amount_sent amount_received : JsVal) : Except String Given :=
  if !amount_sent.truthy && !amount_received.truthy then .error "underspecified"
  else if amount_sent.truthy && amount_received.truthy then .error "overspecified"
  else if amount_sent.truthy then
    match positive amount_sent with
    | some a => .ok (.gross a)
    | none => .error "invalid_amount"
  else
    match positive amount_received with
    | some a => .ok (.net a)
    | none => .error "invalid_amount"

/-- An amount that passes is one of the two arguments, and the other one is not
given. -/
theorem checkAmounts_eq_ok {amount_sent amount_received : JsVal} {g : Given}
    (h : checkAmounts amount_sent amount_received = .ok g) :
    (∃ a, g = .gross a ∧ positive amount_sent = some a ∧ amount_sent.truthy = true ∧
        amount_received.truthy = false) ∨
      ∃ a, g = .net a ∧ positive amount_received = some a ∧ amount_sent.truthy = false ∧
        amount_received.truthy = true := by
  rw [checkAmounts] at h
  split at h
  next => cases h
  next neither =>
    split at h
    next => cases h
    next both =>
      split at h
      next hs =>
        split at h
        next a ha =>
          cases h
          exact .inl ⟨a, rfl, ha, hs, by simpa [hs] using both⟩
        next => cases h
      next hs =>
        split at h
        next a ha =>
          cases h
          exact .inr ⟨a, rfl, ha, by simpa using hs, by simpa [hs] using neither⟩
        next => cases h

/-- A positive number that is given as gross passes. -/
theorem checkAmounts_gross {d : Decimal} {amount_received : JsVal} (h : 0 < d.value)
    (hr : amount_received.truthy = false) :
    checkAmounts (some (.num d)) amount_received = .ok (.gross ⟨d.value, h⟩) := by
  have hne : d.coeff ≠ 0 := by
    intro h0
    simp [Decimal.value, h0] at h
  simp [checkAmounts, positive, JsVal.isFinite, Json.truthy, hne, hr, h]

/-- A positive number that is given as net passes. -/
theorem checkAmounts_net {d : Decimal} {amount_sent : JsVal} (h : 0 < d.value)
    (hs : amount_sent.truthy = false) :
    checkAmounts amount_sent (some (.num d)) = .ok (.net ⟨d.value, h⟩) := by
  have hne : d.coeff ≠ 0 := by
    intro h0
    simp [Decimal.value, h0] at h
  simp [checkAmounts, positive, JsVal.isFinite, Json.truthy, hne, hs, h]

/-! ## Tax -/

section Tax

variable (cfg : Config)

/-- The scale of the grid of all amounts. -/
def Config.scale : ℚ := 10 ^ cfg.hgc_decimal_places

theorem Config.scale_pos : 0 < cfg.scale := by
  rw [scale]
  positivity

/-- Round a currency value up. -/
def HGC_roundup (value : Number) : Number := (value * .fin cfg.scale).ceil / .fin cfg.scale

def gross2tax (gross tax_percent : Number) : Number :=
  let tax := tax_percent / .fin 100
  HGC_roundup cfg (tax * gross / (.fin 1 + tax))

def net2tax (net tax_percent : Number) : Number :=
  let tax := tax_percent / .fin 100
  HGC_roundup cfg (tax * net)

/-- The three amounts of an entry. -/
structure Amounts where
  amount_sent : Number
  amount_received : Number
  amount_tax : Number

/-- The amounts with taxes. -/
def Given.amounts (percent : Number) : Given → Amounts
  | .gross sent =>
      let tax := gross2tax cfg (.fin sent) percent
      ⟨.fin sent, .fin sent - tax, tax⟩
  | .net received =>
      let tax := net2tax cfg (.fin received) percent
      ⟨.fin received + tax, .fin received, tax⟩

variable {cfg}

theorem HGC_roundup_fin (x : ℚ) : HGC_roundup cfg (.fin x) = .fin (Grid.roundUp cfg.scale x) :=
  Number.fin_div _ cfg.scale_pos.ne'

/-- The exact tax that is part of a gross amount. -/
def grossTax (percent gross : ℚ) : ℚ := percent / 100 * gross / (1 + percent / 100)

theorem gross2tax_fin {percent : ℚ} (h : 0 ≤ percent) (gross : ℚ) :
    gross2tax cfg (.fin gross) (.fin percent) =
      .fin (Grid.roundUp cfg.scale (grossTax percent gross)) := by
  have hne : 1 + percent / 100 ≠ 0 := by positivity
  rw [gross2tax, Number.fin_div _ (by norm_num), Number.fin_mul, Number.fin_add,
    Number.fin_div _ hne, HGC_roundup_fin]
  rfl

theorem net2tax_fin (percent net : ℚ) :
    net2tax cfg (.fin net) (.fin percent) =
      .fin (Grid.roundUp cfg.scale (percent / 100 * net)) := by
  rw [net2tax, Number.fin_div _ (by norm_num), Number.fin_mul, HGC_roundup_fin]

theorem grossTax_nonneg {percent gross : ℚ} (hp : 0 ≤ percent) (hg : 0 ≤ gross) :
    0 ≤ grossTax percent gross := by
  rw [grossTax]
  positivity

theorem grossTax_le {percent gross : ℚ} (hp : 0 ≤ percent) (hg : 0 ≤ gross) :
    grossTax percent gross ≤ gross := by
  have hpos : 0 < 1 + percent / 100 := by positivity
  rw [grossTax, div_le_iff₀ hpos]
  nlinarith

/-- The amounts balance, whatever the percentage, unless one is `NaN`. -/
theorem Given.amounts_balance {g : Given} {percent : Number} {sent received tax : ℚ}
    (hs : (g.amounts cfg percent).amount_sent = .fin sent)
    (hr : (g.amounts cfg percent).amount_received = .fin received)
    (ht : (g.amounts cfg percent).amount_tax = .fin tax) : sent = received + tax := by
  cases g with
  | gross a =>
      simp only [amounts] at hs hr ht
      rw [ht, Number.fin_sub] at hr
      cases hs
      cases hr
      ring
  | net a =>
      simp only [amounts] at hs hr ht
      rw [ht, Number.fin_add] at hs
      cases hs
      cases hr
      rfl

end Tax

/-! ## Decimal places -/

/-- `(?:[eE]([+-]?\d+))?$` at the start of `cs`. -/
def matchExponent : List Char → Option ℤ
  | [] => some 0
  | c :: cs => if c = 'e' ∨ c = 'E' then Js.signedInt cs else none

/-- `(?:\.(\d+))?(?:[eE]([+-]?\d+))?$` at the start of `cs`: the number of
digits of the first group, and the exponent. -/
def matchDecimals (cs : List Char) : Option (ℕ × ℤ) :=
  match cs with
  | '.' :: r =>
      if r.takeWhile Char.isDigit = [] then none
      else (matchExponent (r.dropWhile Char.isDigit)).map fun e =>
        ((r.takeWhile Char.isDigit).length, e)
  | cs => (matchExponent cs).map fun e => (0, e)

/-- The leftmost match. -/
def findDecimals : List Char → ℕ × ℤ
  | [] => (0, 0)
  | c :: cs => (matchDecimals (c :: cs)).getD (findDecimals cs)

/-- `nDecimals` of a string. -/
def decimalsOf (s : List Char) : ℕ :=
  let m := findDecimals s
  (m.1 - m.2 : ℤ).toNat

def nDecimals (num : JsVal) : Except Exn ℕ := num.toStr.map fun s => decimalsOf s.toList

theorem signedInt_exponent {neg : Bool} {ds : List Char} (hne : ds ≠ [])
    (hd : ∀ c ∈ ds, c.isDigit = true) :
    Js.signedInt ((if neg then '-' else '+') :: ds) =
      some (match neg with
        | true => -(Js.natOfDigits ds : ℤ)
        | false => Js.natOfDigits ds) := by
  have hall : ds ≠ [] ∧ ds.all Char.isDigit = true := ⟨hne, List.all_eq_true.mpr hd⟩
  cases neg
  · exact if_pos hall
  · exact if_pos hall

theorem findDecimals_append {l : List Char} (h : ∀ c ∈ l, c ≠ '.' ∧ c ≠ 'e' ∧ c ≠ 'E')
    (l' : List Char) : findDecimals (l ++ l') = findDecimals l' := by
  induction l with
  | nil => rfl
  | cons c l ih =>
      obtain ⟨hdot, he, hE⟩ := h c (List.mem_cons_self ..)
      have hnone : matchDecimals (c :: (l ++ l')) = none := by
        rw [matchDecimals.eq_def]
        split
        next heq => exact absurd (List.cons.inj heq).1 hdot
        next => simp [matchExponent, he, hE]
      rw [List.cons_append, findDecimals, hnone, Option.getD_none]
      exact ih fun c' hc' => h c' (List.mem_cons_of_mem _ hc')

theorem matchExponent_exponentText {p : Numeral} (h : p.WellFormed) :
    matchExponent p.exponentText = some p.exponent := by
  rw [Numeral.exponentText]
  cases hexp : p.exp with
  | none => simp [matchExponent, Numeral.exponent, hexp]
  | some e =>
      obtain ⟨neg, ds⟩ := e
      obtain ⟨hne, hd⟩ := h.exp neg ds hexp
      rw [matchExponent, if_pos (.inl rfl), signedInt_exponent hne hd]
      cases neg <;> simp [Numeral.exponent, hexp]

/-- The exponent starts with a letter. -/
theorem exponentText_cases (p : Numeral) :
    p.exponentText = [] ∨ ∃ cs, p.exponentText = 'e' :: cs := by
  rw [Numeral.exponentText]
  cases p.exp with
  | none => exact .inl rfl
  | some e => exact .inr ⟨_, rfl⟩

/-- The match is found right after the integer part. -/
theorem findDecimals_rest {p : Numeral} (h : p.WellFormed) :
    findDecimals ((if p.frac = [] then [] else '.' :: p.frac) ++ p.exponentText) =
      (p.frac.length, p.exponent) := by
  have exponent := matchExponent_exponentText h
  by_cases hf : p.frac = []
  · rw [if_pos hf, List.nil_append, hf]
    rcases exponentText_cases p with ht | ⟨cs, ht⟩
    · rw [ht] at exponent ⊢
      rw [← Option.some.inj exponent]
      rfl
    · rw [ht] at exponent ⊢
      have hm : matchDecimals ('e' :: cs) = some (0, p.exponent) := by
        simp [matchDecimals, exponent]
      rw [findDecimals, hm]
      rfl
  · have htake : (p.frac ++ p.exponentText).takeWhile Char.isDigit = p.frac := by
      rw [List.takeWhile_append_of_pos h.frac]
      rcases exponentText_cases p with ht | ⟨cs, ht⟩ <;> simp [ht]
    have hdrop : (p.frac ++ p.exponentText).dropWhile Char.isDigit = p.exponentText := by
      rw [List.dropWhile_append_of_pos h.frac]
      rcases exponentText_cases p with ht | ⟨cs, ht⟩ <;> simp [ht]
    rw [if_neg hf, List.cons_append, findDecimals, matchDecimals, htake, hdrop, if_neg hf,
      exponent]
    rfl

/-- On a numeral the count is the distance of the last digit from the point. -/
theorem decimalsOf_render {p : Numeral} (h : p.WellFormed) :
    decimalsOf p.render = p.places.toNat := by
  rw [decimalsOf, Numeral.render, findDecimals_append h.int, findDecimals_rest h]
  rfl

theorem nDecimals_num (d : Decimal) :
    nDecimals (some (.num d)) = .ok (decimalsOf d.numeral.render) := by
  simp [nDecimals, JsVal.toStr, Json.toStr, Decimal.toString, Except.map]

/-- A number with at most `k` decimal places is a multiple of the `k`-th. -/
theorem onGrid_of_nDecimals {d : Decimal} {n k : ℕ} (h : nDecimals (some (.num d)) = .ok n)
    (hk : n ≤ k) : Grid.OnGrid ((10 : ℚ) ^ k) d.value := by
  have hn : n = d.numeral.places.toNat := by
    rw [nDecimals_num, decimalsOf_render d.wellFormed_numeral] at h
    exact (Except.ok.inj h).symm
  obtain ⟨i, rfl⟩ := Nat.exists_eq_add_of_le hk
  have grid : Grid.OnGrid ((10 : ℚ) ^ n) d.value := by
    rw [hn]
    exact d.exists_value_mul_pow
  rw [pow_add]
  exact_mod_cast grid.mul (10 ^ i)

end SchuleAlsStaat
