import Mathlib.Algebra.BigOperators.Ring.List
import SchuleAlsStaat.Actions.Transactions

/-!
# Gross and net

`net2tax` and `gross2tax` compute the tax from the two sides of a transaction
and round it up.  On amounts that lie on the grid they are two sides of one
Galois connection, and a transaction that is given as net books what it books
when it is given as gross.  Since the tax is rounded up, a payment that is split
into several is never taxed less.
-/

namespace SchuleAlsStaat

open Js (Number JS)

section GrossNet

variable {cfg : Config} {percent : ℚ}

/-- The exact tax of the gross amount fits into a margin when the exact tax of
what remains does. -/
theorem grossTax_le_sub_iff (hp : 0 ≤ percent) (net gross : ℚ) :
    grossTax percent gross ≤ gross - net ↔ percent / 100 * net ≤ gross - net := by
  have hpos : 0 < 1 + percent / 100 := by positivity
  rw [grossTax, div_le_iff₀ hpos]
  constructor
  · intro h
    linarith
  · intro h
    linarith

/-- The net amount and its tax fit into a gross amount when the net amount fits
into what the tax leaves of it. -/
theorem net_add_tax_le_iff (hp : 0 ≤ percent) {net gross : ℚ} (hn : Grid.OnGrid cfg.scale net)
    (hg : Grid.OnGrid cfg.scale gross) :
    net + Grid.roundUp cfg.scale (percent / 100 * net) ≤ gross ↔
      net ≤ gross - Grid.roundUp cfg.scale (grossTax percent gross) := by
  have margin : Grid.OnGrid cfg.scale (gross - net) := hg.sub hn
  calc net + Grid.roundUp cfg.scale (percent / 100 * net) ≤ gross
      ↔ Grid.roundUp cfg.scale (percent / 100 * net) ≤ gross - net := by
        rw [le_sub_iff_add_le, add_comm]
    _ ↔ percent / 100 * net ≤ gross - net := margin.roundUp_le_iff cfg.scale_pos
    _ ↔ grossTax percent gross ≤ gross - net := (grossTax_le_sub_iff hp net gross).symm
    _ ↔ Grid.roundUp cfg.scale (grossTax percent gross) ≤ gross - net :=
        (margin.roundUp_le_iff cfg.scale_pos).symm
    _ ↔ net ≤ gross - Grid.roundUp cfg.scale (grossTax percent gross) := le_sub_comm

/-- The tax that was added to a net amount is the tax of the sum. -/
theorem roundUp_grossTax (hp : 0 ≤ percent) (net : ℚ) :
    let tax := Grid.roundUp cfg.scale (percent / 100 * net)
    Grid.roundUp cfg.scale (grossTax percent (net + tax)) = tax := by
  intro tax
  have hs := cfg.scale_pos
  have hpos : 0 < 1 + percent / 100 := by positivity
  have hr : 0 ≤ percent / 100 := by positivity
  have onGrid : ∀ x, Grid.OnGrid cfg.scale (Grid.roundUp cfg.scale x) :=
    Grid.onGrid_roundUp hs
  have enough : percent / 100 * net ≤ tax := Grid.le_roundUp hs _
  have le : Grid.roundUp cfg.scale (grossTax percent (net + tax)) ≤ tax := by
    rw [(onGrid _).roundUp_le_iff hs, grossTax, div_le_iff₀ hpos]
    linarith
  refine le_antisymm le (((onGrid _).roundUp_le_iff hs).mpr ?_)
  -- a smaller tax would not have been enough for the net amount
  have above : grossTax percent (net + tax) ≤ Grid.roundUp cfg.scale (grossTax percent (net + tax)) :=
    Grid.le_roundUp hs _
  generalize Grid.roundUp cfg.scale (grossTax percent (net + tax)) = u at le above ⊢
  have covers : percent / 100 * (net + tax) ≤ u * (1 + percent / 100) := (div_le_iff₀ hpos).mp above
  have excess : percent / 100 * u ≤ percent / 100 * tax := mul_le_mul_of_nonneg_left le hr
  linarith

theorem gross2tax_net2tax (hp : 0 ≤ percent) (net : ℚ) :
    gross2tax cfg (.fin net + net2tax cfg (.fin net) (.fin percent)) (.fin percent) =
      net2tax cfg (.fin net) (.fin percent) := by
  rw [net2tax_fin, Number.fin_add, gross2tax_fin hp, roundUp_grossTax hp]

/-- The amounts of a transaction that is given as net are those of the one that
is given as the gross amount. -/
theorem Given.amounts_net (hp : 0 ≤ percent) (net gross : { q : ℚ // 0 < q })
    (hg : Number.fin gross = .fin net + net2tax cfg (.fin net) (.fin percent)) :
    (Given.net net).amounts cfg (.fin percent) = (Given.gross gross).amounts cfg (.fin percent) := by
  have tax : gross2tax cfg (.fin gross) (.fin percent) = net2tax cfg (.fin net) (.fin percent) := by
    rw [hg, gross2tax_net2tax hp]
  have received : (.fin gross - net2tax cfg (.fin net) (.fin percent) : Number) = .fin net := by
    rw [hg, net2tax_fin, Number.fin_add, Number.fin_sub, add_sub_cancel_right]
  simp only [amounts, tax, received]
  rw [← hg]

/-- It books the same entry. -/
theorem onRecipient_net {E : Ext} {env : Env} {client : Client} {t : Transfer}
    {taxinc : Student} {sender recipient : Party} (hp : 0 ≤ percent) (ht : t.tax.toNumber = .ok (.fin percent))
    (net gross : { q : ℚ // 0 < q })
    (hg : Number.fin gross = .fin net + net2tax env.cfg (.fin net) (.fin percent)) :
    onRecipient E env client { t with given := .net net } taxinc sender recipient =
      onRecipient E env client { t with given := .gross gross } taxinc sender recipient := by
  rw [onRecipient, onRecipient, ht, JS.lift_ok_bind, JS.lift_ok_bind]
  simp only [Transfer.entry, Given.amounts_net hp net gross hg]

end GrossNet

/-- Gross and net agree for every percentage that is not negative, whatever
`hgc_decimal_places`. -/
theorem gross_net_agree {cfg : Config} {percent : ℚ} (hp : 0 ≤ percent) :
    (∀ net gross : ℚ, 0 ≤ net → 0 ≤ gross → Grid.OnGrid cfg.scale net →
      Grid.OnGrid cfg.scale gross →
      ∃ net_tax gross_tax : ℚ, net2tax cfg (.fin net) (.fin percent) = .fin net_tax ∧
        gross2tax cfg (.fin gross) (.fin percent) = .fin gross_tax ∧
        (net + net_tax ≤ gross ↔ net ≤ gross - gross_tax)) ∧
    (∀ net : ℚ, 0 ≤ net → Grid.OnGrid cfg.scale net →
      gross2tax cfg (.fin net + net2tax cfg (.fin net) (.fin percent)) (.fin percent) =
        net2tax cfg (.fin net) (.fin percent)) ∧
    ∀ net : { q : ℚ // 0 < q }, Grid.OnGrid cfg.scale net →
      ∃ gross : { q : ℚ // 0 < q },
        Number.fin gross = .fin net + net2tax cfg (.fin net) (.fin percent) ∧
        (Given.net net).amounts cfg (.fin percent) =
          (Given.gross gross).amounts cfg (.fin percent) ∧
        ∀ (E : Ext) (env : Env) (client : Client) (t : Transfer) (taxinc : Student)
          (sender recipient : Party), env.cfg = cfg → t.tax.toNumber = .ok (.fin percent) →
          onRecipient E env client { t with given := .net net } taxinc sender recipient =
            onRecipient E env client { t with given := .gross gross } taxinc sender recipient := by
  refine ⟨?_, ?_, ?_⟩
  · intro net gross _ _ hn hg
    exact ⟨_, _, net2tax_fin percent net, gross2tax_fin hp gross, net_add_tax_le_iff hp hn hg⟩
  · intro net _ _
    exact gross2tax_net2tax hp net
  · intro net _
    have tax_nonneg : 0 ≤ Grid.roundUp cfg.scale (percent / 100 * net) :=
      Grid.roundUp_nonneg cfg.scale_pos (mul_nonneg (by positivity) net.2.le)
    have sum : Number.fin (net + Grid.roundUp cfg.scale (percent / 100 * net)) =
        .fin net + net2tax cfg (.fin net) (.fin percent) := by
      rw [net2tax_fin, Number.fin_add]
    refine ⟨⟨_, add_pos_of_pos_of_nonneg net.2 tax_nonneg⟩, sum, Given.amounts_net hp net _ sum, ?_⟩
    rintro E env client t taxinc sender recipient rfl ht
    exact onRecipient_net hp ht net _ sum

/-- Ten percent. -/
theorem gross_net_agree_ten :
    (0 : ℚ) ≤ 10 ∧ gross2tax .defaults (.fin 5 + net2tax .defaults (.fin 5) (.fin 10)) (.fin 10) =
      net2tax .defaults (.fin 5) (.fin 10) := by
  have hp : (0 : ℚ) ≤ 10 := by norm_num
  exact ⟨hp, (gross_net_agree hp).2.1 5 (by norm_num)
    ⟨500000, by norm_num [Config.scale, Config.defaults]⟩⟩

/-! ## Splitting a payment -/

section Splitting

variable {cfg : Config} {percent : ℚ}

/-- The sum of numbers, from the left. -/
def total (l : List Number) : Number := l.foldl (· + ·) (.fin 0)

theorem total_map_fin (l : List ℚ) : total (l.map Number.fin) = .fin l.sum := by
  have from_left : ∀ q : ℚ, (l.map Number.fin).foldl (· + ·) (.fin q) = .fin (q + l.sum) := by
    induction l with
    | nil => simp
    | cons x l ih =>
        intro q
        rw [List.map_cons, List.foldl_cons, Number.fin_add, ih, List.sum_cons, add_assoc]
  rw [total, from_left, zero_add]

/-- The exact tax of a gross amount is linear. -/
theorem sum_grossTax (l : List ℚ) :
    (l.map (grossTax percent)).sum = grossTax percent l.sum := by
  induction l with
  | nil => simp [grossTax]
  | cons x l ih =>
      rw [List.map_cons, List.sum_cons, ih, List.sum_cons, grossTax, grossTax, grossTax]
      ring

/-- What is at stake when a payment is split: `tax` rounds up an exact tax that
is linear. -/
structure RoundsUp (cfg : Config) (tax : Number → Number) (exact : ℚ → ℚ) : Prop where
  rounds : ∀ amount, tax (.fin amount) = .fin (Grid.roundUp cfg.scale (exact amount))
  linear : ∀ amounts : List ℚ, (amounts.map exact).sum = exact amounts.sum

theorem roundsUp_gross2tax (hp : 0 ≤ percent) :
    RoundsUp cfg (fun gross => gross2tax cfg gross (.fin percent)) (grossTax percent) where
  rounds := gross2tax_fin hp
  linear := sum_grossTax

theorem roundsUp_net2tax :
    RoundsUp cfg (fun net => net2tax cfg net (.fin percent)) (percent / 100 * ·) where
  rounds := net2tax_fin percent
  linear amounts := by
    rw [List.sum_map_mul_left, List.map_id']

/-- The taxes of the parts are at least the tax of the whole, and exceed the exact
tax by less than one unit for each part. -/
def NeverSaves (cfg : Config) (tax : Number → Number) (exact : ℚ → ℚ) (amounts : List ℚ) : Prop :=
  ∃ whole parts : ℚ, tax (total (amounts.map .fin)) = .fin whole ∧
    total (amounts.map fun amount => tax (.fin amount)) = .fin parts ∧ whole ≤ parts ∧
    exact amounts.sum ≤ parts ∧
    parts - exact amounts.sum < amounts.length * (1 / 10 ^ cfg.hgc_decimal_places)

theorem RoundsUp.neverSaves {tax : Number → Number} {exact : ℚ → ℚ}
    (h : RoundsUp cfg tax exact) {amounts : List ℚ} (hne : amounts ≠ []) :
    NeverSaves cfg tax exact amounts := by
  have hs := cfg.scale_pos
  have parts : (amounts.map fun amount => tax (.fin amount)) =
      ((amounts.map exact).map (Grid.roundUp cfg.scale)).map .fin := by
    rw [List.map_map, List.map_map]
    exact List.map_congr_left fun amount _ => h.rounds amount
  have above := Grid.roundUp_sum_le hs (amounts.map exact)
  have below := Grid.sum_roundUp_lt hs (l := amounts.map exact) (by simpa using hne)
  rw [h.linear] at above below
  rw [List.length_map] at below
  refine ⟨_, _, ?_, ?_, above, (Grid.le_roundUp hs _).trans above, ?_⟩
  · rw [total_map_fin, h.rounds]
  · rw [parts, total_map_fin]
  · rw [← Config.scale]
    linarith

end Splitting

/-- A payment that is split is never taxed less, for every percentage that is not
negative, whatever `hgc_decimal_places`. -/
theorem splitting_never_saves (cfg : Config) {percent : ℚ} (hp : 0 ≤ percent) {amounts : List ℚ}
    (hne : amounts ≠ []) :
    NeverSaves cfg (fun gross => gross2tax cfg gross (.fin percent)) (grossTax percent) amounts ∧
      NeverSaves cfg (fun net => net2tax cfg net (.fin percent)) (percent / 100 * ·) amounts :=
  ⟨(roundsUp_gross2tax hp).neverSaves hne, roundsUp_net2tax.neverSaves hne⟩

/-- Seven and a half percent of three payments. -/
theorem splitting_never_saves_three :
    (0 : ℚ) ≤ 15 / 2 ∧ NeverSaves .defaults (fun gross => gross2tax .defaults gross (.fin (15 / 2)))
      (grossTax (15 / 2)) [1 / 3, 2, 5 / 7] := by
  have hp : (0 : ℚ) ≤ 15 / 2 := by norm_num
  exact ⟨hp, (splitting_never_saves .defaults hp (List.cons_ne_nil _ _)).1⟩

/-! ## The calculator of the app -/

namespace TaxCalc

def DECPLACES : ℕ := 5

def HGC_roundup (value : Number) : Number :=
  (value * .fin (10 ^ DECPLACES)).ceil / .fin (10 ^ DECPLACES)

def gross2tax (gross tax_percent : Number) : Number :=
  let tax := tax_percent / .fin 100
  HGC_roundup (tax * gross / (.fin 1 + tax))

def net2tax (net tax_percent : Number) : Number :=
  let tax := tax_percent / .fin 100
  HGC_roundup (tax * net)

/-- What `parseFloat` reads from the inputs. -/
structure Inputs where
  tax_percent : Number
  from_gross : Number
  from_net : Number
  tax_from_net : Number
  tax_from_gross : Number

/-- What `HGC_readable` formats. -/
structure Outputs where
  to_net : Number
  to_gross : Number
  net_to_tax : Number
  gross_to_tax : Number

def recalc (i : Inputs) : Outputs where
  to_net := i.from_gross - gross2tax i.from_gross i.tax_percent
  to_gross := i.from_net + net2tax i.from_net i.tax_percent
  net_to_tax := net2tax i.tax_from_net i.tax_percent
  gross_to_tax := gross2tax i.tax_from_gross i.tax_percent

/-- The calculator rounds like a server that keeps as many decimal places. -/
theorem HGC_roundup_eq {cfg : Config} (h : cfg.hgc_decimal_places = DECPLACES) :
    HGC_roundup = SchuleAlsStaat.HGC_roundup cfg := by
  funext value
  rw [HGC_roundup, SchuleAlsStaat.HGC_roundup, Config.scale, h]

/-- It computes the taxes of this server. -/
theorem taxes_eq {cfg : Config} (h : cfg.hgc_decimal_places = DECPLACES) :
    gross2tax = SchuleAlsStaat.gross2tax cfg ∧ net2tax = SchuleAlsStaat.net2tax cfg := by
  constructor
  · funext gross tax_percent
    rw [gross2tax, HGC_roundup_eq h]
    rfl
  · funext net tax_percent
    rw [net2tax, HGC_roundup_eq h]
    rfl

/-- A transaction over a gross or a net amount books what the calculator shows for it. -/
theorem recalc_amounts {cfg : Config} (h : cfg.hgc_decimal_places = DECPLACES) {i : Inputs}
    {gross net : { q : ℚ // 0 < q }} (hgross : i.from_gross = .fin gross)
    (hnet : i.from_net = .fin net) :
    (recalc i).to_net = ((Given.gross gross).amounts cfg i.tax_percent).amount_received ∧
      (recalc i).to_gross = ((Given.net net).amounts cfg i.tax_percent).amount_sent := by
  obtain ⟨hgrosstax, hnettax⟩ := taxes_eq h
  rw [recalc, hgross, hnet, hgrosstax, hnettax]
  exact ⟨rfl, rfl⟩

/-- The gross amount that is shown for a net amount is converted back to it. -/
theorem recalc_to_gross {percent net : ℚ} (hp : 0 ≤ percent) {i : Inputs}
    (hpercent : i.tax_percent = .fin percent) (hnet : i.from_net = .fin net) :
    (recalc { i with from_gross := (recalc i).to_gross }).to_net = .fin net := by
  obtain ⟨hgrosstax, hnettax⟩ :=
    taxes_eq (show Config.defaults.hgc_decimal_places = DECPLACES from rfl)
  simp only [recalc, hgrosstax, hnettax, hpercent, hnet, gross2tax_net2tax hp]
  rw [net2tax_fin, Number.fin_add, Number.fin_sub, add_sub_cancel_right]

end TaxCalc

end SchuleAlsStaat
