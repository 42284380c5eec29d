import Mathlib.Algebra.Order.Ring.Star
import Mathlib.Data.Rat.Star
import SchuleAlsStaat.Actions.Bookings

/-!
# Well-formed entries

An entry is well formed when its amounts balance and nobody but the sender is
debited.  An amount given as net always leads to such an entry.  An amount
given as gross does so exactly when the tax, which is rounded up, still fits
into it: `Given.Fits`.  The amounts that `transaction` lets through fit, since
they lie on the grid of the tax.
-/

namespace SchuleAlsStaat

open Js (Number JsVal Decimal)

/-- The amounts balance and do not take money from the recipient or from the
tax account. -/
def WellFormed (e : Draft) : Prop :=
  ∃ sent received tax : ℚ, e.amount_sent = .fin sent ∧ e.amount_received = .fin received ∧
    e.amount_tax = .fin tax ∧ sent = received + tax ∧ 0 < sent ∧ 0 ≤ tax ∧ 0 ≤ received

/-- The tax that a gross amount contains is at most the amount rounded down to
the grid. -/
def Given.Fits (cfg : Config) (percent : ℚ) : Given → Prop
  | .gross sent => grossTax percent sent ≤ Grid.roundDown cfg.scale sent
  | .net _ => True

variable {E : Ext} {cfg : Config} {a : MoneyAction} {payload : JsVal} {e : Draft} {q : Request}
  {given : Given} {percent : ℚ}

theorem EntryFor.wellFormed_iff (h : EntryFor cfg q given (.fin percent) e) (h0 : 0 ≤ percent) :
    WellFormed e ↔ given.Fits cfg percent := by
  cases given with
  | gross sent =>
      obtain ⟨sent, hsent⟩ := sent
      set tax := Grid.roundUp cfg.scale (grossTax percent sent) with htax
      have hs : e.amount_sent = .fin sent := h.amount_sent
      have ht : e.amount_tax = .fin tax := by rw [h.amount_tax, Given.amounts, gross2tax_fin h0]
      have hr : e.amount_received = .fin (sent - tax) := by
        rw [h.amount_received, Given.amounts, gross2tax_fin h0, Number.fin_sub]
      have hnonneg : 0 ≤ tax := Grid.roundUp_nonneg cfg.scale_pos (grossTax_nonneg h0 hsent.le)
      rw [Given.Fits, ← Grid.roundUp_le_iff cfg.scale_pos, ← htax]
      constructor
      · rintro ⟨s, r, t, -, hr', -, -, -, -, hpos⟩
        rw [hr, Number.fin.injEq] at hr'
        linarith
      · intro hle
        exact ⟨sent, sent - tax, tax, hs, hr, ht, by ring, hsent, hnonneg, by linarith⟩
  | net received =>
      obtain ⟨received, hreceived⟩ := received
      set tax := Grid.roundUp cfg.scale (percent / 100 * received) with htax
      have ht : e.amount_tax = .fin tax := by rw [h.amount_tax, Given.amounts, net2tax_fin]
      have hr : e.amount_received = .fin received := h.amount_received
      have hs : e.amount_sent = .fin (received + tax) := by
        rw [h.amount_sent, Given.amounts, net2tax_fin, Number.fin_add]
      have hnonneg : 0 ≤ tax := Grid.roundUp_nonneg cfg.scale_pos (by positivity)
      exact ⟨fun _ => trivial,
        fun _ => ⟨received + tax, received, tax, hs, hr, ht, rfl, by linarith, hnonneg,
          hreceived.le⟩⟩

/-- An entry is well formed exactly when the tax fits into the amount that was
given. -/
theorem wellFormed_iff_fits (h : Books E cfg a payload e) (hq : a.request cfg payload = .ok q)
    (hg : checkAmounts q.amount_sent q.amount_received = .ok given)
    (hp : q.tax.toNumber = .ok (.fin percent)) (h0 : 0 ≤ percent) :
    WellFormed e ↔ given.Fits cfg percent :=
  (h.entryFor hq hg hp).wellFormed_iff h0

/-! ## Amounts that fit -/

/-- The amounts that `transaction_normal` lets through lie on the grid of the
tax. -/
theorem fits_of_admitted (h : Admitted cfg true q)
    (hg : checkAmounts q.amount_sent q.amount_received = .ok given)
    (hle : cfg.hgc_tr_decimal_places ≤ cfg.hgc_decimal_places) (h0 : 0 ≤ percent) :
    given.Fits cfg percent := by
  rcases checkAmounts_eq_ok hg with ⟨a, rfl, hpos, htruthy, -⟩ | ⟨a, rfl, -⟩
  · obtain ⟨d, hd, hv⟩ := positive_eq_some hpos
    have hplaces := (h rfl).1
    rw [tooManyDecplaces, if_pos htruthy, hd] at hplaces
    cases hn : nDecimals (some (.num d)) with
    | error e =>
        rw [hn] at hplaces
        cases hplaces
    | ok n =>
        rw [hn] at hplaces
        have hn' : n ≤ cfg.hgc_tr_decimal_places :=
          not_lt.mp (of_decide_eq_false (Except.ok.inj hplaces))
        have grid : Grid.OnGrid cfg.scale a.1 := by
          rw [← hv]
          exact onGrid_of_nDecimals hn (hn'.trans hle)
        rw [Given.Fits, Grid.roundDown_of_onGrid cfg.scale_pos grid]
        exact grossTax_le h0 a.2.le
  · trivial

/-- Without a tax every amount fits. -/
theorem fits_untaxed (cfg : Config) (given : Given) : given.Fits cfg 0 := by
  cases given with
  | gross sent =>
      have hpos := cfg.scale_pos
      have hsent := sent.2
      rw [Given.Fits, grossTax, Grid.roundDown]
      simp only [zero_div, zero_mul]
      positivity
  | net received => trivial

section Sample

/-- The payload of a forced transaction. -/
def forced (amount_sent : Decimal) : JsVal :=
  some (.obj [("sender", .str "1"), ("recipient", .str "2"), ("amount_sent", .num amount_sent)])

theorem request_forced (d : Decimal) :
    MoneyAction.master_transaction.request Config.defaults (forced d) =
      .ok ⟨some (.str "1"), some (.str "2"), some (.num d), jsFalse, some (.str "10"),
        jsFalse⟩ := rfl

theorem toNumber_ten : JsVal.toNumber (some (.str "10")) = .ok (.fin 10) :=
  congrArg Except.ok (by decide +kernel)

/-- A forced transaction of a positive amount is booked, and its entry can be
saved. -/
theorem exists_books_forced {d : Decimal} (h : 0 < d.value) :
    ∃ e, Books Ext.simple Config.defaults .master_transaction (forced d) e ∧
      ∃ b, e.cast = some b := by
  refine ⟨_, books_master_transaction .start (request_forced d) toNumber_ten (by norm_num) rfl rfl
    (checkAmounts_gross h rfl) (someStudent 1), ?_⟩
  rw [Given.amounts, gross2tax_fin (by norm_num), Number.fin_sub]
  exact ⟨_, rfl⟩

theorem wellFormed_iff_fits_forced :
    ∃ e, Books Ext.simple Config.defaults .master_transaction (forced ⟨10, 0⟩) e ∧
      (WellFormed e ↔ Given.Fits Config.defaults 10 (.gross ⟨10, by norm_num⟩)) := by
  have hpos : 0 < Decimal.value ⟨10, 0⟩ := by norm_num [Decimal.value]
  obtain ⟨e, he, -⟩ := exists_books_forced hpos
  have hten : (⟨Decimal.value ⟨10, 0⟩, hpos⟩ : { q : ℚ // 0 < q }) = ⟨10, by norm_num⟩ :=
    Subtype.ext (by norm_num [Decimal.value])
  have := wellFormed_iff_fits he (request_forced _) (checkAmounts_gross hpos rfl) toNumber_ten
    (by norm_num)
  rw [hten] at this
  exact ⟨e, he, this⟩

/-- The tax on a gross amount below the grid is more than the amount. -/
theorem tiny_amount_not_wellFormed :
    ¬ ∀ (E : Ext) (cfg : Config) (a : MoneyAction) (payload : JsVal) (e : Draft) (q : Request)
      (percent : ℚ), Books E cfg a payload e → a.request cfg payload = .ok q →
      q.tax.toNumber = .ok (.fin percent) → 0 ≤ percent → WellFormed e := by
  intro claim
  have hpos : 0 < Decimal.value ⟨1, -6⟩ := by norm_num [Decimal.value]
  obtain ⟨e, he, -⟩ := exists_books_forced hpos
  have hwf := claim _ _ _ _ e _ 10 he (request_forced _) toNumber_ten (by norm_num)
  have hef := he.entryFor (request_forced _) (checkAmounts_gross hpos rfl) toNumber_ten
  have hfits : grossTax 10 (Decimal.value ⟨1, -6⟩) ≤
      Grid.roundDown Config.defaults.scale (Decimal.value ⟨1, -6⟩) :=
    (hef.wellFormed_iff (by norm_num)).mp hwf
  exact absurd hfits (by decide +kernel)

end Sample

end SchuleAlsStaat
