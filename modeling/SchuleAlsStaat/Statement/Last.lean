import SchuleAlsStaat.Statement.Render

/-!
# The last transactions of an account

`get_last_transactions` for an amount of entries.  It searches for the entries of
the account and for those that name it as tax recipient, with the same limit, and
selects the entries with a tax from what the second search finds.  Every entry
names the tax account, whether it is taxed or not, so the limit of the second
search may be used up by entries without a tax.
-/

namespace SchuleAlsStaat

open Js (Decimal JsVal JS)
open Newest (newest)

/-! ## Searches with a limit -/

/-- The limit that `getByProperties` passes on, with `none` for `Infinity`. -/
def limitOf (limit : JsVal) : Option ℕ :=
  if unlimited limit then none
  else match limit.toNumber with
    | .ok (.fin q) => some ⌊q⌋.toNat
    | _ => none

/-- A number of entries as a limit. -/
def entries (n : ℤ) : Option ℕ := if n ≤ 0 then none else some n.toNat

theorem limitOf_num {d : Decimal} {n : ℤ} (h : d.value = n) :
    limitOf (some (.num d)) = entries n := by
  have number : JsVal.toNumber (some (.num d)) = .ok (.fin n) := by
    rw [← h]
    rfl
  have neg : passes ((JsVal.toNumber (some (.num d))).map fun m => m.lt (.fin 0)) =
      decide (n < 0) := by
    rw [number]
    simp [Except.map, passes]
  have zero : JsVal.truthy (some (.num d)) = decide (n ≠ 0) := by
    have hpow : (10 : ℚ) ^ d.exp ≠ 0 := zpow_ne_zero _ (by norm_num)
    have hiff : (d.coeff : ℚ) = 0 ↔ (n : ℚ) = 0 := by
      rw [← h, Decimal.value, mul_eq_zero, or_iff_left hpow]
    have hiff : d.coeff = 0 ↔ n = 0 := by exact_mod_cast hiff
    simp [Js.Json.truthy, hiff]
  rw [limitOf, unlimited, neg, zero, number, entries]
  by_cases hn : n ≤ 0
  · have h0 : n = 0 ∨ n < 0 := by omega
    rw [if_pos hn, if_pos (by simpa using h0)]
  · have h0 : ¬ (n = 0 ∨ n < 0) := by omega
    rw [if_neg hn, if_neg (by simpa using h0)]
    simp

/-- What a search with a limit may find on a ledger. -/
inductive FoundLast (L : Ledger) (limit : Option ℕ) : Filter → List Booking → Prop where
  | intro {f : Filter} {p : Booking → Bool} {L' : Ledger} : f.selects = some p → L'.Perm L →
      FoundLast L limit f (newest Entry.time limit (L'.filter p))

/-- An answer that code gives, now or in the callbacks of its searches, when these
are executed on one ledger. -/
inductive AnswersLast (E : Ext) (L : Ledger) : List Act → Answer → Prop where
  | here {acts : List Act} {client : Client} {m : Answer} : Act.answer client m ∈ acts →
      AnswersLast E L acts m
  | search {acts : List Act} {m : Answer} {env : Env} {client : Client} {f : Filter}
      {limit : JsVal} {cb : TransactionsCb} {tr : List Booking} :
      Act.query client (.transactions f limit cb) ∈ acts → FoundLast L (limitOf limit) f tr →
      AnswersLast E L (onReply E env client (.transactions f limit cb) (.transactions tr)).acts m →
      AnswersLast E L acts m

/-- A list that `get_last_transactions` answers for an amount. -/
def LastList (E : Ext) (L : Ledger) (st : Student) (n : ℤ) (l : List TransactionView) : Prop :=
  ∃ client payload d, payload.prop "amount" = .ok (some (.num d)) ∧ d.value = (n : ℚ) ∧
    AnswersLast E L (get_last_transactions_cb E payload client (some st)).acts (.transactions l)

/-! ## What is answered -/

/-- The account is sender or recipient. -/
def Student.involved (st : Student) (b : Booking) : Bool :=
  b.sender.reference = some st._id || b.recipient.reference = some st._id

/-- The entry names the account as tax recipient. -/
def Student.named (st : Student) (b : Booking) : Bool := b.tax_recipient = st._id

/-- The entry is taxed. -/
def Entry.taxed (b : Booking) : Bool := 0 < b.amount_tax

/-- The newest entries of the account, and one transformed entry for each of the
newest ones that brought it tax income. -/
def Complete (L : Ledger) (st : Student) (n : ℤ) (l : List TransactionView) : Prop :=
  l.Perm ((newest Entry.time (entries n) (L.filter st.involved)).map TransactionView.ofBooking ++
    (newest Entry.time (entries n) ((L.filter st.named).filter Entry.taxed)).map
      (TransactionView.ofTax st))

/-- The newest entries that brought the account tax income are not hidden: at most
`n` entries that name it, taxed or not, are at least as recent. -/
def NoneHidden (L : Ledger) (st : Student) (n : ℤ) : Prop :=
  0 < n → ∀ b ∈ newest Entry.time (entries n) ((L.filter st.named).filter Entry.taxed),
    ((L.filter st.named).filter fun b' => b.time ≤ b'.time).length ≤ n

instance (L : Ledger) (st : Student) (n : ℤ) : Decidable (NoneHidden L st n) := by
  unfold NoneHidden
  infer_instance

section Last

variable {E : Ext} {L : Ledger} {st : Student} {n : ℤ} {l : List TransactionView}

theorem foundLast_eq {limit : Option ℕ} {f : Filter} {tr : List Booking}
    (hd : (L.map Entry.time).Nodup) (h : FoundLast L limit f tr) :
    ∃ p, f.selects = some p ∧ tr = newest Entry.time limit (L.filter p) := by
  obtain ⟨hp, hperm⟩ := h
  refine ⟨_, hp, Newest.newest_perm ?_ (hperm.filter _)⟩
  exact hd.sublist (List.filter_sublist.map _)

/-- The limit is applied before the entries with a tax are selected. -/
theorem lastList_eq (hd : (L.map Entry.time).Nodup) (h : LastList E L st n l) :
    l = (newest Entry.time (entries n) (L.filter st.involved)).map TransactionView.ofBooking ++
      ((newest Entry.time (entries n) (L.filter st.named)).filter Entry.taxed).map
        (TransactionView.ofTax st) := by
  obtain ⟨client, payload, d, hamount, hn, h⟩ := h
  have found {f : Filter} {tr : List Booking}
      (h : FoundLast L (limitOf (some (.num d))) f tr) :
      ∃ p, f.selects = some p ∧ tr = newest Entry.time (entries n) (L.filter p) := by
    rw [limitOf_num hn] at h
    exact foundLast_eq hd h
  cases h with
  | here hanswer =>
      rcases mem_get_last_transactions_cb hanswer with ⟨m, heq⟩ | ⟨amount, -, heq⟩ <;> cases heq
  | @search _ _ env client _ limit _ tr hsearch htr h =>
      rcases mem_get_last_transactions_cb hsearch with ⟨m, heq⟩ | ⟨amount, hpayload, heq⟩
      · cases heq
      cases heq
      cases hamount.symm.trans hpayload
      obtain ⟨p, hp, rfl⟩ := found htr
      cases hp
      -- the callback of the first search starts the second one
      cases h with
      | here hanswer => cases mem_getTransactions hanswer
      | @search _ _ env client _ limit _ tr_tax hsearch htax h =>
          cases mem_getTransactions hsearch
          obtain ⟨p, hp, rfl⟩ := found htax
          cases hp
          rw [onReply, onTransactions, answer_acts] at h
          cases h with
          | here hanswer =>
              cases List.mem_singleton.mp hanswer
              rfl
          | search hsearch => cases List.mem_singleton.mp hsearch

/-- The owner of a record with a password is answered such a list. -/
theorem lastList_of_password {password : Js.Json} (L : Ledger) (n : ℤ)
    (h : check_password E st (some password) = .ok true) :
    LastList E L st n
      ((newest Entry.time (entries n) (L.filter st.involved)).map TransactionView.ofBooking ++
        ((newest Entry.time (entries n) (L.filter st.named)).filter Entry.taxed).map
          (TransactionView.ofTax st)) := by
  let amount : JsVal := some (.num ⟨n, 0⟩)
  let payload : JsVal := some (.obj [("amount", .num ⟨n, 0⟩), ("password", password)])
  have hn : (⟨n, 0⟩ : Decimal).value = n := by simp [Decimal.value]
  have search (f : Filter) (cb : TransactionsCb) :
      Act.query ⟨0, none⟩ (.transactions f amount cb) ∈
        (getTransactions ⟨0, none⟩ f amount cb).acts := by
    rw [getTransactions]
    split
    · exact JS.mem_lift_bind_acts.mpr ⟨.fin (⟨n, 0⟩ : Decimal).value, rfl, List.mem_singleton_self _⟩
    · exact List.mem_singleton_self _
  have first : Act.query ⟨0, none⟩ (.transactions (.account st._id) amount
      (.get_last_transactions st amount)) ∈
        (get_last_transactions_cb E payload ⟨0, none⟩ (some st)).acts := by
    have hpassword : payload.prop "password" = .ok (some password) := rfl
    have hamount : payload.prop "amount" = .ok amount := rfl
    simp only [get_last_transactions_cb, hpassword, hamount, h, JS.lift_ok_bind]
    exact search _ _
  refine ⟨⟨0, none⟩, payload, ⟨n, 0⟩, rfl, hn, ?_⟩
  refine @AnswersLast.search E L _ _ .start _ _ _ _ _ first (.intro rfl (.refl _)) ?_
  refine @AnswersLast.search E L _ _ .start _ _ _ _ _ (search _ _) (.intro rfl (.refl _)) ?_
  rw [limitOf_num hn]
  exact .here (List.mem_singleton_self _)

/-- Nothing is lost by the limit exactly when it keeps the newest entries with a
tax. -/
theorem filter_taxed_eq_iff (hd : (L.map Entry.time).Nodup) :
    (newest Entry.time (entries n) (L.filter st.named)).filter Entry.taxed =
      newest Entry.time (entries n) ((L.filter st.named).filter Entry.taxed) ↔
        NoneHidden L st n := by
  have hnamed : ((L.filter st.named).map Entry.time).Nodup :=
    hd.sublist (List.filter_sublist.map _)
  rw [Newest.filter_newest_eq_iff hnamed.of_map, NoneHidden]
  by_cases hn : n ≤ 0
  · have all : entries n = none := if_pos hn
    refine iff_of_true (fun b hb => ?_) fun h => absurd h (not_lt.mpr hn)
    rw [all] at hb ⊢
    have hb' := Newest.mem_of_mem_newest hb
    exact (Newest.perm_sort _).mem_iff.mpr (List.mem_of_mem_filter hb')
  · have some : entries n = some n.toNat := if_neg hn
    have hpos : 0 < n := not_le.mp hn
    simp only [hpos, true_imp_iff]
    refine forall₂_congr fun b hb => ?_
    have hb' := List.mem_of_mem_filter (Newest.mem_of_mem_newest hb)
    rw [some, Newest.mem_newest_iff hnamed hb']
    exact Int.le_toNat hpos.le

end Last

/-- The list is complete exactly when no entry with a tax is hidden. -/
theorem lastList_complete_iff {E : Ext} {L : Ledger} {st : Student} {n : ℤ}
    {l : List TransactionView} (hd : (L.map Entry.time).Nodup) (hl : LastList E L st n l) :
    Complete L st n l ↔ NoneHidden L st n := by
  rw [lastList_eq hd hl, Complete, List.perm_append_left_iff, ← filter_taxed_eq_iff hd]
  constructor
  · intro hperm
    have length := hperm.length_eq
    rw [List.length_map, List.length_map] at length
    exact Newest.filter_newest_isPrefix.sublist.eq_of_length length
  · intro heq
    rw [heq]

section Sample

/-- An entry between strangers that names account `1` as tax recipient. -/
def named (time : Time) (amount_tax : ℚ) : Booking where
  sender := ⟨some 2, none, none, none, none, none, .missing⟩
  recipient := ⟨some 3, none, none, none, none, none, .missing⟩
  tax_recipient := 1
  time := time
  amount_sent := 10
  amount_received := 10 - amount_tax
  amount_tax := amount_tax
  percent_tax := 0
  comment := none

theorem check_password_someStudent :
    check_password Ext.simple (someStudent 1) (some (.str "pw")) = .ok true := by decide +kernel

/-- The newest entry is not taxed, and hides the one that is. -/
theorem untaxed_hides : ¬ ∀ (E : Ext) (L : Ledger) (st : Student) (n : ℤ)
    (l : List TransactionView), (L.map Entry.time).Nodup → LastList E L st n l →
      Complete L st n l := by
  intro claim
  have hd : ([named 1 1, named 2 0].map Entry.time).Nodup := by decide
  have complete := claim _ _ _ 1 _ hd
    (lastList_of_password [named 1 1, named 2 0] 1 check_password_someStudent)
  have length := complete.length_eq
  exact absurd length (by decide +kernel)

/-- An entry that is not taxed hides nothing that is newer. -/
theorem lastList_complete_older :
    ([named 2 1, named 1 0].map Entry.time).Nodup ∧
      NoneHidden [named 2 1, named 1 0] (someStudent 1) 1 ∧
      ∃ l, LastList Ext.simple [named 2 1, named 1 0] (someStudent 1) 1 l ∧
        Complete [named 2 1, named 1 0] (someStudent 1) 1 l := by
  have hd : ([named 2 1, named 1 0].map Entry.time).Nodup := by decide
  have none : NoneHidden [named 2 1, named 1 0] (someStudent 1) 1 := by decide +kernel
  have list := lastList_of_password [named 2 1, named 1 0] 1 check_password_someStudent
  exact ⟨hd, none, _, list, (lastList_complete_iff hd list).mpr none⟩

end Sample

end SchuleAlsStaat
