/-
The fee of a lot: what the sales that consume it are charged.  The share of a sale is
taken from what is left of the lot, so the shares add up only where one sale consumes it.
-/
import Mathlib.Algebra.BigOperators.Ring.List
import Mathlib.Algebra.Order.BigOperators.Group.List
import ReportsFramework.LookUpFills

namespace ReportsFramework

open Trx

variable {env : TaxEnv} {opts : LookUpOpts}

section Division

theorem bigNumberDiv_self {y : ℚ} (hy : y ≠ 0) : bigNumberDiv y y = 1 := by
  have hfloor : ⌊(1 * 10 ^ 20 + 1 / 2 : ℚ)⌋ = 10 ^ 20 := by norm_num
  unfold bigNumberDiv
  rw [div_self hy, if_neg (by norm_num), hfloor]
  norm_num

/-- A part of a quantity is rounded to a part of one. -/
theorem bigNumberDiv_mem_unit {x y : ℚ} (hx : 0 ≤ x) (hxy : x ≤ y) :
    0 ≤ bigNumberDiv x y ∧ bigNumberDiv x y ≤ 1 := by
  have hle : x / y ≤ 1 := div_le_one_of_le₀ hxy (hx.trans hxy)
  have hnonneg : 0 ≤ x / y := div_nonneg hx (hx.trans hxy)
  have hscaled : ¬ x / y * 10 ^ 20 < 0 := not_lt.mpr (by positivity)
  have hfloor : ⌊x / y * 10 ^ 20 + 1 / 2⌋ ≤ 10 ^ 20 := by
    apply Int.lt_add_one_iff.mp
    apply Int.floor_lt.mpr
    push_cast
    linarith
  have hfloor_nonneg : 0 ≤ ⌊x / y * 10 ^ 20 + 1 / 2⌋ := Int.floor_nonneg.mpr (by positivity)
  unfold bigNumberDiv
  rw [if_neg hscaled]
  constructor
  · have : (0 : ℚ) ≤ ⌊x / y * 10 ^ 20 + 1 / 2⌋ := by exact_mod_cast hfloor_nonneg
    positivity
  · apply div_le_one_of_le₀ _ (by positivity)
    exact_mod_cast hfloor

/-- The rounding of a quotient. -/
theorem div_le_bigNumberDiv_add {x y : ℚ} (hx : 0 ≤ x) (hy : 0 ≤ y) :
    x / y ≤ bigNumberDiv x y + 1 / (2 * 10 ^ 20) ∧
      bigNumberDiv x y ≤ x / y + 1 / (2 * 10 ^ 20) := by
  have hscaled : ¬ x / y * 10 ^ 20 < 0 := not_lt.mpr (by positivity)
  have hlow := Int.sub_one_lt_floor (x / y * 10 ^ 20 + 1 / 2)
  have hhigh := Int.floor_le (x / y * 10 ^ 20 + 1 / 2)
  unfold bigNumberDiv
  rw [if_neg hscaled]
  generalize (⌊x / y * 10 ^ 20 + 1 / 2⌋ : ℤ) = n at hlow hhigh
  constructor
  · rw [← sub_le_iff_le_add, le_div_iff₀ (by norm_num)]
    linarith
  · rw [div_le_iff₀ (by norm_num)]
    linarith

end Division

section Charges

/-- The fees of the lot that the sales were charged. -/
def feesCharged (fills : List LotFill) : ℚ := (fills.map LotFill.feeUsd).sum

/-- The quantity of the lot that they consumed. -/
def consumed (fills : List LotFill) : ℚ := (fills.map LotFill.qty).sum

/-- No sale draws on a lot from which another one has drawn before. -/
def DrawnOnce (fills : List LotFill) : Prop :=
  ∀ fill ∈ fills, 0 < fill.qty → fill.before.buyFilledAmount = 0

/-- What fills of one lot come to, whatever their order is in the list. -/
structure Charges (env : TaxEnv) (opts : LookUpOpts) (lot lot' : Trade) (fills : List LotFill) :
    Prop where
  trx : SameTrx env lot.toTrx lot'.toTrx
  mono : lot.buyFilledAmount ≤ lot'.buyFilledAmount
  consumed : consumed fills = lot'.buyFilledAmount - lot.buyFilledAmount
  fair : ∀ fill ∈ fills, fill.Fair env opts ∧ SameTrx env lot.toTrx fill.before.toTrx ∧
    lot.buyFilledAmount ≤ fill.before.buyFilledAmount
  free : lotFeeUsd env opts lot = 0 → feesCharged fills = 0
  charged : lot.boughtAmount ≠ 0 → DrawnOnce fills →
    (lot.buyFilledAmount < lot'.buyFilledAmount → lot.buyFilledAmount = 0) ∧
      feesCharged fills = lotFeeUsd env opts lot *
        bigNumberDiv (lot'.buyFilledAmount - lot.buyFilledAmount) lot.boughtAmount

variable {lot lot' lot'' : Trade} {fills fills' : List LotFill}

theorem lotFeeUsd_congr (h : SameTrx env lot.toTrx lot'.toTrx) :
    lotFeeUsd env opts lot = lotFeeUsd env opts lot' := by
  unfold lotFeeUsd
  rw [h]

theorem Charges.nil (htrx : SameTrx env lot.toTrx lot'.toTrx)
    (hfilled : lot'.buyFilledAmount = lot.buyFilledAmount) : Charges env opts lot lot' [] where
  trx := htrx
  mono := hfilled.ge
  consumed := by simp [ReportsFramework.consumed, hfilled]
  fair := by simp
  free := fun _ => rfl
  charged := by
    intro _ _
    constructor
    · intro hlt
      exact absurd hfilled.symm hlt.ne
    · rw [hfilled, sub_self, bigNumberDiv_zero, mul_zero]
      rfl

/-- A lot of which nothing had been consumed is charged for the part that is. -/
theorem Charges.single {fill : LotFill} (h : fill.Fair env opts) :
    Charges env opts fill.before fill.after [fill] where
  trx := h.trx
  mono := sub_nonneg.mp h.nonneg
  consumed := by simp [ReportsFramework.consumed, LotFill.qty]
  fair := by
    intro fill' hfill'
    rw [List.mem_singleton.mp hfill']
    exact ⟨h, SameTrx.refl _, le_rfl⟩
  free := by
    intro hfee
    rcases h.fee with ⟨-, hzero⟩ | ⟨-, hshare⟩
    · simp [feesCharged, hzero]
    · simp [feesCharged, hshare, hfee]
  charged := by
    intro hamount honce
    have hcharged : feesCharged [fill] = fill.feeUsd := by simp [feesCharged]
    rw [hcharged]
    constructor
    · intro hlt
      exact honce fill (List.mem_singleton_self fill) (sub_pos.mpr hlt)
    · change fill.feeUsd = lotFeeUsd env opts fill.before *
        bigNumberDiv fill.qty fill.before.boughtAmount
      rcases h.fee with ⟨hqty, hzero⟩ | ⟨hpos, hshare⟩
      · rw [hzero, hqty, bigNumberDiv_zero, mul_zero]
      · have hrest : fill.restAmount = fill.before.boughtAmount := by
          unfold LotFill.restAmount
          rw [honce fill (List.mem_singleton_self fill) (hpos hamount), sub_zero]
        rw [hshare, LotFill.share, hrest]
        split_ifs with hlt
        · rfl
        · have heq : fill.qty = fill.before.boughtAmount :=
            le_antisymm (hrest ▸ h.le) (not_lt.mp hlt)
          rw [heq, bigNumberDiv_self hamount]

theorem Charges.trans (h : Charges env opts lot lot' fills)
    (h' : Charges env opts lot' lot'' fills') : Charges env opts lot lot'' (fills ++ fills') where
  trx := h.trx.trans h'.trx
  mono := h.mono.trans h'.mono
  consumed := by
    have hfirst := h.consumed
    have hsecond := h'.consumed
    unfold ReportsFramework.consumed at hfirst hsecond ⊢
    rw [List.map_append, List.sum_append, hfirst, hsecond]
    ring
  fair := by
    intro fill hfill
    rcases List.mem_append.mp hfill with hfill | hfill
    · exact h.fair fill hfill
    · obtain ⟨hfair, htrx, hle⟩ := h'.fair fill hfill
      exact ⟨hfair, h.trx.trans htrx, h.mono.trans hle⟩
  free := by
    intro hfee
    have hfirst := h.free hfee
    have hsecond := h'.free ((lotFeeUsd_congr h.trx).symm.trans hfee)
    unfold feesCharged at hfirst hsecond ⊢
    rw [List.map_append, List.sum_append, hfirst, hsecond, add_zero]
  charged := by
    intro hamount honce
    have hamount' := h.trx.congr boughtAmount (boughtAmount_withSymbs env)
    obtain ⟨hzero, hfirst⟩ := h.charged hamount fun fill hfill =>
      honce fill (List.mem_append_left _ hfill)
    obtain ⟨hzero', hsecond⟩ := h'.charged (hamount' ▸ hamount) fun fill hfill =>
      honce fill (List.mem_append_right _ hfill)
    have hsum : feesCharged (fills ++ fills') = feesCharged fills + feesCharged fills' := by
      unfold feesCharged
      rw [List.map_append, List.sum_append]
    rw [hsum, hfirst, hsecond, ← hamount', ← lotFeeUsd_congr h.trx]
    rcases h.mono.eq_or_lt with heq | hlt
    · rw [heq, sub_self, bigNumberDiv_zero, mul_zero, zero_add]
      exact ⟨hzero', rfl⟩
    · -- the first fills have drawn, so the second ones do not
      have hpos : lot'.buyFilledAmount ≠ 0 := by
        rw [hzero hlt] at hlt
        exact hlt.ne'
      have heq : lot'.buyFilledAmount = lot''.buyFilledAmount := by
        by_contra hne
        exact hpos (hzero' (h'.mono.lt_of_ne hne))
      rw [← heq, sub_self, bigNumberDiv_zero, mul_zero, add_zero]
      exact ⟨hzero, rfl⟩

theorem Charges.perm (h : Charges env opts lot lot' fills) (hperm : fills.Perm fills') :
    Charges env opts lot lot' fills' where
  trx := h.trx
  mono := h.mono
  consumed := by
    rw [← h.consumed]
    exact ((hperm.map _).sum_eq).symm
  fair := by
    intro fill hfill
    exact h.fair fill (hperm.mem_iff.mpr hfill)
  free := by
    intro hfee
    rw [← h.free hfee]
    exact ((hperm.map _).sum_eq).symm
  charged := by
    intro hamount honce
    obtain ⟨hzero, hcharged⟩ := h.charged hamount fun fill hfill =>
      honce fill (hperm.mem_iff.mp hfill)
    exact ⟨hzero, ((hperm.map _).sum_eq).symm.trans hcharged⟩

/-- What a sale is charged of the fee of a lot, as a part of it. -/
def LotFill.chargedPart (fill : LotFill) : ℚ :=
  if fill.qty = 0 then 0 else fill.share

/-- A fill is charged no less than its part of the whole lot, but for the rounding, and
no less than its part of what was left. -/
theorem Charges.chargedPart_ge (h : Charges env opts lot lot' fills)
    (hbound : 0 ≤ lot.buyFilledAmount) (hamount : lot.boughtAmount ≠ 0) {fill : LotFill}
    (hfill : fill ∈ fills) :
    fill.feeUsd = lotFeeUsd env opts lot * fill.chargedPart ∧
      fill.qty / lot.boughtAmount ≤ fill.qty / fill.restAmount ∧
      fill.qty / fill.restAmount ≤ fill.chargedPart + 1 / (2 * 10 ^ 20) := by
  obtain ⟨hfair, htrx, hle⟩ := h.fair fill hfill
  have hamount' : lot.boughtAmount = fill.before.boughtAmount :=
    htrx.congr boughtAmount (boughtAmount_withSymbs env)
  have hrest : fill.restAmount ≤ lot.boughtAmount := by
    unfold LotFill.restAmount
    linarith
  rcases hfair.nonneg.eq_or_lt with hzero | hpos
  · have hpart : fill.chargedPart = 0 := if_pos hzero.symm
    rw [hpart, ← hzero, zero_div, zero_div]
    refine ⟨?_, le_rfl, by norm_num⟩
    rcases hfair.fee with ⟨-, hfee⟩ | ⟨hqty, -⟩
    · rw [hfee, mul_zero]
    · exact absurd hzero (hqty (hamount' ▸ hamount)).ne
  · have hpart : fill.chargedPart = fill.share := if_neg hpos.ne'
    have hrestPos : 0 < fill.restAmount := hpos.trans_le hfair.le
    rw [hpart]
    refine ⟨?_, div_le_div_of_nonneg_left hpos.le hrestPos hrest, ?_⟩
    · rcases hfair.fee with ⟨hqty, -⟩ | ⟨-, hfee⟩
      · exact absurd hqty hpos.ne'
      · rw [hfee, lotFeeUsd_congr htrx]
    · unfold LotFill.share
      split_ifs with hlt
      · exact (div_le_bigNumberDiv_add hpos.le hrestPos.le).1
      · rw [le_antisymm hfair.le (not_lt.mp hlt), div_self hrestPos.ne']
        norm_num

/-- A gap in one item is one in the sum. -/
theorem sum_add_le_sum {α : Type} {items : List α} (f g : α → ℚ) {item : α} (gap : ℚ)
    (hle : ∀ item ∈ items, f item ≤ g item) (hitem : item ∈ items)
    (hgap : f item + gap ≤ g item) : (items.map f).sum + gap ≤ (items.map g).sum := by
  induction items with
  | nil => cases hitem
  | cons head items ih =>
    obtain ⟨hhead, htail⟩ := List.forall_mem_cons.mp hle
    simp only [List.map_cons, List.sum_cons]
    rcases List.mem_cons.mp hitem with rfl | hitem
    · have := List.sum_le_sum htail
      linarith
    · have := ih htail hitem
      linarith

/-- A sale that draws on a lot from which another one has drawn is charged too much, unless
the excess is lost in the rounding of the quotients. -/
theorem Charges.excess (h : Charges env opts lot lot' fills) (hbound : 0 ≤ lot.buyFilledAmount)
    (hamount : lot.boughtAmount ≠ 0) {fill : LotFill} (hfill : fill ∈ fills)
    (hgap : (fills.length + 1) / (2 * 10 ^ 20) <
      fill.qty / fill.restAmount - fill.qty / lot.boughtAmount) :
    feesCharged fills = lotFeeUsd env opts lot * (fills.map LotFill.chargedPart).sum ∧
      bigNumberDiv (lot'.buyFilledAmount - lot.buyFilledAmount) lot.boughtAmount <
        (fills.map LotFill.chargedPart).sum := by
  constructor
  · unfold feesCharged
    rw [← List.sum_map_mul_left]
    apply congrArg List.sum
    apply List.map_congr_left
    intro fill hfill
    exact (h.chargedPart_ge hbound hamount hfill).1
  · have hpos : 0 < lot.boughtAmount := (boughtAmount_nonneg _).lt_of_ne hamount.symm
    have hle : ∀ fill ∈ fills,
        fill.qty / lot.boughtAmount - 1 / (2 * 10 ^ 20) ≤ fill.chargedPart := by
      intro fill hfill
      obtain ⟨-, hle, hpart⟩ := h.chargedPart_ge hbound hamount hfill
      linarith
    have hgap' : fill.qty / lot.boughtAmount - 1 / (2 * 10 ^ 20) +
        (fill.qty / fill.restAmount - fill.qty / lot.boughtAmount) ≤ fill.chargedPart := by
      obtain ⟨-, -, hpart⟩ := h.chargedPart_ge hbound hamount hfill
      linarith
    have hsum := sum_add_le_sum _ _ _ hle hfill hgap'
    have htotal : (fills.map fun fill => fill.qty / lot.boughtAmount - 1 / (2 * 10 ^ 20)).sum =
        (lot'.buyFilledAmount - lot.buyFilledAmount) / lot.boughtAmount -
          fills.length / (2 * 10 ^ 20) := by
      rw [← h.consumed]
      unfold ReportsFramework.consumed
      clear hsum hgap hgap' hle hfill h
      induction fills with
      | nil => simp
      | cons fill fills ih =>
        simp only [List.map_cons, List.sum_cons, List.length_cons, ih]
        push_cast
        ring
    obtain ⟨-, hround⟩ := div_le_bigNumberDiv_add (sub_nonneg.mpr h.mono) hpos.le
    rw [htotal] at hsum
    have hlength : ((fills.length : ℚ) + 1) / (2 * 10 ^ 20) =
        fills.length / (2 * 10 ^ 20) + 1 / (2 * 10 ^ 20) := add_div _ _ _
    linarith

end Charges

section Run

variable {ctx : LookUpCtx} {trade : Trade} {older : List Trade}

/-- One row charges each lot once. -/
theorem row_charges {row : List LotFill} {lots : List Trade}
    (hbefore : row.map LotFill.before = older) (hafter : row.map LotFill.after = lots)
    (hfair : ∀ fill ∈ row, fill.Fair env opts) {j : ℕ} {lot : Trade} (hlot : older[j]? = some lot) :
    ∃ lot', lots[j]? = some lot' ∧ Charges env opts lot lot' row[j]?.toList := by
  subst hbefore hafter
  rw [List.getElem?_map, Option.map_eq_some_iff] at hlot
  obtain ⟨fill, hfill, rfl⟩ := hlot
  refine ⟨fill.after, by rw [List.getElem?_map, hfill, Option.map_some], ?_⟩
  rw [hfill]
  exact Charges.single (hfair fill (List.mem_of_getElem? hfill))

theorem lookUpSale_charges (hfit : ∀ t ∈ trade :: older, TradeFit t) {j : ℕ} {lot : Trade}
    (hlot : older[j]? = some lot) :
    ∃ lot', (lookUpSale env opts ctx trade older).lots[j]? = some lot' ∧
      Charges env opts lot lot' (saleRow env opts ctx trade older)[j]?.toList :=
  row_charges (map_before_saleRow ctx trade older) (map_after_saleRow ctx trade older)
    (saleRow_fair hfit) hlot

/-- Its own turn leaves a trade alone as a lot. -/
theorem lookUpSale_charges_trade (hfit : ∀ t ∈ trade :: older, TradeFit t) :
    Charges env opts trade (lookUpSale env opts ctx trade older).trade [] := by
  obtain ⟨htrade, holder⟩ := List.forall_mem_cons.mp hfit
  have hscan := lookUpSale_scanned env opts ctx htrade.bound.sale
    fun lot hlot => (holder lot hlot).bound.lot
  obtain ⟨isBuyTrx, hbook⟩ := hscan.buyBook
  exact Charges.nil hscan.trx (by rw [hbook])

theorem Charges.refl (lot : Trade) : Charges env opts lot lot [] :=
  Charges.nil (SameTrx.refl _) rfl

theorem lookUpSalesBack_charges (ctx : LookUpCtx) {trades : List Trade}
    (hfit : ∀ t ∈ trades, TradeFit t) {j : ℕ} {lot : Trade} (hlot : trades[j]? = some lot) :
    ∃ lot', (lookUpSalesBack env opts ctx trades).trades[j]? = some lot' ∧
      Charges env opts lot lot' (fillsOfLot (fillRowsBack env opts ctx trades) j) := by
  induction trades generalizing j with
  | nil => simp at hlot
  | cons trade older ih =>
    obtain ⟨htrade, holder⟩ := List.forall_mem_cons.mp hfit
    have hrun := (fillRowsBack_fair env opts ctx holder).1
    have hturn : ∀ t ∈ trade :: (lookUpSalesBack env opts ctx older).trades, TradeFit t :=
      List.forall_mem_cons.mpr ⟨htrade, hrun⟩
    have hidle : ∀ fill ∈ (lookUpSalesBack env opts ctx older).trades.map LotFill.untouched,
        fill.Fair env opts :=
      fair_map_untouched fun t ht => ⟨(hrun t ht).bound.lot, (hrun t ht).isOpen⟩
    simp only [lookUpSalesBack, fillRowsBack]
    cases j with
    | zero =>
      obtain rfl := Option.some.inj hlot
      cases (lookUpSalesBack env opts ctx older).exit with
      | completed => exact ⟨_, rfl, lookUpSale_charges_trade hturn⟩
      | interrupted => exact ⟨_, rfl, Charges.refl trade⟩
      | thrown err => exact ⟨_, rfl, Charges.refl trade⟩
    | succ j =>
      obtain ⟨lot₁, hlot₁, hcharges⟩ := ih holder hlot
      cases (lookUpSalesBack env opts ctx older).exit with
      | completed =>
        obtain ⟨lot₂, hlot₂, hcharges'⟩ := lookUpSale_charges hturn hlot₁
        exact ⟨lot₂, hlot₂, (hcharges.trans hcharges').perm List.perm_append_comm⟩
      | interrupted =>
        obtain ⟨lot₂, hlot₂, hcharges'⟩ := row_charges (map_before_untouched _)
          (map_after_untouched _) hidle hlot₁
        exact ⟨lot₂, hlot₂, (hcharges.trans hcharges').perm List.perm_append_comm⟩
      | thrown err =>
        obtain ⟨lot₂, hlot₂, hcharges'⟩ := row_charges (map_before_untouched _)
          (map_after_untouched _) hidle hlot₁
        exact ⟨lot₂, hlot₂, (hcharges.trans hcharges').perm List.perm_append_comm⟩

theorem lookUpSalesForth_charges (n : ℕ) (ctx : LookUpCtx) {trades : List Trade}
    (hfit : ∀ t ∈ trades, TradeFit t) {j : ℕ} {lot : Trade} (hlot : trades[j]? = some lot) :
    ∃ lot', (lookUpSalesForth env opts n ctx trades).trades[j]? = some lot' ∧
      Charges env opts lot lot' (fillsOfLot (fillRowsForth env opts n ctx trades) j) := by
  induction n generalizing ctx trades j lot with
  | zero => cases trades <;> exact ⟨lot, hlot, Charges.refl lot⟩
  | succ n ih =>
    cases trades with
    | nil => simp at hlot
    | cons trade older =>
      have hturn : ∀ t ∈ (lookUpSale env opts ctx trade older).trade ::
          (lookUpSale env opts ctx trade older).lots, TradeFit t := lookUpSale_fit hfit
      simp only [lookUpSalesForth, fillRowsForth]
      cases j with
      | zero =>
        obtain rfl := Option.some.inj hlot
        cases (lookUpSale env opts ctx trade older).exit <;>
          exact ⟨_, rfl, lookUpSale_charges_trade hfit⟩
      | succ j =>
        obtain ⟨lot₁, hlot₁, hcharges⟩ := lookUpSale_charges hfit hlot
        cases (lookUpSale env opts ctx trade older).exit with
        | completed =>
          obtain ⟨lot₂, hlot₂, hcharges'⟩ := ih (lookUpSale env opts ctx trade older).ctx
            (List.forall_mem_cons.mp hturn).2 hlot₁
          exact ⟨lot₂, hlot₂, hcharges.trans hcharges'⟩
        | interrupted => exact ⟨lot₁, hlot₁, hcharges.trans (Charges.refl lot₁)⟩
        | thrown err => exact ⟨lot₁, hlot₁, hcharges.trans (Charges.refl lot₁)⟩

theorem lookUpSales_charges (env : TaxEnv) (opts : LookUpOpts) (ctx : LookUpCtx)
    {trades : List Trade} (hfit : ∀ t ∈ trades, TradeFit t) {j : ℕ} {lot : Trade}
    (hlot : trades[j]? = some lot) :
    ∃ lot', (lookUpSales env opts ctx trades).trades[j]? = some lot' ∧ LotBound lot' ∧
      Charges env opts lot lot' (fillsOfLot (fillRows env opts ctx trades) j) := by
  unfold lookUpSales fillRows
  split
  · obtain ⟨lot', hlot', hcharges⟩ := lookUpSalesBack_charges ctx hfit hlot
    have hbound := (fillRowsBack_fair env opts ctx hfit).1 lot' (List.mem_of_getElem? hlot')
    exact ⟨lot', hlot', hbound.bound.lot, hcharges⟩
  · obtain ⟨lot', hlot', hcharges⟩ := lookUpSalesForth_charges trades.length ctx hfit hlot
    have hbound := (fillRowsForth_fair env opts _ ctx hfit).1 lot' (List.mem_of_getElem? hlot')
    exact ⟨lot', hlot', hbound.bound.lot, hcharges⟩

end Run

/-- The sales are charged the fee of a lot by the part of it that they consume, and no
more than the fee. -/
def IsApportioned (env : TaxEnv) (opts : LookUpOpts) (lot : Trade) (fills : List LotFill) : Prop :=
  feesCharged fills = lotFeeUsd env opts lot * bigNumberDiv (consumed fills) lot.boughtAmount ∧
    |feesCharged fills| ≤ |lotFeeUsd env opts lot|

/-- A sale takes a part of what is left of the lot that exceeds its part of the whole lot by
more than the roundings of the quotients. -/
def HasExcess (lot : Trade) (fills : List LotFill) : Prop :=
  ∃ fill ∈ fills, (fills.length + 1) / (2 * 10 ^ 20) <
    fill.qty / fill.restAmount - fill.qty / lot.boughtAmount

/-- The fee of a lot is apportioned if it has none, or if no sale draws on it when another
one has drawn before; and it is not where such a sale exceeds the roundings. -/
theorem fees_apportioned (env : TaxEnv) (opts : LookUpOpts) (ctx : LookUpCtx)
    (trades : List Trade) (hfit : ∀ t ∈ trades, TradeFit t) {j : ℕ} {lot : Trade}
    (hlot : trades[j]? = some lot) (hamount : lot.boughtAmount ≠ 0) :
    (lotFeeUsd env opts lot = 0 ∨ DrawnOnce (fillsOfLot (fillRows env opts ctx trades) j) →
      IsApportioned env opts lot (fillsOfLot (fillRows env opts ctx trades) j)) ∧
    (lotFeeUsd env opts lot ≠ 0 → HasExcess lot (fillsOfLot (fillRows env opts ctx trades) j) →
      ¬ IsApportioned env opts lot (fillsOfLot (fillRows env opts ctx trades) j)) := by
  obtain ⟨lot', -, hbound, hcharges⟩ := lookUpSales_charges env opts ctx hfit hlot
  have hnonneg := (hfit lot (List.mem_of_getElem? hlot)).bound.lot.nonneg
  unfold IsApportioned
  rw [hcharges.consumed]
  constructor
  · rintro (hfee | honce)
    · rw [hcharges.free hfee, hfee, zero_mul]
      exact ⟨rfl, le_rfl⟩
    · obtain ⟨-, hcharged⟩ := hcharges.charged hamount honce
      have hle : lot'.buyFilledAmount - lot.buyFilledAmount ≤ lot.boughtAmount := by
        have hle' := hbound.le
        rw [← hcharges.trx.congr boughtAmount (boughtAmount_withSymbs env)] at hle'
        linarith
      obtain ⟨hpart, hone⟩ := bigNumberDiv_mem_unit (sub_nonneg.mpr hcharges.mono) hle
      rw [hcharged]
      refine ⟨rfl, ?_⟩
      rw [abs_mul, abs_of_nonneg hpart]
      exact mul_le_of_le_one_right (abs_nonneg _) hone
  · rintro hfee ⟨fill, hfill, hgap⟩ ⟨heq, -⟩
    obtain ⟨hcharged, hexcess⟩ := hcharges.excess hnonneg hamount hfill hgap
    rw [hcharged] at heq
    exact hexcess.ne (mul_left_cancel₀ hfee heq).symm

namespace LotFeesWitness

def usdEnv : TaxEnv := ⟨["USD"], fun _ => ("", "")⟩

def feesOpts : LookUpOpts := { shouldFeesBeDeducted := true }

/-- A trade of bitcoins at a dollar each. -/
def btcTrade (mtsCreate : ℕ) (amount fee : ℚ) : Trade :=
  .ofTrx {
    symbol := "tBTCUSD", mtsCreate, firstSymb := "BTC", lastSymb := "USD"
    execAmount := some amount, execPrice := some 1
    firstSymbPriceUsd := some 1, lastSymbPriceUsd := some 1
    trxFee := some fee, trxFeeCcy := "USD" }

/-- Ten are bought for a fee of a dollar, and sold again in two halves. -/
def trades : List Trade := [btcTrade 3 (-5) 0, btcTrade 2 (-5) 0, btcTrade 1 10 (-1)]

theorem trades_fit : ∀ t ∈ trades, TradeFit t := by
  intro t ht
  apply Unfilled.tradeFit
  simp only [trades, List.mem_cons, List.not_mem_nil, or_false] at ht
  rcases ht with rfl | rfl | rfl <;> exact ⟨rfl, rfl, rfl, rfl, rfl⟩

/-- The second half is charged the whole fee, after the first one has been charged half
of it. -/
theorem fee_charged_twice :
    lotFeeUsd usdEnv feesOpts (btcTrade 1 10 (-1)) = -1 ∧
      consumed (fillsOfLot (fillRows usdEnv feesOpts {} trades) 2) = 10 ∧
      feesCharged (fillsOfLot (fillRows usdEnv feesOpts {} trades) 2) = -3 / 2 ∧
      ¬ IsApportioned usdEnv feesOpts (btcTrade 1 10 (-1))
        (fillsOfLot (fillRows usdEnv feesOpts {} trades) 2) := by
  have hfee : lotFeeUsd usdEnv feesOpts (btcTrade 1 10 (-1)) = -1 := by decide +kernel
  have hcharged : feesCharged (fillsOfLot (fillRows usdEnv feesOpts {} trades) 2) = -3 / 2 := by
    decide +kernel
  refine ⟨hfee, by decide +kernel, hcharged, ?_⟩
  rintro ⟨-, hle⟩
  rw [hfee, hcharged] at hle
  norm_num [abs_of_neg] at hle

/-- A lot of which one sale takes a half. -/
theorem fees_apportioned_of_one_sale :
    let sold := [btcTrade 2 (-5) 0, btcTrade 1 10 (-1)]
    IsApportioned usdEnv feesOpts (btcTrade 1 10 (-1))
      (fillsOfLot (fillRows usdEnv feesOpts {} sold) 1) := by
  intro sold
  have hfit : ∀ t ∈ sold, TradeFit t := fun t ht => trades_fit t (List.mem_cons_of_mem _ ht)
  have honce : DrawnOnce (fillsOfLot (fillRows usdEnv feesOpts {} sold) 1) := by
    unfold DrawnOnce
    decide +kernel
  exact (fees_apportioned usdEnv feesOpts {} sold hfit rfl (by decide +kernel)).1 (.inr honce)

end LotFeesWitness

end ReportsFramework
