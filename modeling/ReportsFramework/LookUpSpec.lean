/-
What one turn of each loop of `lookUpTrades` can do.  A pair of trades either
leaves the amounts alone or moves one quantity, the smaller of the two rests,
from the lot to the sale; every later invariant is derived from that.
-/
import ReportsFramework.LookUpTrades

namespace ReportsFramework

namespace Trx

variable (env : TaxEnv) (opts : LookUpOpts) (trx : Trx)

@[simp] theorem symbPair_withSymbs :
    (trx.withSymbs env).symbPair env = trx.symbPair env := by
  by_cases hgiven : trx.firstSymb ≠ "" ∧ trx.lastSymb ≠ ""
  · simp [symbPair, withSymbs, hgiven]
  · have hsplit : trx.symbPair env = env.splitSymbolPairs trx.symbol := by
      simp only [symbPair, hgiven, ↓reduceIte]
    simp only [withSymbs, hsplit]
    simp [symbPair]

@[simp] theorem withSymbs_withSymbs :
    (trx.withSymbs env).withSymbs env = trx.withSymbs env := by
  conv_lhs => rw [withSymbs, symbPair_withSymbs]
  rfl

@[simp] theorem amount_withSymbs :
    (trx.withSymbs env).amount = trx.amount := rfl

@[simp] theorem price_withSymbs : (trx.withSymbs env).price = trx.price := rfl

@[simp] theorem canBeLookedUp_withSymbs :
    (trx.withSymbs env).canBeLookedUp opts = trx.canBeLookedUp opts := rfl

@[simp] theorem soldAmount_withSymbs :
    (trx.withSymbs env).soldAmount = trx.soldAmount := rfl

@[simp] theorem boughtAmount_withSymbs :
    (trx.withSymbs env).boughtAmount = trx.boughtAmount := rfl

@[simp] theorem salePriceUsd_withSymbs :
    (trx.withSymbs env).salePriceUsd opts = trx.salePriceUsd opts := rfl

@[simp] theorem buyPriceUsd_withSymbs :
    (trx.withSymbs env).buyPriceUsd opts = trx.buyPriceUsd opts := rfl

@[simp] theorem symbError?_withSymbs :
    (trx.withSymbs env).symbError? env = trx.symbError? env := by
  simp only [symbError?, symbPair_withSymbs]
  rfl

@[simp] theorem sells_withSymbs :
    (trx.withSymbs env).sells env = trx.sells env := by
  simp only [sells, symbPair_withSymbs, amount_withSymbs]
  rfl

@[simp] theorem buys_withSymbs :
    (trx.withSymbs env).buys env = trx.buys env := by
  simp only [buys, symbPair_withSymbs, amount_withSymbs]
  rfl

@[simp] theorem isNoLot_withSymbs :
    (trx.withSymbs env).isNoLot env = trx.isNoLot env := by
  simp only [isNoLot, symbPair_withSymbs, amount_withSymbs]
  rfl

@[simp] theorem soldAsset_withSymbs :
    (trx.withSymbs env).soldAsset env = trx.soldAsset env := by
  simp [soldAsset]

@[simp] theorem boughtAsset_withSymbs :
    (trx.withSymbs env).boughtAsset env = trx.boughtAsset env := by
  simp [boughtAsset]

theorem soldAmount_nonneg : 0 ≤ trx.soldAmount := by
  unfold soldAmount
  split <;> exact abs_nonneg _

theorem boughtAmount_nonneg : 0 ≤ trx.boughtAmount := by
  unfold boughtAmount
  split <;> exact abs_nonneg _

/-- The same transaction up to the symbols that the look-up writes back. -/
def SameTrx (env : TaxEnv) (left right : Trx) : Prop :=
  left.withSymbs env = right.withSymbs env

variable {env} {left right : Trx}

theorem SameTrx.refl : SameTrx env trx trx := rfl

theorem sameTrx_withSymbs (env : TaxEnv) (trx : Trx) :
    SameTrx env trx (trx.withSymbs env) :=
  (withSymbs_withSymbs env trx).symm

theorem SameTrx.trans {middle : Trx} (hleft : SameTrx env left middle)
    (hright : SameTrx env middle right) : SameTrx env left right :=
  Eq.trans hleft hright

/-- A reading of the transaction that the write-back does not change agrees on
both sides. -/
theorem SameTrx.congr {β : Type} (h : SameTrx env left right)
    (read : Trx → β) (hread : ∀ trx, read (trx.withSymbs env) = read trx) :
    read left = read right := by
  rw [← hread left, h, hread right]

end Trx

/-- Two turns that both relate their trades one to one compose. -/
theorem forall₂_trans {α β γ : Type*} {R : α → β → Prop} {S : β → γ → Prop}
    {T : α → γ → Prop} {as : List α} {bs : List β} {cs : List γ}
    (hfirst : List.Forall₂ R as bs) (hsecond : List.Forall₂ S bs cs)
    (htrans : ∀ a b c, R a b → S b c → T a c) : List.Forall₂ T as cs := by
  induction hfirst generalizing cs with
  | nil =>
      cases hsecond
      exact .nil
  | cons hhead _ ih =>
      cases hsecond with
      | cons hhead' htail' => exact .cons (htrans _ _ _ hhead hhead') (ih htail')

theorem mem_of_forall₂ {α β : Type*} {R : α → β → Prop} {as : List α}
    {bs : List β} (h : List.Forall₂ R as bs) {b : β} (hmem : b ∈ bs) :
    ∃ a ∈ as, R a b := by
  induction h with
  | nil => simp at hmem
  | cons hhead _ ih =>
      rcases List.mem_cons.mp hmem with rfl | hrest
      · exact ⟨_, List.mem_cons_self, hhead⟩
      · obtain ⟨a, ha, hR⟩ := ih hrest
        exact ⟨a, List.mem_cons_of_mem _ ha, hR⟩

open Trx

variable (env : TaxEnv) (opts : LookUpOpts) (sale : Sale)

/-- What `fillLot` moves. -/
def fillQty (sale : Sale) (trade lot : Trade) : ℚ :=
  min (lot.boughtAmount - lot.buyFilledAmount)
    (sale.amount - trade.saleFilledAmount)

section FillLot

variable (price : ℚ) (trade lot : Trade)

theorem fillLot_sale_frame :
    (fillLot opts sale price trade lot).1.toTrx = trade.toTrx ∧
      (fillLot opts sale price trade lot).1.toBuyBook = trade.toBuyBook := by
  simp only [fillLot]
  split_ifs <;> exact ⟨rfl, rfl⟩

theorem fillLot_lot_frame :
    (fillLot opts sale price trade lot).2.toTrx = lot.toTrx ∧
      (fillLot opts sale price trade lot).2.toSaleBook = lot.toSaleBook := by
  simp only [fillLot]
  split_ifs <;> exact ⟨rfl, rfl⟩

theorem fillLot_saleFilledAmount :
    (fillLot opts sale price trade lot).1.saleFilledAmount =
      trade.saleFilledAmount + fillQty sale trade lot := by
  simp only [fillLot, fillQty]
  split_ifs with hless hmore
  · rw [min_eq_left hless.le]
  · rw [min_eq_right hmore.le]
    ring
  · rw [min_eq_right (not_lt.mp hless)]
    ring

theorem fillLot_buyFilledAmount :
    (fillLot opts sale price trade lot).2.buyFilledAmount =
      lot.buyFilledAmount + fillQty sale trade lot := by
  simp only [fillLot, fillQty]
  split_ifs with hless hmore
  · rw [min_eq_left hless.le]
    ring
  · rw [min_eq_right hmore.le]
  · rw [min_eq_left (not_lt.mp hmore)]
    ring

theorem fillLot_costForSaleTrxUsd :
    (fillLot opts sale price trade lot).1.costForSaleTrxUsd =
      trade.costForSaleTrxUsd + fillQty sale trade lot * price := by
  simp only [fillLot, fillQty]
  split_ifs with hless hmore
  · rw [min_eq_left hless.le]
  · rw [min_eq_right hmore.le]
  · rw [min_eq_left (not_lt.mp hmore)]

theorem fillLot_isSaleTrxHistFilled :
    (fillLot opts sale price trade lot).1.isSaleTrxHistFilled =
      (trade.isSaleTrxHistFilled ||
        decide (sale.amount - trade.saleFilledAmount ≤
          lot.boughtAmount - lot.buyFilledAmount)) := by
  simp only [fillLot]
  split_ifs with hless hmore
  · simp [not_le.mpr hless]
  · simp [hmore.le]
  · simp [not_lt.mp hless]

theorem fillLot_isBuyTrxHistFilled :
    (fillLot opts sale price trade lot).2.isBuyTrxHistFilled =
      (lot.isBuyTrxHistFilled ||
        decide (lot.boughtAmount - lot.buyFilledAmount ≤
          sale.amount - trade.saleFilledAmount)) := by
  simp only [fillLot]
  split_ifs with hless hmore
  · simp [hless.le]
  · simp [not_le.mpr hmore]
  · simp [not_lt.mp hmore]

theorem fillLot_isBuyTradesWithUnrealizedProfitForPrevPeriod :
    (fillLot opts sale price trade
        lot).2.isBuyTradesWithUnrealizedProfitForPrevPeriod =
      lot.isBuyTradesWithUnrealizedProfitForPrevPeriod := by
  simp only [fillLot]
  split_ifs <;> rfl

end FillLot

theorem LookUpCtx.hasInterrupted_of_never {ctx : LookUpCtx}
    (hctx : ctx.pollsLeft = none) : ctx.hasInterrupted = false := by
  simp [LookUpCtx.hasInterrupted, hctx]

theorem LookUpCtx.polled_of_never {ctx : LookUpCtx}
    (hctx : ctx.pollsLeft = none) : ctx.polled = ctx := by
  cases ctx
  simp only at hctx
  subst hctx
  rfl

/-- The lot is open, readable and of the asset on sale. -/
def lotTouches (lot : Trade) : Bool :=
  !lot.isBuyTrxHistFilled && lot.canBeLookedUp opts &&
    (lot.symbError? env).isNone && !lot.isNoLot env &&
    sale.asset == lot.boughtAsset env

/-- It is priced besides. -/
def lotMatches (lot : Trade) : Bool :=
  lotTouches env opts sale lot && (lot.buyPriceUsd opts).isSome

variable {env opts sale}
variable {ctx : LookUpCtx} {trade lot : Trade}

theorem asset_of_lotMatches (hmatch : lotMatches env opts sale lot = true) :
    sale.asset = lot.boughtAsset env ∧ lot.isNoLot env = false ∧
      (lot.buyPriceUsd opts).isSome = true := by
  simp only [lotMatches, lotTouches, Bool.and_eq_true, Bool.not_eq_true',
    beq_iff_eq] at hmatch
  exact ⟨hmatch.1.2, hmatch.1.1.2, hmatch.2⟩

/-- A lot with the marks that the scan leaves on it before it fills it. -/
def Trade.asLot (env : TaxEnv) (lot : Trade) : Trade :=
  { lot.withSymbs env with isBuyTrx := true }

/-- A sale that has noted a lot. -/
def Trade.noting (trade lot : Trade) : Trade :=
  { trade with
    buyTrxsForRealizedProfit :=
      trade.buyTrxsForRealizedProfit ++ [lot.mtsCreate] }

/-- A lot of the asset on sale is noted, and filled if it has a price. -/
theorem matchLot_of_touches (ctx : LookUpCtx) (trade : Trade)
    (htouch : lotTouches env opts sale lot = true) :
    matchLot env opts sale ctx trade lot =
      match lot.buyPriceUsd opts with
      | none =>
          { trade := { trade.noting lot with noPriceUsd := true }
            lots := lot.asLot env
            ctx := ctx.setDelisted (lot.boughtAsset env) }
      | some price =>
          { trade := (fillLot opts sale price (trade.noting lot)
              (lot.asLot env)).1
            lots := (fillLot opts sale price (trade.noting lot)
              (lot.asLot env)).2
            ctx } := by
  simp only [lotTouches, Bool.and_eq_true, Bool.not_eq_true',
    Option.isNone_iff_eq_none, beq_iff_eq] at htouch
  obtain ⟨⟨⟨⟨hopen, hcan⟩, hsymb⟩, hlot⟩, hasset⟩ := htouch
  simp only [matchLot, hopen, hcan, hsymb, hlot, Bool.not_true, Bool.or_self,
    Bool.false_eq_true, ↓reduceIte]
  have hasset' : sale.asset =
      (lot.toTrx.withSymbs env).boughtAsset env := by
    rw [hasset, boughtAsset_withSymbs]
  simp only [Trade.withSymbs, hasset', buyPriceUsd_withSymbs,
    boughtAsset_withSymbs, ne_eq, not_true_eq_false, ↓reduceIte]
  rfl

/-- Any other lot is at most marked, and the sale is not changed. -/
theorem matchLot_of_not_touches (ctx : LookUpCtx) (trade : Trade)
    (htouch : lotTouches env opts sale lot = false) :
    ∃ (trx : Trx) (isBuyTrx : Bool),
      (matchLot env opts sale ctx trade lot).trade = trade ∧
      (matchLot env opts sale ctx trade lot).lots =
        { lot with toTrx := trx, isBuyTrx := isBuyTrx } ∧
      (matchLot env opts sale ctx trade lot).ctx = ctx ∧
      SameTrx env lot.toTrx trx := by
  simp only [matchLot]
  split
  · exact ⟨_, _, rfl, rfl, rfl, SameTrx.refl _⟩
  next hguard =>
    split
    · exact ⟨_, _, rfl, rfl, rfl, sameTrx_withSymbs _ _⟩
    next hsymb =>
      split
      · exact ⟨_, _, rfl, rfl, rfl, sameTrx_withSymbs _ _⟩
      next hlot =>
        split
        · exact ⟨_, _, rfl, rfl, rfl, sameTrx_withSymbs _ _⟩
        next hasset =>
          exfalso
          simp only [Trade.withSymbs, boughtAsset_withSymbs, not_not] at hasset
          simp_all [lotTouches]

/-- A matching lot is filled. -/
theorem matchLot_of_matches (ctx : LookUpCtx) (trade : Trade)
    (hmatch : lotMatches env opts sale lot = true) :
    ∃ price, lot.buyPriceUsd opts = some price ∧
      matchLot env opts sale ctx trade lot =
        { trade := (fillLot opts sale price (trade.noting lot)
            (lot.asLot env)).1
          lots := (fillLot opts sale price (trade.noting lot)
            (lot.asLot env)).2
          ctx } := by
  simp only [lotMatches, Bool.and_eq_true, Option.isSome_iff_exists] at hmatch
  obtain ⟨htouch, price, hprice⟩ := hmatch
  exact ⟨price, hprice, by rw [matchLot_of_touches ctx trade htouch, hprice]⟩

/-- Any other lot keeps its amounts and leaves those of the sale. -/
theorem matchLot_of_not_matches (ctx : LookUpCtx) (trade : Trade)
    (hmatch : lotMatches env opts sale lot = false) :
    ∃ (lots : List ℕ) (noPriceUsd : Bool) (trx : Trx) (isBuyTrx : Bool),
      (matchLot env opts sale ctx trade lot).trade = { trade with
        buyTrxsForRealizedProfit := lots, noPriceUsd := noPriceUsd } ∧
      (matchLot env opts sale ctx trade lot).lots =
        { lot with toTrx := trx, isBuyTrx := isBuyTrx } ∧
      SameTrx env lot.toTrx trx := by
  cases htouch : lotTouches env opts sale lot with
  | false =>
      obtain ⟨trx, isBuyTrx, htrade, hlot, -, htrx⟩ :=
        matchLot_of_not_touches ctx trade htouch
      exact ⟨_, _, trx, isBuyTrx, htrade, hlot, htrx⟩
  | true =>
      have hprice : lot.buyPriceUsd opts = none := by
        simpa [lotMatches, htouch] using hmatch
      rw [matchLot_of_touches ctx trade htouch, hprice]
      exact ⟨_, _, _, _, rfl, rfl, sameTrx_withSymbs _ _⟩

/-- A lot is consumed within its amount, and flagged only when used up. -/
structure LotBound (lot : Trade) : Prop where
  nonneg : 0 ≤ lot.buyFilledAmount
  le : lot.buyFilledAmount ≤ lot.boughtAmount
  full : lot.isBuyTrxHistFilled = true →
    lot.buyFilledAmount = lot.boughtAmount

/-- A sale of `amount` is covered within it, and flagged only when covered. -/
structure SaleBound (amount : ℚ) (trade : Trade) : Prop where
  nonneg : 0 ≤ trade.saleFilledAmount
  le : trade.saleFilledAmount ≤ amount
  full : trade.isSaleTrxHistFilled = true → trade.saleFilledAmount = amount

theorem fillQty_nonneg (hsale : SaleBound sale.amount trade)
    (hlot : LotBound lot) : 0 ≤ fillQty sale trade lot :=
  le_min (sub_nonneg.mpr hlot.le) (sub_nonneg.mpr hsale.le)

/-- What a sale of `asset` may do to a lot: only the consumed quantity grows,
and only on a priced lot of that asset. -/
structure Drawn (env : TaxEnv) (opts : LookUpOpts) (asset : String)
    (lot lot' : Trade) : Prop where
  trx : SameTrx env lot.toTrx lot'.toTrx
  saleBook : lot'.toSaleBook = lot.toSaleBook
  flag : lot'.isBuyTradesWithUnrealizedProfitForPrevPeriod =
    lot.isBuyTradesWithUnrealizedProfitForPrevPeriod
  mono : lot.buyFilledAmount ≤ lot'.buyFilledAmount
  kept : ¬ (asset = lot.boughtAsset env ∧ lot.isNoLot env = false ∧
      (lot.buyPriceUsd opts).isSome = true) →
    lot'.buyFilledAmount = lot.buyFilledAmount ∧
      lot'.isBuyTrxHistFilled = lot.isBuyTrxHistFilled
  bound : LotBound lot'

theorem Drawn.refl {asset : String} (hlot : LotBound lot) :
    Drawn env opts asset lot lot :=
  ⟨SameTrx.refl _, rfl, rfl, le_rfl, fun _ => ⟨rfl, rfl⟩, hlot⟩

/-- The consumed part of a lot at the lot's price, 0 when it has none. -/
def lotCostUsd (opts : LookUpOpts) (lot : Trade) : ℚ :=
  lot.buyFilledAmount * (lot.buyPriceUsd opts).getD 0

/-- A sale has been taken from `trade, lots` to `trade', lots'`: what it gained
is what the lots lost, in quantity and in cost. -/
structure Scanned (env : TaxEnv) (opts : LookUpOpts) (sale : Sale)
    (trade : Trade) (lots : List Trade) (trade' : Trade)
    (lots' : List Trade) : Prop where
  trx : trade'.toTrx = trade.toTrx
  buyBook : trade'.toBuyBook = trade.toBuyBook
  isSaleTrx : trade'.isSaleTrx = trade.isSaleTrx
  drawn : List.Forall₂ (Drawn env opts sale.asset) lots lots'
  bound : SaleBound sale.amount trade'
  filled : trade'.saleFilledAmount - trade.saleFilledAmount =
    (lots'.map (·.buyFilledAmount)).sum - (lots.map (·.buyFilledAmount)).sum
  cost : trade'.costForSaleTrxUsd - trade.costForSaleTrxUsd =
    (lots'.map (lotCostUsd opts)).sum - (lots.map (lotCostUsd opts)).sum

theorem Scanned.refl {lots : List Trade}
    (hsale : SaleBound sale.amount trade)
    (hlots : ∀ lot ∈ lots, LotBound lot) :
    Scanned env opts sale trade lots trade lots where
  trx := rfl
  buyBook := rfl
  isSaleTrx := rfl
  drawn := List.forall₂_same.mpr fun lot hlot => Drawn.refl (hlots lot hlot)
  bound := hsale
  filled := by ring
  cost := by ring

theorem Scanned.cons {trade₁ trade₂ lot₁ : Trade} {rest rest₂ : List Trade}
    (hhead : Scanned env opts sale trade [lot] trade₁ [lot₁])
    (htail : Scanned env opts sale trade₁ rest trade₂ rest₂) :
    Scanned env opts sale trade (lot :: rest) trade₂ (lot₁ :: rest₂) where
  trx := htail.trx.trans hhead.trx
  buyBook := htail.buyBook.trans hhead.buyBook
  isSaleTrx := htail.isSaleTrx.trans hhead.isSaleTrx
  drawn := by
    have hdrawn := hhead.drawn
    simp only [List.forall₂_cons, List.forall₂_nil_left_iff, and_true]
      at hdrawn
    exact List.Forall₂.cons hdrawn htail.drawn
  bound := htail.bound
  filled := by
    have hfirst := hhead.filled
    have hrest := htail.filled
    simp only [List.map_cons, List.map_nil, List.sum_cons, List.sum_nil]
      at hfirst hrest ⊢
    linarith
  cost := by
    have hfirst := hhead.cost
    have hrest := htail.cost
    simp only [List.map_cons, List.map_nil, List.sum_cons, List.sum_nil]
      at hfirst hrest ⊢
    linarith

theorem fillLot_lotBound {price : ℚ} (hsale : SaleBound sale.amount trade)
    (hlot : LotBound lot) :
    LotBound (fillLot opts sale price trade lot).2 := by
  have hqty := fillQty_nonneg hsale hlot
  have hle : fillQty sale trade lot ≤
      lot.boughtAmount - lot.buyFilledAmount := min_le_left _ _
  have hamount : (fillLot opts sale price trade lot).2.boughtAmount =
      lot.boughtAmount := by
    rw [(fillLot_lot_frame opts sale price trade lot).1]
  refine ⟨?_, ?_, ?_⟩
  · rw [fillLot_buyFilledAmount]
    linarith [hlot.nonneg]
  · rw [fillLot_buyFilledAmount, hamount]
    linarith
  · rw [fillLot_isBuyTrxHistFilled, fillLot_buyFilledAmount, hamount,
      Bool.or_eq_true, decide_eq_true_eq]
    rintro (hfull | hrest)
    · have := hlot.full hfull
      linarith
    · rw [fillQty, min_eq_left hrest]
      ring

theorem fillLot_saleBound {price : ℚ} (hsale : SaleBound sale.amount trade)
    (hlot : LotBound lot) :
    SaleBound sale.amount (fillLot opts sale price trade lot).1 := by
  have hqty := fillQty_nonneg hsale hlot
  have hle : fillQty sale trade lot ≤
      sale.amount - trade.saleFilledAmount := min_le_right _ _
  refine ⟨?_, ?_, ?_⟩
  · rw [fillLot_saleFilledAmount]
    linarith [hsale.nonneg]
  · rw [fillLot_saleFilledAmount]
    linarith
  · rw [fillLot_isSaleTrxHistFilled, fillLot_saleFilledAmount,
      Bool.or_eq_true, decide_eq_true_eq]
    rintro (hfull | hrest)
    · have := hsale.full hfull
      linarith
    · rw [fillQty, min_eq_right hrest]
      ring

theorem fillLot_scanned (env : TaxEnv) (opts : LookUpOpts) (sale : Sale)
    (price : ℚ) (trade lot : Trade) (hsale : SaleBound sale.amount trade)
    (hlot : LotBound lot)
    (hasset : sale.asset = lot.boughtAsset env ∧ lot.isNoLot env = false)
    (hprice : lot.buyPriceUsd opts = some price) :
    Scanned env opts sale trade [lot]
      (fillLot opts sale price trade lot).1
      [(fillLot opts sale price trade lot).2] := by
  have hqty := fillQty_nonneg hsale hlot
  obtain ⟨htrx, hbook⟩ := fillLot_lot_frame opts sale price trade lot
  refine ⟨(fillLot_sale_frame opts sale price trade lot).1,
    (fillLot_sale_frame opts sale price trade lot).2, ?_, ?_,
    fillLot_saleBound hsale hlot, ?_, ?_⟩
  · simp only [fillLot]
    split_ifs <;> rfl
  · refine List.Forall₂.cons ⟨?_, hbook,
      fillLot_isBuyTradesWithUnrealizedProfitForPrevPeriod opts sale price
        trade lot, ?_,
      fun hno => absurd ⟨hasset.1, hasset.2, by simp [hprice]⟩ hno,
      fillLot_lotBound hsale hlot⟩ .nil
    · rw [htrx]
      exact SameTrx.refl _
    · rw [fillLot_buyFilledAmount]
      linarith
  · simp only [List.map_cons, List.map_nil, List.sum_cons, List.sum_nil]
    rw [fillLot_saleFilledAmount, fillLot_buyFilledAmount]
    ring
  · simp only [List.map_cons, List.map_nil, List.sum_cons, List.sum_nil,
      lotCostUsd]
    rw [fillLot_costForSaleTrxUsd, fillLot_buyFilledAmount, htrx, hprice]
    simp only [Option.getD_some]
    ring

/-- The step lemma of the inner loop. -/
theorem matchLot_scanned (env : TaxEnv) (opts : LookUpOpts)
    (ctx : LookUpCtx) (hsale : SaleBound sale.amount trade)
    (hlot : LotBound lot) :
    Scanned env opts sale trade [lot]
      (matchLot env opts sale ctx trade lot).trade
      [(matchLot env opts sale ctx trade lot).lots] := by
  cases hmatch : lotMatches env opts sale lot with
  | false =>
      obtain ⟨lots, noPriceUsd, trx, isBuyTrx, htrade, hlot', htrx⟩ :=
        matchLot_of_not_matches ctx trade hmatch
      have hamount : lot.boughtAmount = trx.boughtAmount :=
        htrx.congr Trx.boughtAmount (boughtAmount_withSymbs env)
      have hprice : lot.buyPriceUsd opts = trx.buyPriceUsd opts :=
        htrx.congr (Trx.buyPriceUsd opts) (buyPriceUsd_withSymbs env opts)
      rw [htrade, hlot']
      refine ⟨rfl, rfl, rfl, ?_, ⟨hsale.nonneg, hsale.le, hsale.full⟩,
        by simp, by simp [lotCostUsd, hprice]⟩
      refine List.Forall₂.cons ⟨htrx, rfl, rfl, le_rfl, fun _ => ⟨rfl, rfl⟩,
        ?_⟩ .nil
      exact ⟨hlot.nonneg, hamount ▸ hlot.le, fun h => hamount ▸ hlot.full h⟩
  | true =>
      obtain ⟨price, hprice, hfill⟩ :=
        matchLot_of_matches ctx trade hmatch
      have hscan := fillLot_scanned env opts sale price
        (trade.noting lot) (lot.asLot env)
        ⟨hsale.nonneg, hsale.le, hsale.full⟩ ⟨hlot.nonneg, hlot.le, hlot.full⟩
        (by simpa [Trade.asLot, Trade.withSymbs] using
          (asset_of_lotMatches hmatch).imp_right And.left)
        (by simpa [Trade.asLot, Trade.withSymbs] using hprice)
      rw [hfill]
      refine ⟨hscan.trx, hscan.buyBook, hscan.isSaleTrx, ?_, hscan.bound,
        hscan.filled, hscan.cost⟩
      have hdrawn := hscan.drawn
      simp only [List.forall₂_cons, List.forall₂_nil_left_iff, and_true]
        at hdrawn
      exact List.Forall₂.cons ⟨(sameTrx_withSymbs _ _).trans hdrawn.trx,
        hdrawn.saleBook, hdrawn.flag, hdrawn.mono,
        fun hno => absurd (asset_of_lotMatches hmatch) hno, hdrawn.bound⟩ .nil

/-- A whole scan, however it is left. -/
theorem lookUpLots_scanned (env : TaxEnv) (opts : LookUpOpts)
    (ctx : LookUpCtx) (lots : List Trade) (hsale : SaleBound sale.amount trade)
    (hlots : ∀ lot ∈ lots, LotBound lot) :
    Scanned env opts sale trade lots
      (lookUpLots env opts sale ctx trade lots).trade
      (lookUpLots env opts sale ctx trade lots).lots := by
  induction lots generalizing ctx trade with
  | nil => exact Scanned.refl hsale (by simp)
  | cons lot rest ih =>
      have hrest : ∀ lot ∈ rest, LotBound lot :=
        fun lot hmem => hlots lot (List.mem_cons_of_mem _ hmem)
      have hhead := matchLot_scanned env opts ctx.polled hsale
        (hlots lot List.mem_cons_self)
      simp only [lookUpLots]
      split
      · exact Scanned.refl hsale hlots
      split
      · exact Scanned.refl hsale hlots
      split
      · exact hhead.cons (ih _ hhead.bound hrest)
      · exact hhead.cons (Scanned.refl hhead.bound hrest)

/-- A trade as the sale loop enters it. -/
def Trade.asSale (env : TaxEnv) (trade : Trade) : Trade :=
  { trade.withSymbs env with
    isSaleTrx := trade.sells env, isBuyTrx := trade.buys env }

def Trade.unpriced (trade : Trade) : Trade :=
  { trade with noPriceUsd := true }

def Trade.charged (trade : Trade) (fee : ℚ) : Trade :=
  { trade with cumulativeTrxFeesUsd := fee }

/-- All that the head of the sale loop can do. -/
theorem openSale_eq (env : TaxEnv) (opts : LookUpOpts) (ctx : LookUpCtx)
    (trade : Trade) :
    openSale env opts ctx trade =
      if !trade.canBeLookedUp opts then (trade, ctx, .skipped)
      else if !trade.sells env ||
          trade.isBuyTradesWithUnrealizedProfitForPrevPeriod then
        (trade.asSale env, ctx, .skipped)
      else match trade.symbError? env with
        | some err => (trade.asSale env, ctx, .thrown err)
        | none => match trade.salePriceUsd opts with
          | none => ((trade.asSale env).unpriced,
              ctx.setDelisted (trade.soldAsset env), .skipped)
          | some priceUsd => ((trade.asSale env).charged
              (getTrxFeeUsd opts false (trade.toTrx.withSymbs env)), ctx,
              .opened ⟨trade.soldAsset env, trade.soldAmount, priceUsd⟩) := by
  simp only [openSale, Trade.withSymbs, symbError?_withSymbs,
    salePriceUsd_withSymbs, soldAsset_withSymbs, soldAmount_withSymbs]
  rfl

theorem openSale_frame (env : TaxEnv) (opts : LookUpOpts) (ctx : LookUpCtx)
    (trade : Trade) :
    SameTrx env trade.toTrx (openSale env opts ctx trade).1.toTrx ∧
      (openSale env opts ctx trade).1.saleFilledAmount =
        trade.saleFilledAmount ∧
      (openSale env opts ctx trade).1.costForSaleTrxUsd =
        trade.costForSaleTrxUsd ∧
      (openSale env opts ctx trade).1.isSaleTrxHistFilled =
        trade.isSaleTrxHistFilled ∧
      ∃ isBuyTrx, (openSale env opts ctx trade).1.toBuyBook =
        { trade.toBuyBook with isBuyTrx := isBuyTrx } := by
  have hsymbs := sameTrx_withSymbs env trade.toTrx
  rw [openSale_eq]
  split
  · exact ⟨SameTrx.refl _, rfl, rfl, rfl, trade.isBuyTrx, rfl⟩
  split
  · exact ⟨hsymbs, rfl, rfl, rfl, trade.buys env, rfl⟩
  split
  · exact ⟨hsymbs, rfl, rfl, rfl, trade.buys env, rfl⟩
  split
  · exact ⟨hsymbs, rfl, rfl, rfl, trade.buys env, rfl⟩
  · exact ⟨hsymbs, rfl, rfl, rfl, trade.buys env, rfl⟩

/-- Lots are looked up only for a sale, with the constants of that trade. -/
theorem openSale_opened (hopen : (openSale env opts ctx trade).2.2 =
    .opened sale) :
    trade.canBeLookedUp opts = true ∧ trade.sells env = true ∧
      trade.isBuyTradesWithUnrealizedProfitForPrevPeriod = false ∧
      sale.asset = trade.soldAsset env ∧ sale.amount = trade.soldAmount ∧
      trade.salePriceUsd opts = some sale.priceUsd := by
  rw [openSale_eq] at hopen
  split at hopen
  · simp at hopen
  next hcan =>
    split at hopen
    · simp at hopen
    next hsells =>
      split at hopen
      · simp at hopen
      split at hopen
      · simp at hopen
      next priceUsd hprice =>
        injection hopen with hopen
        subst hopen
        simp_all

/-- A trade has been taken through its turn of the sale loop. -/
structure SaleScanned (env : TaxEnv) (opts : LookUpOpts) (trade : Trade)
    (older : List Trade) (trade' : Trade) (older' : List Trade) : Prop where
  trx : SameTrx env trade.toTrx trade'.toTrx
  buyBook : ∃ isBuyTrx,
    trade'.toBuyBook = { trade.toBuyBook with isBuyTrx := isBuyTrx }
  drawn : List.Forall₂ (Drawn env opts (trade.soldAsset env)) older older'
  bound : SaleBound trade.soldAmount trade'
  filled : trade'.saleFilledAmount - trade.saleFilledAmount =
    (older'.map (·.buyFilledAmount)).sum -
      (older.map (·.buyFilledAmount)).sum
  cost : trade'.costForSaleTrxUsd - trade.costForSaleTrxUsd =
    (older'.map (lotCostUsd opts)).sum - (older.map (lotCostUsd opts)).sum
  sells : trade.sells env = false → older' = older

theorem buyLookUpOrder_involutive (lots : List Trade) :
    buyLookUpOrder opts (buyLookUpOrder opts lots) = lots := by
  unfold buyLookUpOrder
  split <;> simp

theorem mem_buyLookUpOrder {lots : List Trade} :
    lot ∈ buyLookUpOrder opts lots ↔ lot ∈ lots := by
  unfold buyLookUpOrder
  split <;> simp

theorem sum_buyLookUpOrder (lots : List Trade) (read : Trade → ℚ) :
    ((buyLookUpOrder opts lots).map read).sum = (lots.map read).sum := by
  unfold buyLookUpOrder
  split <;> simp [List.sum_reverse]

theorem forall₂_buyLookUpOrder {R : Trade → Trade → Prop}
    {left right : List Trade}
    (h : List.Forall₂ R (buyLookUpOrder opts left) right) :
    List.Forall₂ R left (buyLookUpOrder opts right) := by
  unfold buyLookUpOrder at h ⊢
  split at h
  next hback =>
    simp only [hback, ↓reduceIte]
    have hrev := List.rel_reverse h
    rwa [List.reverse_reverse] at hrev
  next hforth => simpa only [hforth, Bool.false_eq_true, ↓reduceIte] using h

/-- The step lemma of the sale loop, however the turn is left. -/
theorem lookUpSale_scanned (env : TaxEnv) (opts : LookUpOpts)
    (ctx : LookUpCtx) {older : List Trade}
    (hsale : SaleBound trade.soldAmount trade)
    (holder : ∀ lot ∈ older, LotBound lot) :
    SaleScanned env opts trade older
      (lookUpSale env opts ctx trade older).trade
      (lookUpSale env opts ctx trade older).lots := by
  have hidle : List.Forall₂ (Drawn env opts (trade.soldAsset env)) older older :=
    List.forall₂_same.mpr fun lot hmem => Drawn.refl (holder lot hmem)
  obtain ⟨htrx, hfilled, hcost, hhist, hbook⟩ :=
    openSale_frame env opts ctx.polled trade
  have hopened : ∀ sale, (openSale env opts ctx.polled trade).2.2 =
      .opened sale → _ := fun _ => openSale_opened
  simp only [lookUpSale]
  split
  · exact ⟨SameTrx.refl _, ⟨trade.isBuyTrx, rfl⟩, hidle, hsale, by ring,
      by ring, fun _ => rfl⟩
  generalize openSale env opts ctx.polled trade = opened at *
  obtain ⟨trade₁, ctx₁, opening⟩ := opened
  simp only at htrx hfilled hcost hhist hbook hopened
  have hsale₁ : SaleBound trade.soldAmount trade₁ :=
    ⟨hfilled ▸ hsale.nonneg, hfilled ▸ hsale.le,
      fun h => hfilled ▸ hsale.full (hhist ▸ h)⟩
  cases opening with
  | skipped =>
      exact ⟨htrx, hbook, hidle, hsale₁, by simp [hfilled], by simp [hcost],
        fun _ => rfl⟩
  | thrown err =>
      exact ⟨htrx, hbook, hidle, hsale₁, by simp [hfilled], by simp [hcost],
        fun _ => rfl⟩
  | opened sale =>
      obtain ⟨-, hsells, -, hasset, hamount, -⟩ := hopened sale rfl
      have hsale₂ : SaleBound sale.amount trade₁ := hamount ▸ hsale₁
      have hscan := lookUpLots_scanned env opts ctx₁
        (buyLookUpOrder opts older) hsale₂
        fun lot hmem => holder lot (mem_buyLookUpOrder.mp hmem)
      simp only
      generalize lookUpLots env opts sale ctx₁ trade₁
        (buyLookUpOrder opts older) = scan at hscan ⊢
      have hclosed : ∃ trade₂,
          (if scan.exit = .completed then closeSale sale scan.trade
            else scan.trade) = trade₂ ∧
          trade₂.toTrx = scan.trade.toTrx ∧
          trade₂.toBuyBook = scan.trade.toBuyBook ∧
          trade₂.saleFilledAmount = scan.trade.saleFilledAmount ∧
          trade₂.costForSaleTrxUsd = scan.trade.costForSaleTrxUsd ∧
          trade₂.isSaleTrxHistFilled = scan.trade.isSaleTrxHistFilled := by
        refine ⟨_, rfl, ?_⟩
        split <;> exact ⟨rfl, rfl, rfl, rfl, rfl⟩
      obtain ⟨trade₂, heq, htrx₂, hbook₂, hfilled₂, hcost₂, hhist₂⟩ := hclosed
      rw [heq]
      refine ⟨?_, ?_, ?_, ?_, ?_, ?_, ?_⟩
      · rw [htrx₂, hscan.trx]
        exact htrx
      · rw [hbook₂, hscan.buyBook]
        exact hbook
      · rw [← hasset]
        exact forall₂_buyLookUpOrder hscan.drawn
      · rw [← hamount]
        exact ⟨hfilled₂ ▸ hscan.bound.nonneg, hfilled₂ ▸ hscan.bound.le,
          fun h => hfilled₂ ▸ hscan.bound.full (hhist₂ ▸ h)⟩
      · rw [hfilled₂, ← hfilled, hscan.filled, sum_buyLookUpOrder,
          sum_buyLookUpOrder]
      · rw [hcost₂, ← hcost, hscan.cost, sum_buyLookUpOrder,
          sum_buyLookUpOrder]
      · intro hno
        rw [hno] at hsells
        exact absurd hsells Bool.false_ne_true

end ReportsFramework
