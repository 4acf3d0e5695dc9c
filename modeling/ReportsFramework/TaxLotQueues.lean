/-
The array of `lookUpTrades` read as queues of lots: a turn of the sale loop
that looks lots up from the oldest on draws the sale from the front of its
asset's queue.
-/
import ReportsFramework.LookUpSpec
import ReportsFramework.LotQueue

namespace ReportsFramework

open Trx LotQueue

/-- A lot of the tax report is known by its transaction. -/
abbrev TaxLot := Lot Trx ℚ

/-- A transaction that a look-up passes through to the end: its guard holds,
its pair separates, its currencies are priced, its amounts are positive. -/
structure Trx.Ready (env : TaxEnv) (opts : LookUpOpts) (trx : Trx) :
    Prop where
  can : trx.canBeLookedUp opts = true
  symbs : trx.symbError? env = none
  salePrice : (trx.salePriceUsd opts).isSome = true
  buyPrice : (trx.buyPriceUsd opts).isSome = true
  sold_pos : trx.sells env = true → 0 < trx.soldAmount
  bought_pos : trx.isNoLot env = false → 0 < trx.boughtAmount

/-- The USD price of what the transaction of a lot bought. -/
def lotPriceUsd (opts : LookUpOpts) (trx : Trx) : ℚ :=
  (trx.buyPriceUsd opts).getD 0

/-- What is left of a trade as a lot of an asset. -/
def openLot? (env : TaxEnv) (asset : String) (lot : Trade) : Option TaxLot :=
  if !lot.isBuyTrxHistFilled && !lot.isNoLot env &&
      lot.boughtAsset env == asset then
    some ⟨lot.toTrx.withSymbs env, lot.boughtAmount - lot.buyFilledAmount⟩
  else none

/-- A lot is flagged exactly when nothing is left of it. -/
structure ReadyLot (env : TaxEnv) (opts : LookUpOpts) (lot : Trade) :
    Prop where
  trx : lot.toTrx.Ready env opts
  filled : lot.isNoLot env = false →
    (lot.isBuyTrxHistFilled = true ↔ lot.boughtAmount ≤ lot.buyFilledAmount)

variable {env : TaxEnv} {opts : LookUpOpts} {sale : Sale} {ctx : LookUpCtx}
variable {trade lot : Trade}

theorem Trx.Ready.of_sameTrx {left right : Trx} (h : left.Ready env opts)
    (hsame : SameTrx env left right) : right.Ready env opts where
  can := by
    rw [← hsame.congr (canBeLookedUp opts) (canBeLookedUp_withSymbs env opts)]
    exact h.can
  symbs := by
    rw [← hsame.congr (symbError? env) (symbError?_withSymbs env)]
    exact h.symbs
  salePrice := by
    rw [← hsame.congr (salePriceUsd opts) (salePriceUsd_withSymbs env opts)]
    exact h.salePrice
  buyPrice := by
    rw [← hsame.congr (buyPriceUsd opts) (buyPriceUsd_withSymbs env opts)]
    exact h.buyPrice
  sold_pos := by
    rw [← hsame.congr (sells env) (sells_withSymbs env),
      ← hsame.congr soldAmount (soldAmount_withSymbs env)]
    exact h.sold_pos
  bought_pos := by
    rw [← hsame.congr (isNoLot env) (isNoLot_withSymbs env),
      ← hsame.congr boughtAmount (boughtAmount_withSymbs env)]
    exact h.bought_pos

/-- The open lot of a trade is fixed by its transaction up to the symbols
written back, its consumed quantity and its flag. -/
theorem openLot?_congr {lot lot' : Trade} (asset : String)
    (htrx : SameTrx env lot.toTrx lot'.toTrx)
    (hfilled : lot'.buyFilledAmount = lot.buyFilledAmount)
    (hhist : lot'.isBuyTrxHistFilled = lot.isBuyTrxHistFilled) :
    openLot? env asset lot' = openLot? env asset lot := by
  unfold openLot?
  rw [hfilled, hhist,
    ← htrx.congr (isNoLot env) (isNoLot_withSymbs env),
    ← htrx.congr (boughtAsset env) (boughtAsset_withSymbs env),
    ← htrx.congr boughtAmount (boughtAmount_withSymbs env), htrx]

/-- What a sale of the queue leaves alone on a lot. -/
structure SameLot (env : TaxEnv) (lot lot' : Trade) : Prop where
  trx : SameTrx env lot.toTrx lot'.toTrx
  named : lot.toTrx.withSymbs env = lot.toTrx → lot'.toTrx = lot.toTrx
  saleBook : lot'.toSaleBook = lot.toSaleBook
  flag : lot'.isBuyTradesWithUnrealizedProfitForPrevPeriod =
    lot.isBuyTradesWithUnrealizedProfitForPrevPeriod
  isBuyTrx : lot.isBuyTrx = true → lot'.isBuyTrx = true

theorem SameLot.refl (lot : Trade) : SameLot env lot lot :=
  ⟨SameTrx.refl _, fun _ => rfl, rfl, rfl, id⟩

theorem SameLot.trans {lot₁ lot₂ lot₃ : Trade} (h : SameLot env lot₁ lot₂)
    (h' : SameLot env lot₂ lot₃) : SameLot env lot₁ lot₃ :=
  ⟨h.trx.trans h'.trx,
    fun hnamed => (h'.named (h.named hnamed ▸ hnamed)).trans (h.named hnamed),
    h'.saleBook.trans h.saleBook,
    h'.flag.trans h.flag, h'.isBuyTrx ∘ h.isBuyTrx⟩

/-- The sale after it has taken `pieces`. -/
structure Takes (opts : LookUpOpts) (trade : Trade) (pieces : List TaxLot)
    (trade' : Trade) : Prop where
  trx : trade'.toTrx = trade.toTrx
  buyBook : trade'.toBuyBook = trade.toBuyBook
  isSaleTrx : trade'.isSaleTrx = trade.isSaleTrx
  noPriceUsd : trade'.noPriceUsd = trade.noPriceUsd
  fees : trade'.cumulativeTrxFeesUsd = trade.cumulativeTrxFeesUsd
  cost : trade'.costForSaleTrxUsd =
    trade.costForSaleTrxUsd + value (lotPriceUsd opts) pieces
  lots : trade'.buyTrxsForRealizedProfit =
    trade.buyTrxsForRealizedProfit ++ pieces.map (·.tag.mtsCreate)

theorem Takes.nil (trade : Trade) : Takes opts trade [] trade where
  trx := rfl
  buyBook := rfl
  isSaleTrx := rfl
  noPriceUsd := rfl
  fees := rfl
  cost := by simp [value]
  lots := by simp

theorem Takes.cons {trade₁ trade₂ : Trade} {piece : TaxLot}
    {pieces : List TaxLot} (hhead : Takes opts trade [piece] trade₁)
    (htail : Takes opts trade₁ pieces trade₂) :
    Takes opts trade (piece :: pieces) trade₂ where
  trx := htail.trx.trans hhead.trx
  buyBook := htail.buyBook.trans hhead.buyBook
  isSaleTrx := htail.isSaleTrx.trans hhead.isSaleTrx
  noPriceUsd := htail.noPriceUsd.trans hhead.noPriceUsd
  fees := htail.fees.trans hhead.fees
  cost := by
    rw [htail.cost, hhead.cost]
    simp [value, add_assoc]
  lots := by
    rw [htail.lots, hhead.lots]
    simp

/-- The sale has been drawn from the queue of its asset, and the other queues
are as they were. -/
structure Draws (env : TaxEnv) (opts : LookUpOpts) (sale : Sale)
    (trade : Trade) (lots : List Trade) (trade' : Trade)
    (lots' : List Trade) : Prop where
  same : List.Forall₂ (SameLot env) lots lots'
  ready : ∀ lot' ∈ lots', ReadyLot env opts lot'
  takes : Takes opts trade (draw (sale.amount - trade.saleFilledAmount)
    (lots.filterMap (openLot? env sale.asset))).1 trade'
  queue : lots'.filterMap (openLot? env sale.asset) =
    (draw (sale.amount - trade.saleFilledAmount)
      (lots.filterMap (openLot? env sale.asset))).2
  others : ∀ asset, asset ≠ sale.asset →
    lots'.filterMap (openLot? env asset) = lots.filterMap (openLot? env asset)

theorem ReadyLot.congr {lot' : Trade} (h : ReadyLot env opts lot)
    (htrx : SameTrx env lot.toTrx lot'.toTrx)
    (hfilled : lot'.buyFilledAmount = lot.buyFilledAmount)
    (hhist : lot'.isBuyTrxHistFilled = lot.isBuyTrxHistFilled) :
    ReadyLot env opts lot' := by
  refine ⟨h.trx.of_sameTrx htrx, ?_⟩
  rw [hfilled, hhist, ← htrx.congr (isNoLot env) (isNoLot_withSymbs env),
    ← htrx.congr boughtAmount (boughtAmount_withSymbs env)]
  exact h.filled

theorem asLot_sameLot (env : TaxEnv) (lot : Trade) :
    SameLot env lot (lot.asLot env) :=
  ⟨sameTrx_withSymbs env lot.toTrx, id, rfl, rfl, fun _ => rfl⟩

theorem openLot?_asLot (asset : String) :
    openLot? env asset (lot.asLot env) = openLot? env asset lot :=
  openLot?_congr asset (sameTrx_withSymbs env lot.toTrx) rfl rfl

/-- A lot of another asset, or one used up, is passed over. -/
theorem matchLot_of_closed (ctx : LookUpCtx) (trade : Trade)
    (hlot : ReadyLot env opts lot)
    (hclosed : openLot? env sale.asset lot = none) :
    ∃ lot', matchLot env opts sale ctx trade lot =
        { trade, lots := lot', ctx } ∧
      SameLot env lot lot' ∧ ReadyLot env opts lot' ∧
      ∀ asset, openLot? env asset lot' = openLot? env asset lot := by
  have hsymbs := sameTrx_withSymbs env lot.toTrx
  simp only [matchLot, hlot.trx.can, hlot.trx.symbs, Bool.not_true,
    Bool.or_false]
  split
  · exact ⟨lot, rfl, SameLot.refl lot, hlot, fun _ => rfl⟩
  next hopen =>
    split
    · exact ⟨_, rfl, ⟨hsymbs, id, rfl, rfl, id⟩, hlot.congr hsymbs rfl rfl,
        fun asset => openLot?_congr asset hsymbs rfl rfl⟩
    next hno =>
      split
      · exact ⟨lot.asLot env, rfl, asLot_sameLot env lot,
          hlot.congr hsymbs rfl rfl, fun asset => openLot?_asLot asset⟩
      next hasset =>
        exfalso
        simp only [Trade.withSymbs, boughtAsset_withSymbs, ne_eq, not_not]
          at hasset
        simp [openLot?, hopen, hno, hasset] at hclosed

theorem fillLot_takes (env : TaxEnv) (sale : Sale) (trade lot : Trade) (price : ℚ)
    (hfees : opts.shouldFeesBeDeducted = false)
    (hprice : lotPriceUsd opts (lot.toTrx.withSymbs env) = price) :
    Takes opts trade
      [⟨lot.toTrx.withSymbs env, fillQty sale trade lot⟩]
      (fillLot opts sale price
        { trade with buyTrxsForRealizedProfit :=
            trade.buyTrxsForRealizedProfit ++ [lot.mtsCreate] } lot).1 := by
  have hfee := getTrxFeeUsd_of_not_deducted hfees false lot.toTrx
  have hrow := fillLot_costForSaleTrxUsd opts sale price
    { trade with buyTrxsForRealizedProfit :=
        trade.buyTrxsForRealizedProfit ++ [lot.mtsCreate] } lot
  refine ⟨?_, ?_, ?_, ?_, ?_, ?_, ?_⟩
  · rw [(fillLot_sale_frame opts sale price _ lot).1]
  · rw [(fillLot_sale_frame opts sale price _ lot).2]
  · simp only [fillLot]
    split_ifs <;> rfl
  · simp only [fillLot]
    split_ifs <;> rfl
  · simp only [fillLot, hfee]
    split_ifs <;> simp
  · rw [hrow]
    simp [value, hprice, fillQty]
  · simp only [fillLot]
    split_ifs <;> rfl

theorem openLot?_eq_some {asset : String} {rest : TaxLot} :
    openLot? env asset lot = some rest ↔
      lot.isBuyTrxHistFilled = false ∧ lot.isNoLot env = false ∧
        lot.boughtAsset env = asset ∧
        rest = ⟨lot.toTrx.withSymbs env,
          lot.boughtAmount - lot.buyFilledAmount⟩ := by
  unfold openLot?
  split
  next hopen =>
    simp only [Bool.and_eq_true, Bool.not_eq_true', beq_iff_eq] at hopen
    obtain ⟨⟨hhist, hno⟩, hasset⟩ := hopen
    simp only [Option.some.injEq, hhist, hno, hasset, true_and, eq_comm]
  next hclosed =>
    simp only [Bool.and_eq_true, Bool.not_eq_true', beq_iff_eq] at hclosed
    simp only [reduceCtorEq, false_iff]
    rintro ⟨hhist, hno, hasset, -⟩
    exact hclosed ⟨⟨hhist, hno⟩, hasset⟩

/-- An open lot of the asset on sale is one the inner loop fills. -/
theorem lotMatches_of_open (hlot : ReadyLot env opts lot) {rest : TaxLot}
    (hopen : openLot? env sale.asset lot = some rest) :
    lotMatches env opts sale lot = true := by
  obtain ⟨hhist, hno, hasset, -⟩ := openLot?_eq_some.mp hopen
  simp [lotMatches, lotTouches, hhist, hno, hasset, hlot.trx.can, hlot.trx.symbs,
    hlot.trx.buyPrice]

theorem fillLot_sameLot (env : TaxEnv) (opts : LookUpOpts) (sale : Sale)
    (price : ℚ) (trade lot : Trade) :
    SameLot env lot (fillLot opts sale price trade lot).2 := by
  obtain ⟨htrx, hbook⟩ := fillLot_lot_frame opts sale price trade lot
  refine ⟨?_, fun _ => htrx, hbook, fillLot_isBuyTradesWithUnrealizedProfitForPrevPeriod
    opts sale price trade lot, ?_⟩
  · rw [htrx]
    exact SameTrx.refl _
  · simp only [fillLot]
    split_ifs <;> exact id

theorem fillLot_readyLot (hlot : ReadyLot env opts lot)
    (hhist : lot.isBuyTrxHistFilled = false) (price : ℚ) :
    ReadyLot env opts (fillLot opts sale price trade lot).2 := by
  refine ⟨hlot.trx.of_sameTrx (fillLot_sameLot env opts sale price trade lot).trx, fun _ => ?_⟩
  rw [(fillLot_lot_frame opts sale price trade lot).1,
    fillLot_isBuyTrxHistFilled, fillLot_buyFilledAmount, hhist,
    Bool.false_or, decide_eq_true_eq, fillQty]
  rcases le_total (lot.boughtAmount - lot.buyFilledAmount)
    (sale.amount - trade.saleFilledAmount) with hle | hle
  · rw [min_eq_left hle]
    exact ⟨fun _ => by linarith, fun _ => hle⟩
  · rw [min_eq_right hle]
    exact ⟨fun h => by linarith, fun h => by linarith⟩

/-- What `fillLot` leaves of an open lot. -/
theorem openLot?_fillLot {rest : TaxLot}
    (hopen : openLot? env sale.asset lot = some rest) (price : ℚ) :
    (openLot? env sale.asset (fillLot opts sale price trade lot).2).toList =
      if rest.qty ≤ sale.amount - trade.saleFilledAmount then []
      else [⟨rest.tag,
        rest.qty - (sale.amount - trade.saleFilledAmount)⟩] := by
  obtain ⟨hhist, hno, hasset, rfl⟩ := openLot?_eq_some.mp hopen
  simp only [openLot?, (fillLot_lot_frame opts sale price trade lot).1, hno,
    hasset, fillLot_isBuyTrxHistFilled, fillLot_buyFilledAmount, hhist,
    Bool.false_or, Bool.not_false, Bool.and_true, beq_self_eq_true,
    Bool.not_eq_true', decide_eq_false_iff_not, fillQty]
  by_cases hle : lot.boughtAmount - lot.buyFilledAmount ≤
    sale.amount - trade.saleFilledAmount
  · simp only [hle, not_true_eq_false, ↓reduceIte, Option.toList_none]
  · simp only [hle, not_false_eq_true, ↓reduceIte, Option.toList_some,
      min_eq_right (not_le.mp hle).le, sub_sub]

theorem openLot?_of_ne {asset : String}
    (hne : asset ≠ lot.boughtAsset env) : openLot? env asset lot = none := by
  simp [openLot?, hne.symm]

/-- An open lot of the asset on sale gives the front piece of the queue. -/
theorem matchLot_of_open (ctx : LookUpCtx) (trade : Trade)
    (hfees : opts.shouldFeesBeDeducted = false)
    (hlot : ReadyLot env opts lot) {rest : TaxLot}
    (hopen : openLot? env sale.asset lot = some rest) :
    ∃ trade' lot', matchLot env opts sale ctx trade lot =
        { trade := trade', lots := lot', ctx } ∧
      Takes opts trade
        [⟨rest.tag,
          min rest.qty (sale.amount - trade.saleFilledAmount)⟩] trade' ∧
      trade'.saleFilledAmount = trade.saleFilledAmount +
        min rest.qty (sale.amount - trade.saleFilledAmount) ∧
      trade'.isSaleTrxHistFilled = (trade.isSaleTrxHistFilled ||
        decide (sale.amount - trade.saleFilledAmount ≤ rest.qty)) ∧
      SameLot env lot lot' ∧ ReadyLot env opts lot' ∧
      (openLot? env sale.asset lot').toList =
        (if rest.qty ≤ sale.amount - trade.saleFilledAmount then []
        else [⟨rest.tag,
          rest.qty - (sale.amount - trade.saleFilledAmount)⟩]) ∧
      ∀ asset, asset ≠ sale.asset →
        openLot? env asset lot' = openLot? env asset lot := by
  obtain ⟨price, hprice, hfill⟩ := matchLot_of_matches ctx trade
    (lotMatches_of_open hlot hopen)
  obtain ⟨hhist, hno, hasset, hrest⟩ := openLot?_eq_some.mp hopen
  have hsame := asLot_sameLot env lot
  have hopen' : openLot? env sale.asset (lot.asLot env) = some rest := by
    rw [openLot?_asLot, hopen]
  have hsame' := fillLot_sameLot env opts sale price (trade.noting lot)
    (lot.asLot env)
  refine ⟨_, _, hfill, ?_, ?_, ?_, hsame.trans hsame', ?_, ?_, ?_⟩
  · have htakes := fillLot_takes env sale trade (lot.asLot env) price hfees
      (by simp [lotPriceUsd, Trade.asLot, Trade.withSymbs, hprice])
    have hpiece : (⟨rest.tag,
        min rest.qty (sale.amount - trade.saleFilledAmount)⟩ : TaxLot) =
        ⟨(lot.asLot env).toTrx.withSymbs env,
          fillQty sale trade (lot.asLot env)⟩ := by
      rw [hrest, ← asLot_sameLot env lot |>.trx]
      rfl
    rw [hpiece]
    exact htakes
  · rw [fillLot_saleFilledAmount, hrest]
    rfl
  · rw [fillLot_isSaleTrxHistFilled, hrest]
    rfl
  · exact fillLot_readyLot (hlot.congr hsame.trx rfl rfl) hhist price
  · exact openLot?_fillLot hopen' price
  · intro asset hne
    rw [← hasset] at hne
    rw [openLot?_of_ne hne, openLot?_of_ne]
    rwa [← (hsame.trans hsame').trx.congr (boughtAsset env)
      (boughtAsset_withSymbs env)]

theorem filterMap_openLot?_cons (asset : String) (lots : List Trade) :
    (lot :: lots).filterMap (openLot? env asset) =
      (openLot? env asset lot).toList ++
        lots.filterMap (openLot? env asset) := by
  cases hopen : openLot? env asset lot <;> simp [hopen]

/-- The scan draws the rest of the sale from the queue of its asset. -/
theorem lookUpLots_draws (sale : Sale) (trade : Trade)
    (hctx : ctx.pollsLeft = none)
    (hfees : opts.shouldFeesBeDeducted = false) (lots : List Trade)
    (hlots : ∀ lot ∈ lots, ReadyLot env opts lot)
    (hfilled : trade.isSaleTrxHistFilled = true ↔
      sale.amount - trade.saleFilledAmount ≤ 0) :
    ∃ trade' lots', lookUpLots env opts sale ctx trade lots =
        { trade := trade', lots := lots', ctx } ∧
      Draws env opts sale trade lots trade' lots' := by
  induction lots generalizing trade with
  | nil =>
      refine ⟨trade, [], rfl, ?_⟩
      exact ⟨.nil, by simp, Takes.nil trade, rfl, fun _ _ => rfl⟩
  | cons lot rest ih =>
      obtain ⟨hlot, hrest⟩ := List.forall_mem_cons.mp hlots
      simp only [lookUpLots, LookUpCtx.hasInterrupted_of_never hctx,
        LookUpCtx.polled_of_never hctx, Bool.false_eq_true, ↓reduceIte]
      by_cases hfull : trade.isSaleTrxHistFilled = true
      · have hneed := hfilled.mp hfull
        refine ⟨trade, lot :: rest, by simp [hfull], ?_, hlots, ?_, ?_,
          fun _ _ => rfl⟩
        · exact List.forall₂_same.mpr fun lot _ => SameLot.refl lot
        · rw [draw_of_nonpos hneed]
          exact Takes.nil trade
        · rw [draw_of_nonpos hneed]
      have hneed : 0 < sale.amount - trade.saleFilledAmount :=
        not_le.mp (mt hfilled.mpr hfull)
      simp only [hfull, Bool.false_eq_true, ↓reduceIte]
      cases hopen : openLot? env sale.asset lot with
      | none =>
          obtain ⟨lot', heq, hsame, hready, hqueues⟩ :=
            matchLot_of_closed ctx trade hlot hopen
          obtain ⟨trade', rest', htail, hdraws⟩ := ih trade hrest hfilled
          refine ⟨trade', lot' :: rest', by simp [heq, htail],
            hdraws.same.cons hsame, ?_, ?_, ?_, ?_⟩
          · exact List.forall_mem_cons.mpr ⟨hready, hdraws.ready⟩
          · simpa [filterMap_openLot?_cons, hopen] using hdraws.takes
          · simpa [filterMap_openLot?_cons, hopen, hqueues] using hdraws.queue
          · intro asset hne
            simpa [filterMap_openLot?_cons, hqueues] using
              hdraws.others asset hne
      | some front =>
          obtain ⟨trade₁, lot', heq, htakes, hqty, hhist, hsame, hready, hleft,
            hothers⟩ := matchLot_of_open ctx trade hfees hlot hopen
          have hneed₁ : sale.amount - trade₁.saleFilledAmount =
              sale.amount - trade.saleFilledAmount -
                min front.qty (sale.amount - trade.saleFilledAmount) := by
            rw [hqty]
            ring
          have hfilled₁ : trade₁.isSaleTrxHistFilled = true ↔
              sale.amount - trade₁.saleFilledAmount ≤ 0 := by
            rw [hhist, hneed₁, sub_nonpos, le_min_iff]
            simp [hfull]
          obtain ⟨trade', rest', htail, hdraws⟩ := ih trade₁ hrest hfilled₁
          refine ⟨trade', lot' :: rest', by simp [heq, htail],
            hdraws.same.cons hsame, ?_, ?_, ?_, ?_⟩
          · exact List.forall_mem_cons.mpr ⟨hready, hdraws.ready⟩
          · rw [filterMap_openLot?_cons, hopen, Option.toList_some,
              List.singleton_append, draw_cons hneed, ← hneed₁]
            exact htakes.cons hdraws.takes
          · rw [filterMap_openLot?_cons, filterMap_openLot?_cons, hopen,
              Option.toList_some, List.singleton_append, draw_cons hneed,
              ← hneed₁, hleft, hdraws.queue]
          · intro asset hne
            rw [filterMap_openLot?_cons, filterMap_openLot?_cons,
              hothers asset hne, hdraws.others asset hne]

end ReportsFramework
