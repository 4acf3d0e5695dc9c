/-
The fills of a look-up: for every sale a row with what its turn did to each of the lots
behind it, and what the sale was charged of their fees.
-/
import ReportsFramework.TaxLotConservation

namespace ReportsFramework

open Trx

/-- A lot before and after a sale has looked at it, and what the sale was charged. -/
structure LotFill where
  before : Trade
  after : Trade
  feeUsd : ℚ
deriving DecidableEq, Repr

namespace LotFill

def untouched (lot : Trade) : LotFill := ⟨lot, lot, 0⟩

def qty (fill : LotFill) : ℚ :=
  fill.after.buyFilledAmount - fill.before.buyFilledAmount

/-- What was left of the lot. -/
def restAmount (fill : LotFill) : ℚ :=
  fill.before.boughtAmount - fill.before.buyFilledAmount

end LotFill

section Table

/-- The row of the inner loop, in look-up order. -/
def lotFills (env : TaxEnv) (opts : LookUpOpts) (sale : Sale) :
    LookUpCtx → Trade → List Trade → List LotFill
  | _, _, [] => []
  | ctx, trade, lot :: rest =>
      if ctx.hasInterrupted || trade.isSaleTrxHistFilled then
        (lot :: rest).map LotFill.untouched
      else
        let head := matchLot env opts sale ctx.polled trade lot
        ⟨lot, head.lots, head.trade.cumulativeTrxFeesUsd - trade.cumulativeTrxFeesUsd⟩ ::
          match head.exit with
          | .completed => lotFills env opts sale head.ctx head.trade rest
          | _ => rest.map LotFill.untouched

def inLookUpOrder {α : Type} (opts : LookUpOpts) (items : List α) : List α :=
  if opts.isBackIterativeBuyLookUp then items.reverse else items

/-- The row of one turn of the sale loop, in the order of the list. -/
def saleRow (env : TaxEnv) (opts : LookUpOpts) (ctx : LookUpCtx) (trade : Trade)
    (older : List Trade) : List LotFill :=
  if ctx.hasInterrupted then older.map LotFill.untouched
  else match openSale env opts ctx.polled trade with
    | (trade, ctx, .opened sale) =>
        inLookUpOrder opts (lotFills env opts sale ctx trade (buyLookUpOrder opts older))
    | _ => older.map LotFill.untouched

def fillRowsBack (env : TaxEnv) (opts : LookUpOpts) (ctx : LookUpCtx) :
    List Trade → List (List LotFill)
  | [] => []
  | trade :: older =>
      let run := lookUpSalesBack env opts ctx older
      (match run.exit with
        | .completed => saleRow env opts run.ctx trade run.trades
        | _ => run.trades.map LotFill.untouched) :: fillRowsBack env opts ctx older

def fillRowsForth (env : TaxEnv) (opts : LookUpOpts) :
    ℕ → LookUpCtx → List Trade → List (List LotFill)
  | n + 1, ctx, trade :: older =>
      let scan := lookUpSale env opts ctx trade older
      saleRow env opts ctx trade older ::
        match scan.exit with
        | .completed => fillRowsForth env opts n scan.ctx scan.lots
        | _ => []
  | _, _, _ => []

/-- Row `i` is that of trade `i` over the trades behind it. -/
def fillRows (env : TaxEnv) (opts : LookUpOpts) (ctx : LookUpCtx) (trades : List Trade) :
    List (List LotFill) :=
  if opts.isBackIterativeSaleLookUp then fillRowsBack env opts ctx trades
  else fillRowsForth env opts trades.length ctx trades

/-- The fills of trade `j` as a lot, by the sales before it in the list. -/
def fillsOfLot : List (List LotFill) → ℕ → List LotFill
  | row :: rows, j + 1 => row[j]?.toList ++ fillsOfLot rows j
  | _, _ => []

end Table

section Rows

variable {env : TaxEnv} {opts : LookUpOpts} {sale : Sale} {ctx : LookUpCtx} {trade : Trade}

theorem map_inLookUpOrder {α β : Type} (f : α → β) (items : List α) :
    (inLookUpOrder opts items).map f = inLookUpOrder opts (items.map f) := by
  unfold inLookUpOrder
  split
  · exact List.map_reverse
  · rfl

theorem inLookUpOrder_buyLookUpOrder (lots : List Trade) :
    inLookUpOrder opts (buyLookUpOrder opts lots) = lots :=
  buyLookUpOrder_involutive lots

theorem sum_inLookUpOrder (items : List ℚ) : (inLookUpOrder opts items).sum = items.sum := by
  unfold inLookUpOrder
  split
  · exact List.sum_reverse items
  · rfl

theorem mem_inLookUpOrder {α : Type} {items : List α} {item : α} :
    item ∈ inLookUpOrder opts items ↔ item ∈ items := by
  unfold inLookUpOrder
  split <;> simp

@[simp] theorem map_before_untouched (lots : List Trade) :
    (lots.map LotFill.untouched).map LotFill.before = lots := by
  simp [LotFill.untouched, Function.comp_def]

@[simp] theorem map_after_untouched (lots : List Trade) :
    (lots.map LotFill.untouched).map LotFill.after = lots := by
  simp [LotFill.untouched, Function.comp_def]

/-- A row stands over all the lots. -/
theorem map_before_lotFills (ctx : LookUpCtx) (trade : Trade) (lots : List Trade) :
    (lotFills env opts sale ctx trade lots).map LotFill.before = lots := by
  induction lots generalizing ctx trade with
  | nil => rfl
  | cons lot rest ih =>
    unfold lotFills
    split
    · exact map_before_untouched _
    · rw [List.map_cons]
      split
      · rw [ih]
      · rw [map_before_untouched]

theorem map_after_lotFills (ctx : LookUpCtx) (trade : Trade) (lots : List Trade) :
    (lotFills env opts sale ctx trade lots).map LotFill.after =
      (lookUpLots env opts sale ctx trade lots).lots := by
  induction lots generalizing ctx trade with
  | nil => rfl
  | cons lot rest ih =>
    unfold lotFills lookUpLots
    cases hctx : ctx.hasInterrupted with
    | true => exact map_after_untouched _
    | false =>
      cases htrade : trade.isSaleTrxHistFilled with
      | true => exact map_after_untouched _
      | false =>
        simp only [Bool.or_self, Bool.false_eq_true, ↓reduceIte, List.map_cons]
        cases (matchLot env opts sale ctx.polled trade lot).exit with
        | completed => simp only [ih]
        | interrupted => simp only [map_after_untouched]
        | thrown err => simp only [map_after_untouched]

theorem map_before_saleRow (ctx : LookUpCtx) (trade : Trade) (older : List Trade) :
    (saleRow env opts ctx trade older).map LotFill.before = older := by
  unfold saleRow
  split
  · exact map_before_untouched _
  · split
    · rw [map_inLookUpOrder, map_before_lotFills, inLookUpOrder_buyLookUpOrder]
    · exact map_before_untouched _

theorem map_after_saleRow (ctx : LookUpCtx) (trade : Trade) (older : List Trade) :
    (saleRow env opts ctx trade older).map LotFill.after =
      (lookUpSale env opts ctx trade older).lots := by
  unfold saleRow lookUpSale
  cases hctx : ctx.hasInterrupted with
  | true => exact map_after_untouched older
  | false =>
    rcases hopen : openSale env opts ctx.polled trade with ⟨trade₁, ctx₁, opening⟩
    simp only [Bool.false_eq_true, ↓reduceIte]
    cases opening with
    | skipped => exact map_after_untouched older
    | thrown err => exact map_after_untouched older
    | opened sale =>
      rw [map_inLookUpOrder, map_after_lotFills]
      rfl

/-- The fees of a row are what the scan adds to those of the sale. -/
theorem sum_feeUsd_lotFills (ctx : LookUpCtx) (trade : Trade) (lots : List Trade) :
    ((lotFills env opts sale ctx trade lots).map LotFill.feeUsd).sum =
      (lookUpLots env opts sale ctx trade lots).trade.cumulativeTrxFeesUsd -
        trade.cumulativeTrxFeesUsd := by
  have hidle : ∀ lots : List Trade, ((lots.map LotFill.untouched).map LotFill.feeUsd).sum = 0 := by
    intro lots
    simp [LotFill.untouched, Function.comp_def]
  induction lots generalizing ctx trade with
  | nil => simp [lotFills, lookUpLots]
  | cons lot rest ih =>
    unfold lotFills lookUpLots
    cases hctx : ctx.hasInterrupted with
    | true => exact (hidle _).trans (sub_self _).symm
    | false =>
      cases htrade : trade.isSaleTrxHistFilled with
      | true => exact (hidle _).trans (sub_self _).symm
      | false =>
        simp only [Bool.or_self, Bool.false_eq_true, ↓reduceIte, List.map_cons, List.sum_cons]
        cases (matchLot env opts sale ctx.polled trade lot).exit with
        | completed =>
          simp only [ih]
          ring
        | interrupted => simp only [hidle, add_zero]
        | thrown err => simp only [hidle, add_zero]

theorem closeSale_cumulativeTrxFeesUsd (sale : Sale) (trade : Trade) :
    (closeSale sale trade).cumulativeTrxFeesUsd = trade.cumulativeTrxFeesUsd := rfl

/-- A sale is charged its own fee and those of its row. -/
theorem cumulativeTrxFeesUsd_lookUpSale (ctx : LookUpCtx) (trade : Trade) (older : List Trade)
    {trade₁ : Trade} {ctx₁ : LookUpCtx} (hctx : ctx.hasInterrupted = false)
    (hopen : openSale env opts ctx.polled trade = (trade₁, ctx₁, .opened sale)) :
    (lookUpSale env opts ctx trade older).trade.cumulativeTrxFeesUsd =
      trade₁.cumulativeTrxFeesUsd +
        ((saleRow env opts ctx trade older).map LotFill.feeUsd).sum := by
  unfold lookUpSale saleRow
  simp only [hctx, hopen, Bool.false_eq_true, ↓reduceIte]
  rw [map_inLookUpOrder, sum_inLookUpOrder, sum_feeUsd_lotFills, add_sub_cancel]
  split
  · rw [closeSale_cumulativeTrxFeesUsd]
  · rfl

end Rows

section Shares

variable {env : TaxEnv} {opts : LookUpOpts} {sale : Sale} {ctx : LookUpCtx} {trade lot : Trade}

/-- The fee of a lot, for a sale that consumes all of it. -/
def lotFeeUsd (env : TaxEnv) (opts : LookUpOpts) (lot : Trade) : ℚ :=
  getTrxFeeUsd opts false (lot.toTrx.withSymbs env)

/-- The part of the fee that a fill is charged. -/
def LotFill.share (fill : LotFill) : ℚ :=
  if fill.qty < fill.restAmount then bigNumberDiv fill.qty fill.restAmount else 1

/-- A lot that bought something and is not flagged has a rest. -/
def LotOpen (lot : Trade) : Prop :=
  lot.isBuyTrxHistFilled = false → lot.boughtAmount ≠ 0 → lot.buyFilledAmount < lot.boughtAmount

/-- What holds of any fill. -/
structure LotFill.Fair (env : TaxEnv) (opts : LookUpOpts) (fill : LotFill) : Prop where
  nonneg : 0 ≤ fill.qty
  le : fill.qty ≤ fill.restAmount
  trx : SameTrx env fill.before.toTrx fill.after.toTrx
  bound : LotBound fill.after
  isOpen : LotOpen fill.after
  fee : (fill.qty = 0 ∧ fill.feeUsd = 0) ∨
    ((fill.before.boughtAmount ≠ 0 → 0 < fill.qty) ∧
      fill.feeUsd = lotFeeUsd env opts fill.before * fill.share)

theorem fillLot_cumulativeTrxFeesUsd (sale : Sale) (price : ℚ) (trade lot : Trade) :
    (fillLot opts sale price trade lot).1.cumulativeTrxFeesUsd =
      trade.cumulativeTrxFeesUsd + getTrxFeeUsd opts false lot.toTrx *
        (if fillQty sale trade lot < lot.boughtAmount - lot.buyFilledAmount then
          bigNumberDiv (fillQty sale trade lot) (lot.boughtAmount - lot.buyFilledAmount)
        else 1) := by
  unfold fillQty
  rcases lt_trichotomy (lot.boughtAmount - lot.buyFilledAmount)
    (sale.amount - trade.saleFilledAmount) with hless | heq | hmore
  · simp [fillLot, hless, min_eq_left hless.le]
  · simp [fillLot, heq]
  · simp [fillLot, hmore, not_lt.mpr hmore.le, min_eq_right hmore.le]

theorem LotFill.fair_untouched (hbound : LotBound lot) (hopen : LotOpen lot) :
    (LotFill.untouched lot).Fair env opts where
  nonneg := by simp [LotFill.untouched, LotFill.qty]
  le := by simpa [LotFill.untouched, LotFill.qty, LotFill.restAmount] using hbound.le
  trx := SameTrx.refl _
  bound := hbound
  isOpen := hopen
  fee := .inl ⟨by simp [LotFill.untouched, LotFill.qty], rfl⟩

theorem LotBound.congr {lot' : Trade} (h : LotBound lot) (htrx : SameTrx env lot.toTrx lot'.toTrx)
    (hbook : ∃ isBuyTrx, lot'.toBuyBook = { lot.toBuyBook with isBuyTrx := isBuyTrx }) :
    LotBound lot' := by
  obtain ⟨isBuyTrx, hbook⟩ := hbook
  have hamount := htrx.congr boughtAmount (boughtAmount_withSymbs env)
  constructor
  · rw [hbook]
    exact h.nonneg
  · rw [hbook, ← hamount]
    exact h.le
  · rw [hbook, ← hamount]
    exact h.full

theorem LotOpen.congr {lot' : Trade} (h : LotOpen lot) (htrx : SameTrx env lot.toTrx lot'.toTrx)
    (hbook : ∃ isBuyTrx, lot'.toBuyBook = { lot.toBuyBook with isBuyTrx := isBuyTrx }) :
    LotOpen lot' := by
  obtain ⟨isBuyTrx, hbook⟩ := hbook
  have hamount := htrx.congr boughtAmount (boughtAmount_withSymbs env)
  unfold LotOpen at h ⊢
  rw [hbook, ← hamount]
  exact h

/-- A lot that is not flagged when it is filled has a rest. -/
theorem fillLot_lotOpen {price : ℚ} : LotOpen (fillLot opts sale price trade lot).2 := by
  intro hflag _
  rw [fillLot_isBuyTrxHistFilled, Bool.or_eq_false_iff, decide_eq_false_iff_not, not_le] at hflag
  have htrx : (fillLot opts sale price trade lot).2.boughtAmount = lot.boughtAmount := by
    rw [(fillLot_lot_frame opts sale price trade lot).1]
  rw [fillLot_buyFilledAmount, htrx, fillQty, min_eq_right hflag.2.le]
  linarith [hflag.2]

theorem bigNumberDiv_zero (y : ℚ) : bigNumberDiv 0 y = 0 := by
  have hfloor : ⌊(0 / y * 10 ^ 20 + 1 / 2 : ℚ)⌋ = 0 := by norm_num
  have hneg : ¬ 0 / y * 10 ^ 20 < 0 := by simp
  unfold bigNumberDiv
  rw [if_neg hneg, hfloor]
  simp

/-- The step lemma of the rows. -/
theorem matchLot_fair (hsale : SaleBound sale.amount trade) (hbound : LotBound lot)
    (hopen : LotOpen lot) :
    LotFill.Fair env opts ⟨lot, (matchLot env opts sale ctx trade lot).lots,
      (matchLot env opts sale ctx trade lot).trade.cumulativeTrxFeesUsd -
        trade.cumulativeTrxFeesUsd⟩ := by
  cases hmatch : lotMatches env opts sale lot with
  | false =>
    obtain ⟨lots, noPriceUsd, trx, isBuyTrx, htrade, hlot, htrx⟩ :=
      matchLot_of_not_matches ctx trade hmatch
    rw [htrade, hlot]
    have hqty : LotFill.qty ⟨lot, { lot with toTrx := trx, isBuyTrx := isBuyTrx },
        trade.cumulativeTrxFeesUsd - trade.cumulativeTrxFeesUsd⟩ = 0 := sub_self _
    constructor
    · exact hqty.ge
    · rw [hqty]
      exact sub_nonneg.mpr hbound.le
    · exact htrx
    · exact hbound.congr htrx ⟨isBuyTrx, rfl⟩
    · exact hopen.congr htrx ⟨isBuyTrx, rfl⟩
    · exact .inl ⟨hqty, sub_self _⟩
  | true =>
    obtain ⟨price, -, hfilled⟩ := matchLot_of_matches ctx trade hmatch
    rw [hfilled]
    have hasLot : SameTrx env lot.toTrx (lot.asLot env).toTrx := sameTrx_withSymbs env lot.toTrx
    have hbook : ∃ isBuyTrx,
        (lot.asLot env).toBuyBook = { lot.toBuyBook with isBuyTrx := isBuyTrx } :=
      ⟨true, rfl⟩
    have hsale' : SaleBound sale.amount (trade.noting lot) := ⟨hsale.nonneg, hsale.le, hsale.full⟩
    have hbound' : LotBound (lot.asLot env) := hbound.congr hasLot hbook
    have hnonneg := fillQty_nonneg hsale' hbound'
    have htrx := (fillLot_lot_frame opts sale price (trade.noting lot) (lot.asLot env)).1
    have hqty : LotFill.qty ⟨lot, (fillLot opts sale price (trade.noting lot) (lot.asLot env)).2,
        (fillLot opts sale price (trade.noting lot) (lot.asLot env)).1.cumulativeTrxFeesUsd -
          trade.cumulativeTrxFeesUsd⟩ = fillQty sale (trade.noting lot) (lot.asLot env) := by
      unfold LotFill.qty
      rw [fillLot_buyFilledAmount]
      exact add_sub_cancel_left _ _
    have hle : fillQty sale (trade.noting lot) (lot.asLot env) ≤
        lot.boughtAmount - lot.buyFilledAmount := min_le_left _ _
    constructor
    · exact hqty ▸ hnonneg
    · rw [hqty]
      exact hle
    · rw [htrx]
      exact hasLot
    · exact fillLot_lotBound hsale' hbound'
    · exact fillLot_lotOpen
    · have hfee :
          (fillLot opts sale price (trade.noting lot) (lot.asLot env)).1.cumulativeTrxFeesUsd -
          trade.cumulativeTrxFeesUsd = lotFeeUsd env opts lot *
            (if fillQty sale (trade.noting lot) (lot.asLot env) <
                lot.boughtAmount - lot.buyFilledAmount then
              bigNumberDiv (fillQty sale (trade.noting lot) (lot.asLot env))
                (lot.boughtAmount - lot.buyFilledAmount)
            else 1) := by
        rw [fillLot_cumulativeTrxFeesUsd]
        exact add_sub_cancel_left _ _
      by_cases hidle : fillQty sale (trade.noting lot) (lot.asLot env) = 0 ∧
          lot.boughtAmount ≠ 0
      · left
        have hflag : lot.isBuyTrxHistFilled = false := by
          simp only [lotMatches, lotTouches, Bool.and_eq_true, Bool.not_eq_true'] at hmatch
          exact hmatch.1.1.1.1.1
        have hrest := sub_pos.mpr (hopen hflag hidle.2)
        rw [hidle.1, if_pos hrest, bigNumberDiv_zero, mul_zero] at hfee
        exact ⟨hqty.trans hidle.1, hfee⟩
      · right
        unfold LotFill.share
        rw [hqty]
        refine ⟨fun hamount => ?_, hfee⟩
        exact hnonneg.lt_of_ne fun hzero => hidle ⟨hzero.symm, hamount⟩

theorem fair_map_untouched {lots : List Trade} (hlots : ∀ lot ∈ lots, LotBound lot ∧ LotOpen lot) :
    ∀ fill ∈ lots.map LotFill.untouched, fill.Fair env opts := by
  intro fill hfill
  obtain ⟨lot, hlot, rfl⟩ := List.mem_map.mp hfill
  exact LotFill.fair_untouched (hlots lot hlot).1 (hlots lot hlot).2

/-- The run lemma of the inner loop. -/
theorem lotFills_fair (hsale : SaleBound sale.amount trade) {lots : List Trade}
    (hlots : ∀ lot ∈ lots, LotBound lot ∧ LotOpen lot) :
    ∀ fill ∈ lotFills env opts sale ctx trade lots, fill.Fair env opts := by
  induction lots generalizing ctx trade with
  | nil => simp [lotFills]
  | cons lot rest ih =>
    obtain ⟨hlot, hrest⟩ := List.forall_mem_cons.mp hlots
    simp only [lotFills]
    split
    · exact fair_map_untouched hlots
    · rw [List.forall_mem_cons]
      constructor
      · exact matchLot_fair hsale hlot.1 hlot.2
      · split
        · exact ih (matchLot_scanned env opts ctx.polled hsale hlot.1).bound hrest
        · exact fair_map_untouched hrest

end Shares

section Run

variable {env : TaxEnv} {opts : LookUpOpts} {sale : Sale} {ctx : LookUpCtx} {trade : Trade}
  {older : List Trade}

/-- The counters of a trade are within its amounts, and it is flagged as a lot once
nothing is left of it. -/
structure TradeFit (trade : Trade) : Prop where
  bound : TradeBound trade
  isOpen : LotOpen trade

theorem openSale_saleBound {trade₁ : Trade} {ctx₁ : LookUpCtx}
    (hsale : SaleBound trade.soldAmount trade)
    (hopen : openSale env opts ctx trade = (trade₁, ctx₁, .opened sale)) :
    SaleBound sale.amount trade₁ := by
  obtain ⟨-, hfilled, -, hhist, -⟩ := openSale_frame env opts ctx trade
  have hopened : (openSale env opts ctx trade).2.2 = .opened sale := by rw [hopen]
  obtain ⟨-, -, -, -, hamount, -⟩ := openSale_opened hopened
  rw [hopen] at hfilled hhist
  rw [hamount]
  exact ⟨hfilled ▸ hsale.nonneg, hfilled ▸ hsale.le, fun h => hfilled ▸ hsale.full (hhist ▸ h)⟩

/-- One turn of the sale loop. -/
theorem saleRow_fair (hfit : ∀ t ∈ trade :: older, TradeFit t) :
    ∀ fill ∈ saleRow env opts ctx trade older, fill.Fair env opts := by
  obtain ⟨htrade, holder⟩ := List.forall_mem_cons.mp hfit
  have hlots : ∀ lot ∈ older, LotBound lot ∧ LotOpen lot :=
    fun lot hlot => ⟨(holder lot hlot).bound.lot, (holder lot hlot).isOpen⟩
  unfold saleRow
  split
  · exact fair_map_untouched hlots
  · split
    next trade₁ ctx₁ sale hopen =>
      intro fill hfill
      apply lotFills_fair (openSale_saleBound htrade.bound.sale hopen) _ fill
        (mem_inLookUpOrder.mp hfill)
      intro lot hlot
      exact hlots lot (mem_buyLookUpOrder.mp hlot)
    · exact fair_map_untouched hlots

theorem lookUpSale_fit (hfit : ∀ t ∈ trade :: older, TradeFit t) :
    ∀ t ∈ (lookUpSale env opts ctx trade older).trade :: (lookUpSale env opts ctx trade older).lots,
      TradeFit t := by
  obtain ⟨htrade, holder⟩ := List.forall_mem_cons.mp hfit
  have hscan := lookUpSale_scanned env opts ctx htrade.bound.sale
    fun lot hlot => (holder lot hlot).bound.lot
  have hbound := hscan.tradeBound fun t ht => (hfit t ht).bound
  obtain ⟨htrade', holder'⟩ := List.forall_mem_cons.mp hbound
  rw [List.forall_mem_cons]
  constructor
  · exact ⟨htrade', htrade.isOpen.congr hscan.trx hscan.buyBook⟩
  · intro lot hlot
    constructor
    · exact holder' lot hlot
    · rw [← map_after_saleRow] at hlot
      obtain ⟨fill, hfill, rfl⟩ := List.mem_map.mp hlot
      exact (saleRow_fair hfit fill hfill).isOpen

/-- The run lemma of the sale loop from the oldest sale on. -/
theorem fillRowsBack_fair (env : TaxEnv) (opts : LookUpOpts) (ctx : LookUpCtx)
    {trades : List Trade} (hfit : ∀ t ∈ trades, TradeFit t) :
    (∀ t ∈ (lookUpSalesBack env opts ctx trades).trades, TradeFit t) ∧
      ∀ row ∈ fillRowsBack env opts ctx trades, ∀ fill ∈ row, fill.Fair env opts := by
  induction trades with
  | nil => exact ⟨by simp [lookUpSalesBack], by simp [fillRowsBack]⟩
  | cons trade older ih =>
    obtain ⟨htrade, holder⟩ := List.forall_mem_cons.mp hfit
    obtain ⟨hrun, hrows⟩ := ih holder
    have hturn : ∀ t ∈ trade :: (lookUpSalesBack env opts ctx older).trades, TradeFit t :=
      List.forall_mem_cons.mpr ⟨htrade, hrun⟩
    simp only [lookUpSalesBack, fillRowsBack]
    rw [List.forall_mem_cons]
    have hidle : ∀ fill ∈ (lookUpSalesBack env opts ctx older).trades.map LotFill.untouched,
        fill.Fair env opts :=
      fair_map_untouched fun t ht => ⟨(hrun t ht).bound.lot, (hrun t ht).isOpen⟩
    cases (lookUpSalesBack env opts ctx older).exit with
    | completed => exact ⟨lookUpSale_fit hturn, saleRow_fair hturn, hrows⟩
    | interrupted => exact ⟨hturn, hidle, hrows⟩
    | thrown err => exact ⟨hturn, hidle, hrows⟩

/-- The run lemma of the sale loop from the newest sale on. -/
theorem fillRowsForth_fair (env : TaxEnv) (opts : LookUpOpts) (n : ℕ) (ctx : LookUpCtx)
    {trades : List Trade} (hfit : ∀ t ∈ trades, TradeFit t) :
    (∀ t ∈ (lookUpSalesForth env opts n ctx trades).trades, TradeFit t) ∧
      ∀ row ∈ fillRowsForth env opts n ctx trades, ∀ fill ∈ row, fill.Fair env opts := by
  induction n generalizing ctx trades with
  | zero => cases trades <;> exact ⟨hfit, by simp [fillRowsForth]⟩
  | succ n ih =>
    cases trades with
    | nil => exact ⟨hfit, by simp [fillRowsForth]⟩
    | cons trade older =>
      have hturn : ∀ t ∈ (lookUpSale env opts ctx trade older).trade ::
          (lookUpSale env opts ctx trade older).lots, TradeFit t := lookUpSale_fit hfit
      obtain ⟨htrade', holder'⟩ := List.forall_mem_cons.mp hturn
      obtain ⟨hrun, hrows⟩ := ih (lookUpSale env opts ctx trade older).ctx holder'
      simp only [lookUpSalesForth, fillRowsForth]
      rw [List.forall_mem_cons]
      cases (lookUpSale env opts ctx trade older).exit with
      | completed =>
        exact ⟨List.forall_mem_cons.mpr ⟨htrade', hrun⟩, saleRow_fair hfit, hrows⟩
      | interrupted => exact ⟨hturn, saleRow_fair hfit, by simp⟩
      | thrown err => exact ⟨hturn, saleRow_fair hfit, by simp⟩

theorem fillRows_fair (env : TaxEnv) (opts : LookUpOpts) (ctx : LookUpCtx) {trades : List Trade}
    (hfit : ∀ t ∈ trades, TradeFit t) :
    ∀ row ∈ fillRows env opts ctx trades, ∀ fill ∈ row, fill.Fair env opts := by
  unfold fillRows
  split
  · exact (fillRowsBack_fair env opts ctx hfit).2
  · exact (fillRowsForth_fair env opts _ ctx hfit).2

theorem Unfilled.tradeFit (h : Unfilled trade) : TradeFit trade where
  bound := h.tradeBound
  isOpen := by
    intro _ hamount
    rw [h.buy]
    exact lt_of_le_of_ne (boughtAmount_nonneg _) hamount.symm

end Run

end ReportsFramework
