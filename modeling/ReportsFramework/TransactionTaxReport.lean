/-
`getTransactionTaxReport`: two look-ups, one over the transactions before the
requested period, and one over those of the period with the lots that the first
left open behind them.
-/
import ReportsFramework.LookUpTrades

namespace ReportsFramework

/-- `TRX_TAX_STRATEGIES`. -/
inductive TrxTaxStrategy
  | fifo
  | lifo
deriving DecidableEq, Repr

/-- The USD prices that `#convertCurrencies` finds among public trades, and
what it leaves of the context: currencies without a price, interruption. -/
structure Conversion where
  firstSymbPriceUsd : Trx → Option ℚ
  lastSymbPriceUsd : Trx → Option ℚ
  ctx : LookUpCtx → List Trx → LookUpCtx

def Trx.isPriced (trx : Trx) : Bool :=
  trx.firstSymbPriceUsd.isSome && trx.lastSymbPriceUsd.isSome

/-- Only transactions without prices are converted.  The `execPrice` of a
movement is its price. -/
def Conversion.convert (conv : Conversion) (trx : Trx) : Trx :=
  if trx.isPriced then trx
  else { trx with
    firstSymbPriceUsd := conv.firstSymbPriceUsd trx
    lastSymbPriceUsd := conv.lastSymbPriceUsd trx
    execPrice := if trx.isAdditionalTrxMovements then
      conv.firstSymbPriceUsd trx else trx.execPrice }

def Conversion.convertTrade (conv : Conversion) (trade : Trade) : Trade :=
  { trade with toTrx := conv.convert trade.toTrx }

structure TaxReportParams where
  start : ℕ := 0
  finish : ℕ
  strategy : TrxTaxStrategy := .lifo
  shouldFeesBeDeducted : Bool := false
deriving DecidableEq, Repr

structure TaxReport where
  taxes : List TaxEntry := []
  delistedCcyList : List String := []
deriving DecidableEq, Repr

/-- `#getTrxs`, from the remapped history, which stands newest first. -/
def getTrxs (history : List Trx) (start finish : ℕ) : List Trx :=
  history.filter fun trx => start ≤ trx.mtsCreate && trx.mtsCreate ≤ finish

def TaxReportParams.lookUpOpts (params : TaxReportParams) : LookUpOpts where
  isBackIterativeSaleLookUp := params.strategy == .fifo
  isBackIterativeBuyLookUp := params.strategy == .fifo
  shouldFeesBeDeducted := params.shouldFeesBeDeducted

def getTransactionTaxReport (env : TaxEnv) (conv : Conversion)
    (params : TaxReportParams) (ctx : LookUpCtx) (history : List Trx) :
    Except CurrencyPairSeparationError TaxReport :=
  let trxsForCurrPeriod := getTrxs history params.start params.finish
  if trxsForCurrPeriod.isEmpty then .ok {}
  else
    let trxsForPrevPeriod :=
      if 0 < params.start then getTrxs history 0 (params.start - 1) else []
    let prev := lookUpTrades env
      { params.lookUpOpts with
        isBuyTradesWithUnrealizedProfitRequired := true
        isNotGainOrLossRequired := true }
      ctx (trxsForPrevPeriod.map Trade.ofTrx)
    match prev.exit with
    | .thrown err => .error err
    | _ =>
        let trades := trxsForCurrPeriod.map Trade.ofTrx ++
          prev.buyTradesWithUnrealizedProfit
        let trxsForConvToUsd :=
          (trades.map (·.toTrx)).filter fun trx => !trx.isPriced
        let run := lookUpTrades env params.lookUpOpts
          (conv.ctx prev.ctx trxsForConvToUsd) (trades.map conv.convertTrade)
        match run.exit with
        | .thrown err => .error err
        | _ =>
            if run.ctx.hasInterrupted then .ok {}
            else .ok {
              taxes := run.saleTradesWithRealizedProfit
              delistedCcyList := run.ctx.delistedCcyMap.map (·.1) }

end ReportsFramework
