/-
`lookUpTrades`: the nested scan that matches every sale with the lots bought
before it.  The list is sorted newest first, so the lots a sale may take, the
elements `j` with `i < j` of the source's index loops, are the ones that stand
after it; `older` below is that part of the array.
-/
import ReportsFramework.TaxTrx

namespace ReportsFramework

/-- The data of a `CurrencyPairSeparationError`. -/
structure CurrencyPairSeparationError where
  symbol : String
  firstSymb : String
  lastSymb : String
deriving DecidableEq, Repr

/-- What the look-up shares with its caller: the number of further
`interrupter.hasInterrupted()` calls that still answer no (`none` when it is
never interrupted), and `delistedCcyMap`, per symbol its
`CurrencyConversionError`s (all with a price that is not finite). -/
structure LookUpCtx where
  pollsLeft : Option ℕ := none
  delistedCcyMap : List (String × ℕ) := []
deriving DecidableEq, Repr

def LookUpCtx.hasInterrupted (ctx : LookUpCtx) : Bool :=
  ctx.pollsLeft == some 0

/-- One more poll has been answered. -/
def LookUpCtx.polled (ctx : LookUpCtx) : LookUpCtx :=
  { ctx with pollsLeft := ctx.pollsLeft.map (· - 1) }

/-- Append an error to the symbol's list, or start that list at the end. -/
def setDelistedCcyToMap (symbol : String) :
    List (String × ℕ) → List (String × ℕ)
  | [] => [(symbol, 1)]
  | (key, errs) :: rest =>
      if key = symbol then (key, errs + 1) :: rest
      else (key, errs) :: setDelistedCcyToMap symbol rest

def LookUpCtx.setDelisted (ctx : LookUpCtx) (symbol : String) : LookUpCtx :=
  { ctx with delistedCcyMap := setDelistedCcyToMap symbol ctx.delistedCcyMap }

/-- How a loop of the look-up is left. -/
inductive LookUpExit
  | completed
  | interrupted
  | thrown (err : CurrencyPairSeparationError)
deriving DecidableEq, Repr

namespace Trx

def amount (trx : Trx) : ℚ := trx.execAmount.getD 0

def price (trx : Trx) : ℚ := trx.execPrice.getD 0

/-- The guard at the head of both loops. -/
def canBeLookedUp (opts : LookUpOpts) (trx : Trx) : Bool :=
  trx.symbol != "" && trx.execPrice.isSome &&
    (opts.isBuyTradesWithUnrealizedProfitRequired || trx.price != 0) &&
    trx.execAmount.isSome && trx.amount != 0

/-- The symbols that came with the transaction, or those split from its
pair. -/
def symbPair (env : TaxEnv) (trx : Trx) : String × String :=
  if trx.firstSymb ≠ "" ∧ trx.lastSymb ≠ "" then (trx.firstSymb, trx.lastSymb)
  else env.splitSymbolPairs trx.symbol

def withSymbs (env : TaxEnv) (trx : Trx) : Trx :=
  { trx with
    firstSymb := (trx.symbPair env).1
    lastSymb := (trx.symbPair env).2 }

def symbError? (env : TaxEnv) (trx : Trx) :
    Option CurrencyPairSeparationError :=
  if (trx.symbPair env).1 = "" ∨ (trx.symbPair env).2 = "" then
    some ⟨trx.symbol, (trx.symbPair env).1, (trx.symbPair env).2⟩
  else none

/-- `isSaleTrx`: a distinct sale, or a purchase paid in another currency than
a forex one. -/
def sells (env : TaxEnv) (trx : Trx) : Bool :=
  trx.amount < 0 || (0 < trx.amount && !env.isForexSymb (trx.symbPair env).2)

/-- `isBuyTrx`. -/
def buys (env : TaxEnv) (trx : Trx) : Bool :=
  (0 < trx.amount || !env.isForexSymb (trx.symbPair env).2) &&
    (!trx.isTaxablePayment || !env.isForexSymb (trx.symbPair env).1)

def soldAsset (env : TaxEnv) (trx : Trx) : String :=
  if trx.amount < 0 then (trx.symbPair env).1 else (trx.symbPair env).2

def soldAmount (trx : Trx) : ℚ :=
  if trx.amount < 0 then |trx.amount| else |trx.amount * trx.price|

def salePriceUsd (opts : LookUpOpts) (trx : Trx) : Option ℚ :=
  if opts.isNotGainOrLossRequired then some 0
  else if trx.amount < 0 then trx.firstSymbPriceUsd
  else trx.lastSymbPriceUsd

/-- What the inner loop passes over: a sale for a forex currency, or a taxable
payment made in one. -/
def isNoLot (env : TaxEnv) (trx : Trx) : Bool :=
  (trx.amount < 0 && env.isForexSymb (trx.symbPair env).2) ||
    (trx.isTaxablePayment && env.isForexSymb (trx.symbPair env).1)

def boughtAsset (env : TaxEnv) (trx : Trx) : String :=
  if 0 < trx.amount then (trx.symbPair env).1 else (trx.symbPair env).2

def boughtAmount (trx : Trx) : ℚ :=
  if 0 < trx.amount then |trx.amount| else |trx.amount * trx.price|

def buyPriceUsd (opts : LookUpOpts) (trx : Trx) : Option ℚ :=
  if opts.isNotGainOrLossRequired then some 0
  else if 0 < trx.amount then trx.firstSymbPriceUsd
  else trx.lastSymbPriceUsd

end Trx

def Trade.withSymbs (env : TaxEnv) (trade : Trade) : Trade :=
  { trade with toTrx := trade.toTrx.withSymbs env }

/-- The constants of one turn of the sale loop. -/
structure Sale where
  asset : String
  amount : ℚ
  priceUsd : ℚ
deriving DecidableEq, Repr

/-- The three fill branches: the lot is smaller than what the sale still
needs, larger, or equal to it. -/
def fillLot (opts : LookUpOpts) (sale : Sale) (buyPriceUsd : ℚ)
    (trade lot : Trade) : Trade × Trade :=
  let buyAmount := lot.boughtAmount
  let buyRestAmount := buyAmount - lot.buyFilledAmount
  let saleRestAmount := sale.amount - trade.saleFilledAmount
  if buyRestAmount < saleRestAmount then
    ({ trade with
        saleFilledAmount := trade.saleFilledAmount + buyRestAmount
        costForSaleTrxUsd :=
          trade.costForSaleTrxUsd + buyRestAmount * buyPriceUsd
        cumulativeTrxFeesUsd := trade.cumulativeTrxFeesUsd +
          getTrxFeeUsd opts false lot.toTrx },
      { lot with
        buyFilledAmount := buyAmount
        proceedsForBuyTrxUsd :=
          lot.proceedsForBuyTrxUsd + buyRestAmount * sale.priceUsd
        isBuyTrxHistFilled := true })
  else if saleRestAmount < buyRestAmount then
    ({ trade with
        saleFilledAmount := sale.amount
        costForSaleTrxUsd :=
          trade.costForSaleTrxUsd + saleRestAmount * buyPriceUsd
        cumulativeTrxFeesUsd := trade.cumulativeTrxFeesUsd +
          getTrxFeeUsd opts false lot.toTrx *
            bigNumberDiv saleRestAmount buyRestAmount
        isSaleTrxHistFilled := true },
      { lot with
        buyFilledAmount := lot.buyFilledAmount + saleRestAmount
        proceedsForBuyTrxUsd :=
          lot.proceedsForBuyTrxUsd + saleRestAmount * sale.priceUsd })
  else
    ({ trade with
        saleFilledAmount := sale.amount
        costForSaleTrxUsd :=
          trade.costForSaleTrxUsd + buyRestAmount * buyPriceUsd
        cumulativeTrxFeesUsd := trade.cumulativeTrxFeesUsd +
          getTrxFeeUsd opts false lot.toTrx
        isSaleTrxHistFilled := true },
      { lot with
        buyFilledAmount := buyAmount
        proceedsForBuyTrxUsd :=
          lot.proceedsForBuyTrxUsd + buyRestAmount * sale.priceUsd
        isBuyTrxHistFilled := true })

/-- What one turn of a loop leaves: the sale, the lots and the context. -/
structure SaleScan (lots : Type) where
  trade : Trade
  lots : lots
  ctx : LookUpCtx
  exit : LookUpExit := .completed

/-- The body of the inner loop after its two early exits. -/
def matchLot (env : TaxEnv) (opts : LookUpOpts) (sale : Sale)
    (ctx : LookUpCtx) (trade lot : Trade) : SaleScan Trade :=
  if lot.isBuyTrxHistFilled || !lot.canBeLookedUp opts then
    { trade, lots := lot, ctx }
  else match lot.symbError? env with
    | some err =>
        { trade, lots := lot.withSymbs env, ctx, exit := .thrown err }
    | none =>
        if lot.isNoLot env then { trade, lots := lot.withSymbs env, ctx }
        else
          let lot := { lot.withSymbs env with isBuyTrx := true }
          if sale.asset ≠ lot.boughtAsset env then { trade, lots := lot, ctx }
          else
            let trade := { trade with
              buyTrxsForRealizedProfit :=
                trade.buyTrxsForRealizedProfit ++ [lot.mtsCreate] }
            match lot.buyPriceUsd opts with
            | none =>
                { trade := { trade with noPriceUsd := true }
                  lots := lot
                  ctx := ctx.setDelisted (lot.boughtAsset env) }
            | some buyPriceUsd =>
                let filled := fillLot opts sale buyPriceUsd trade lot
                { trade := filled.1, lots := filled.2, ctx }

/-- The inner loop over the lots in look-up order. -/
def lookUpLots (env : TaxEnv) (opts : LookUpOpts) (sale : Sale) :
    LookUpCtx → Trade → List Trade → SaleScan (List Trade)
  | ctx, trade, [] => { trade, lots := [], ctx }
  | ctx, trade, lot :: rest =>
      if ctx.hasInterrupted then
        { trade, lots := lot :: rest, ctx, exit := .interrupted }
      else if trade.isSaleTrxHistFilled then
        { trade, lots := lot :: rest, ctx := ctx.polled }
      else
        let head := matchLot env opts sale ctx.polled trade lot
        match head.exit with
        | .completed =>
            let tail := lookUpLots env opts sale head.ctx head.trade rest
            { tail with lots := head.lots :: tail.lots }
        | exit =>
            { trade := head.trade, lots := head.lots :: rest
              ctx := head.ctx, exit }

/-- How the sale loop enters a trade: it passes it over, throws, or looks up
lots for the sale. -/
inductive SaleOpening
  | skipped
  | thrown (err : CurrencyPairSeparationError)
  | opened (sale : Sale)
deriving DecidableEq, Repr

/-- The part of the sale loop before its inner loop. -/
def openSale (env : TaxEnv) (opts : LookUpOpts) (ctx : LookUpCtx)
    (trade : Trade) : Trade × LookUpCtx × SaleOpening :=
  if !trade.canBeLookedUp opts then (trade, ctx, .skipped)
  else
    let trade := { trade.withSymbs env with
      isSaleTrx := trade.sells env, isBuyTrx := trade.buys env }
    if !trade.isSaleTrx ||
        trade.isBuyTradesWithUnrealizedProfitForPrevPeriod then
      (trade, ctx, .skipped)
    else match trade.symbError? env with
      | some err => (trade, ctx, .thrown err)
      | none =>
          match trade.salePriceUsd opts with
          | none =>
              ({ trade with noPriceUsd := true },
                ctx.setDelisted (trade.soldAsset env), .skipped)
          | some priceUsd =>
              ({ trade with
                  cumulativeTrxFeesUsd := getTrxFeeUsd opts false trade.toTrx },
                ctx,
                .opened ⟨trade.soldAsset env, trade.soldAmount, priceUsd⟩)

/-- The earlier of the first and the last matched lot. -/
def mtsAcquired (buyTrxs : List ℕ) : Option ℕ :=
  match buyTrxs.head?, buyTrxs.getLast? with
  | some first, some last => if last < first then some last else some first
  | first?, _ => first?

/-- The part of the sale loop after its inner loop. -/
def closeSale (sale : Sale) (trade : Trade) : Trade :=
  { trade with
    saleAsset := some sale.asset
    saleAmount := some sale.amount
    mtsAcquiredForSaleTrx := mtsAcquired trade.buyTrxsForRealizedProfit
    mtsSoldForSaleTrx := some trade.mtsCreate
    proceedsForSaleTrxUsd := some (sale.amount * sale.priceUsd)
    gainOrLossUsd := some (sale.amount * sale.priceUsd -
      trade.costForSaleTrxUsd + trade.cumulativeTrxFeesUsd) }

/-- Walk the older trades in the direction of the buy look-up. -/
def buyLookUpOrder (opts : LookUpOpts) (older : List Trade) : List Trade :=
  if opts.isBackIterativeBuyLookUp then older.reverse else older

/-- One turn of the sale loop. -/
def lookUpSale (env : TaxEnv) (opts : LookUpOpts) (ctx : LookUpCtx)
    (trade : Trade) (older : List Trade) : SaleScan (List Trade) :=
  if ctx.hasInterrupted then
    { trade, lots := older, ctx, exit := .interrupted }
  else match openSale env opts ctx.polled trade with
    | (trade, ctx, .skipped) => { trade, lots := older, ctx }
    | (trade, ctx, .thrown err) =>
        { trade, lots := older, ctx, exit := .thrown err }
    | (trade, ctx, .opened sale) =>
        let scan := lookUpLots env opts sale ctx trade
          (buyLookUpOrder opts older)
        { scan with
          trade := if scan.exit = .completed then closeSale sale scan.trade
            else scan.trade
          lots := buyLookUpOrder opts scan.lots }

/-- The trades, the context and the exit after a run of the sale loop. -/
structure SaleRun where
  trades : List Trade
  ctx : LookUpCtx
  exit : LookUpExit := .completed

/-- The sale loop under `isBackIterativeSaleLookUp`: the oldest sale first. -/
def lookUpSalesBack (env : TaxEnv) (opts : LookUpOpts) (ctx : LookUpCtx) :
    List Trade → SaleRun
  | [] => { trades := [], ctx }
  | trade :: older =>
      let run := lookUpSalesBack env opts ctx older
      match run.exit with
      | .completed =>
          let scan := lookUpSale env opts run.ctx trade run.trades
          { trades := scan.trade :: scan.lots, ctx := scan.ctx
            exit := scan.exit }
      | _ => { run with trades := trade :: run.trades }

/-- The sale loop from the newest sale on, `n` being the number of trades it
has not come to yet. -/
def lookUpSalesForth (env : TaxEnv) (opts : LookUpOpts) :
    ℕ → LookUpCtx → List Trade → SaleRun
  | n + 1, ctx, trade :: older =>
      let scan := lookUpSale env opts ctx trade older
      match scan.exit with
      | .completed =>
          let run := lookUpSalesForth env opts n scan.ctx scan.lots
          { run with trades := scan.trade :: run.trades }
      | exit => { trades := scan.trade :: scan.lots, ctx := scan.ctx, exit }
  | _, ctx, trades => { trades, ctx }

def lookUpSales (env : TaxEnv) (opts : LookUpOpts) (ctx : LookUpCtx)
    (trades : List Trade) : SaleRun :=
  if opts.isBackIterativeSaleLookUp then lookUpSalesBack env opts ctx trades
  else lookUpSalesForth env opts trades.length ctx trades

/-- An entry of the report.  `none` is `null`, or a number that is not
finite. -/
structure TaxEntry where
  asset : String
  amount : Option ℚ
  mtsAcquired : Option ℕ
  mtsSold : Option ℕ
  proceeds : Option ℚ
  cost : Option ℚ
  gainOrLoss : Option ℚ
  type : TrxTaxType
deriving DecidableEq, Repr

/-- The lots that the final loop hands over to the next period. -/
def isUnrealized (opts : LookUpOpts) (trade : Trade) : Bool :=
  !trade.noPriceUsd && opts.isBuyTradesWithUnrealizedProfitRequired &&
    trade.isBuyTrx && !trade.isBuyTrxHistFilled

/-- The final loop's flag for a trade. -/
def markUnrealized (opts : LookUpOpts) (trade : Trade) : Trade :=
  if isUnrealized opts trade then
    { trade with isBuyTradesWithUnrealizedProfitForPrevPeriod := true }
  else trade

/-- The proceeds of a taxable payment, `NaN` where a factor is missing. -/
def paymentProceeds (opts : LookUpOpts) (trade : Trade) : Option ℚ :=
  match trade.execAmount, trade.firstSymbPriceUsd with
  | some amount, some priceUsd =>
      some (amount * priceUsd + getTrxFeeUsd opts true trade.toTrx)
  | _, _ => none

/-- The entry that the final loop pushes for a trade. -/
def pushedEntry (opts : LookUpOpts) (trade : Trade) : Option TaxEntry :=
  if trade.noPriceUsd || opts.isBuyTradesWithUnrealizedProfitRequired ||
      trade.isBuyTradesWithUnrealizedProfitForPrevPeriod ||
      (!trade.isTaxablePayment &&
        (!trade.isSaleTrx || trade.isAdditionalTrxMovements)) then none
  else if trade.isTaxablePayment then
    some {
      asset := trade.firstSymb
      amount := trade.execAmount
      mtsAcquired := some trade.mtsCreate
      mtsSold := none
      proceeds := paymentProceeds opts trade
      cost := none
      gainOrLoss := paymentProceeds opts trade
      type := getTrxTaxType trade.toTrx }
  else
    some {
      asset := trade.saleAsset.getD ""
      amount := some (trade.saleAmount.getD 0)
      mtsAcquired := trade.mtsAcquiredForSaleTrx
      mtsSold := trade.mtsSoldForSaleTrx
      proceeds := some (trade.proceedsForSaleTrxUsd.getD 0)
      cost := some trade.costForSaleTrxUsd
      gainOrLoss := some (trade.gainOrLossUsd.getD 0)
      type := getTrxTaxType trade.toTrx }

/-- What the caller sees of a look-up: the two lists, the array as the loops
left it, and how they were left. -/
structure LookUpResult where
  saleTradesWithRealizedProfit : List TaxEntry := []
  buyTradesWithUnrealizedProfit : List Trade := []
  trades : List Trade
  ctx : LookUpCtx
  exit : LookUpExit

def lookUpTrades (env : TaxEnv) (opts : LookUpOpts) (ctx : LookUpCtx)
    (trades : List Trade) : LookUpResult :=
  let run := lookUpSales env opts ctx trades
  match run.exit with
  | .completed =>
      { saleTradesWithRealizedProfit := run.trades.filterMap (pushedEntry opts)
        buyTradesWithUnrealizedProfit :=
          (run.trades.filter (isUnrealized opts)).map (markUnrealized opts)
        trades := run.trades.map (markUnrealized opts)
        ctx := run.ctx
        exit := .completed }
  | exit => { trades := run.trades, ctx := run.ctx, exit }

end ReportsFramework
