/-
`#convertCurrencies`: the prices of the transactions from pages of public trades.  A page
that was fetched for one calculator of a currency is used for the next ones too, as long as
it covers their time.
-/
import ReportsFramework.Bisection
import ReportsFramework.LookUpTrades
import ReportsFramework.TrxPricing

namespace ReportsFramework

/-- What is read of a public trade.  The price is `none` where it is not finite. -/
structure PubTrade where
  mts : ℕ
  price : Option ℚ
deriving DecidableEq, Repr

/-- The public trades of a pair up to a time, newest first, and the synonyms of a currency
with their conversions. -/
structure PriceSource where
  publicTrades : String → ℕ → List PubTrade
  ccySynonymous : String → Option (List (String × ℚ))

section Window

/-- The position where the bisection ends; `endIndex` is the last one before `stop`. -/
def findPublicTrade (pubTrades : List PubTrade) (mts : ℕ) : Option PubTrade :=
  (Bisection.search
      (fun middleIndex => (pubTrades[middleIndex]?.map fun pubTrade =>
        compare pubTrade.mts mts).getD .lt)
      pubTrades.length).bind
    (pubTrades[·]?)

/-- `CRYPTO_CCY_FOR_TRIANGULATION > 3` compares a text with a number and is false. -/
def getCcyPairForConversion (symbol : String) (calculator : TrxPriceCalculator) : String :=
  let symbSeparator := if 3 < symbol.length then ":" else ""
  if calculator.kindOfCcyForTriangulation = some .isForexCcyForTriangulation then
    "t" ++ cryptoCcyForTriangulation ++ symbSeparator ++ symbol
  else "t" ++ symbol ++ symbSeparator ++ "USD"

/-- `pubTrades` with its bounds, `none` where they are undefined. -/
structure PriceWindow where
  pubTrades : List PubTrade := []
  pubTradeStart : Option ℕ := none
  pubTradeEnd : Option ℕ := none
deriving DecidableEq, Repr

namespace PriceWindow

def isOutside (window : PriceWindow) (mts : ℕ) : Bool :=
  window.pubTradeStart.any (mts < ·) || window.pubTradeEnd.any (· < mts)

/-- The page of a fetch up to `mts`. -/
def ofPage (pubTrades : List PubTrade) (mts : ℕ) : PriceWindow where
  pubTrades := pubTrades
  pubTradeStart := pubTrades.getLast?.map (·.mts)
  pubTradeEnd := some mts

/-- The trade that a price is taken from. -/
def find? (window : PriceWindow) (mts : ℕ) : Option PubTrade :=
  if window.pubTrades.isEmpty || window.pubTradeStart.isNone || window.pubTradeEnd.isNone ||
      window.isOutside mts then none
  else findPublicTrade window.pubTrades mts

end PriceWindow

end Window

section Fetch

/-- `#getPublicTrades`; an interrupted one has no trades. -/
def getPublicTrades (source : PriceSource) (ctx : LookUpCtx) (symbol : String) (finish : ℕ) :
    List PubTrade × LookUpCtx :=
  if ctx.hasInterrupted then ([], ctx) else (source.publicTrades symbol finish, ctx.polled)

def PubTrade.convert (conversion : ℚ) (pubTrade : PubTrade) : PubTrade :=
  { pubTrade with price := pubTrade.price.map (· * conversion) }

/-- The loop over the synonyms, `none` if it is interrupted. -/
def fetchSynonymous (source : PriceSource) (calculator : TrxPriceCalculator) (finish : ℕ) :
    LookUpCtx → List (String × ℚ) → Option (List PubTrade) × LookUpCtx
  | ctx, [] => (some [], ctx)
  | ctx, (symbol, conversion) :: synonymous =>
      if ctx.hasInterrupted then (none, ctx)
      else
        let (res, ctx) := getPublicTrades source ctx.polled
          (getCcyPairForConversion symbol calculator) finish
        if res.isEmpty then fetchSynonymous source calculator finish ctx synonymous
        else (some (res.map (PubTrade.convert conversion)), ctx)

/-- How a turn comes to the trades it looks its price up in. -/
inductive Refreshed
  | interrupted (ctx : LookUpCtx)
  | delisted (window : PriceWindow) (ctx : LookUpCtx)
  | ready (window : PriceWindow) (ctx : LookUpCtx)

/-- The window as it is, or one that is fetched afresh. -/
def refresh (source : PriceSource) (symbol : String) (calculator : TrxPriceCalculator) (mts : ℕ)
    (ctx : LookUpCtx) (window : PriceWindow) : Refreshed :=
  if window.pubTrades.isEmpty || window.isOutside mts then
    let (pubTrades, ctx) :=
      getPublicTrades source ctx (getCcyPairForConversion symbol calculator) mts
    if pubTrades.isEmpty then
      match calculator.kindOfCcyForTriangulation, source.ccySynonymous symbol with
      | none, some synonymous =>
          match fetchSynonymous source calculator mts ctx synonymous with
          | (none, ctx) => .interrupted ctx
          | (some pubTrades, ctx) => .ready (.ofPage pubTrades mts) ctx
      | _, _ =>
          if ctx.hasInterrupted then .interrupted ctx
          else .delisted { window with pubTrades := [] } (ctx.polled.setDelisted symbol)
    else .ready (.ofPage pubTrades mts) ctx
  else .ready window ctx

end Fetch

section Conversion

/-- The transactions, and the price that the crypto calculator of each of them has taken. -/
structure ConvState where
  trxs : List ReportTrx
  cryptoPrices : ℕ → Option ℚ
  ctx : LookUpCtx

inductive ConvExit
  | completed
  | interrupted
  | thrown (err : PubTradePriceFindForTrxTaxError)
deriving DecidableEq, Repr

structure ConvTurn where
  state : ConvState
  window : PriceWindow
  exit : ConvExit := .completed

/-- What a calculator does with a public trade. -/
def calcFrom (state : ConvState) (calculator : TrxPriceCalculator) (trx : ReportTrx)
    (pubTrade : PubTrade) : Except PubTradePriceFindForTrxTaxError ConvState :=
  match calculator.calcPrice pubTrade.price (state.cryptoPrices calculator.trx) trx with
  | .error err => .error err
  | .ok trx => .ok { state with
      trxs := state.trxs.set calculator.trx trx
      cryptoPrices :=
        if calculator.kindOfCcyForTriangulation = some .isCryptoCcyForTriangulation then
          Function.update state.cryptoPrices calculator.trx pubTrade.price
        else state.cryptoPrices }

/-- The end of a turn: the price is looked up in the window. -/
def takePrice (symbol : String) (state : ConvState) (window : PriceWindow)
    (calculator : TrxPriceCalculator) (trx : ReportTrx) : ConvTurn :=
  match window.find? trx.mtsCreate with
  | none =>
      if state.ctx.hasInterrupted then { state, window, exit := .interrupted }
      else { state := { state with ctx := state.ctx.polled.setDelisted symbol }, window }
  | some pubTrade =>
      match calcFrom state calculator trx pubTrade with
      | .error err => { state, window, exit := .thrown err }
      | .ok state => { state, window }

/-- One turn of the inner loop after its poll. -/
def convTurn (source : PriceSource) (symbol : String) (state : ConvState) (window : PriceWindow)
    (calculator : TrxPriceCalculator) (trx : ReportTrx) : ConvTurn :=
  match refresh source symbol calculator trx.mtsCreate state.ctx window with
  | .interrupted ctx => { state := { state with ctx }, window, exit := .interrupted }
  | .delisted window ctx => { state := { state with ctx }, window }
  | .ready window ctx => takePrice symbol { state with ctx } window calculator trx

/-- The loop over the calculators of a currency. -/
def convertCcy (source : PriceSource) (symbol : String) :
    ConvState → PriceWindow → List TrxPriceCalculator → ConvTurn
  | state, window, [] => { state, window }
  | state, window, calculator :: calculators =>
      if state.ctx.hasInterrupted then { state, window, exit := .interrupted }
      else match state.trxs[calculator.trx]? with
        | none => convertCcy source symbol state window calculators
        | some trx =>
            let turn := convTurn source symbol { state with ctx := state.ctx.polled } window
              calculator trx
            match turn.exit with
            | .completed => convertCcy source symbol turn.state turn.window calculators
            | _ => turn

structure ConvRun where
  state : ConvState
  exit : ConvExit := .completed

/-- The loop over the currencies. -/
def convertMap (source : PriceSource) :
    ConvState → List (String × List TrxPriceCalculator) → ConvRun
  | state, [] => { state }
  | state, (symbol, calculators) :: map =>
      if state.ctx.hasInterrupted then { state, exit := .interrupted }
      else
        let turn := convertCcy source symbol { state with ctx := state.ctx.polled } {} calculators
        match turn.exit with
        | .completed => convertMap source turn.state map
        | exit => { state := turn.state, exit }

/-- `#convertCurrencies` up to the update of the stored values; the progress that it emits
is left out. -/
def convertCurrencies (env : TaxEnv) (source : PriceSource) (ctx : LookUpCtx)
    (trxs : List ReportTrx) : ConvRun :=
  convertMap source ⟨trxs, fun _ => none, ctx⟩ (getTrxMapByCcy env trxs)

end Conversion

end ReportsFramework
