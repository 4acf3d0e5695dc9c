/-
The transactions of the tax report.  `remapTrades` and `remapMovements` bring
trades, deposits, withdrawals and payments to one record; `lookUpTrades` keeps
its own bookkeeping on the same objects.
-/
import Mathlib.Data.Rat.Floor

namespace ReportsFramework

/-- `getTrxTaxType` of a transaction. -/
inductive TrxTaxType
  | airdropOnWallet
  | marginFundingPayment
  | affiliateRebate
  | stakingPayment
  | exchange
deriving DecidableEq, Repr

/-- The fields that the remap helpers set.  A numeric field is `none` where
`Number.isFinite` answers false (`null`, `undefined`, `NaN`, infinities), a
symbol field is empty where it is falsy.  `BigNumber` takes a number by its
decimal text and adds, subtracts and multiplies exactly, hence `ℚ`. -/
structure Trx where
  symbol : String
  mtsCreate : ℕ
  firstSymb : String := ""
  lastSymb : String := ""
  execAmount : Option ℚ
  execPrice : Option ℚ
  firstSymbPriceUsd : Option ℚ := none
  lastSymbPriceUsd : Option ℚ := none
  trxFee : Option ℚ := some 0
  trxFeeCcy : String := ""
  isAdditionalTrxMovements : Bool := false
  isTaxablePayment : Bool := false
  isAirdropOnWallet : Bool := false
  isMarginFundingPayment : Bool := false
  isAffiliateRebate : Bool := false
  isStakingPayments : Bool := false
deriving DecidableEq, Repr

def getTrxTaxType (trx : Trx) : TrxTaxType :=
  if trx.isAirdropOnWallet then .airdropOnWallet
  else if trx.isMarginFundingPayment then .marginFundingPayment
  else if trx.isAffiliateRebate then .affiliateRebate
  else if trx.isStakingPayments then .stakingPayment
  else .exchange

/-- What `lookUpTrades` keeps on a transaction as a sale; the defaults are the
ones it gives to an object it meets for the first time.  It pushes the matched
lots themselves to `buyTrxsForRealizedProfit` and reads only their `mtsCreate`
afterwards, so that is what the list holds. -/
structure SaleBook where
  isSaleTrx : Bool := false
  isSaleTrxHistFilled : Bool := false
  saleFilledAmount : ℚ := 0
  costForSaleTrxUsd : ℚ := 0
  buyTrxsForRealizedProfit : List ℕ := []
  cumulativeTrxFeesUsd : ℚ := 0
  noPriceUsd : Bool := false
  saleAsset : Option String := none
  saleAmount : Option ℚ := none
  mtsAcquiredForSaleTrx : Option ℕ := none
  mtsSoldForSaleTrx : Option ℕ := none
  proceedsForSaleTrxUsd : Option ℚ := none
  gainOrLossUsd : Option ℚ := none
deriving DecidableEq, Repr

/-- What it keeps on a transaction as a lot. -/
structure BuyBook where
  isBuyTrx : Bool := false
  isBuyTrxHistFilled : Bool := false
  buyFilledAmount : ℚ := 0
  proceedsForBuyTrxUsd : ℚ := 0
  isBuyTradesWithUnrealizedProfitForPrevPeriod : Bool := false
deriving DecidableEq, Repr

structure Trade extends Trx, SaleBook, BuyBook
deriving DecidableEq, Repr

/-- An object that no look-up has seen. -/
def Trade.ofTrx (trx : Trx) : Trade := { toTrx := trx }

/-- What the helpers take from the `bfx-report` package. -/
structure TaxEnv where
  forexSymbs : List String
  splitSymbolPairs : String → String × String

def TaxEnv.isForexSymb (env : TaxEnv) (currSymb : String) : Bool :=
  env.forexSymbs.any fun symb => symb == currSymb

/-- The options of `lookUpTrades`. -/
structure LookUpOpts where
  isBackIterativeSaleLookUp : Bool := false
  isBackIterativeBuyLookUp : Bool := false
  isBuyTradesWithUnrealizedProfitRequired : Bool := false
  isNotGainOrLossRequired : Bool := false
  shouldFeesBeDeducted : Bool := false
deriving DecidableEq, Repr

/-- `BigNumber.div` under the default configuration: 20 decimal places, half
rounded away from zero. -/
def bigNumberDiv (x y : ℚ) : ℚ :=
  let scaled := x / y * 10 ^ 20
  if scaled < 0 then -((⌊-scaled + 1 / 2⌋ : ℤ) : ℚ) / 10 ^ 20
  else ((⌊scaled + 1 / 2⌋ : ℤ) : ℚ) / 10 ^ 20

def getTrxFeeUsd (opts : LookUpOpts) (shouldTaxablePaymentFlagBeSkipped : Bool)
    (trx : Trx) : ℚ :=
  if opts.isNotGainOrLossRequired || !opts.shouldFeesBeDeducted ||
      (!shouldTaxablePaymentFlagBeSkipped && trx.isTaxablePayment) then 0
  else match trx.trxFee with
    | none => 0
    | some trxFee =>
        if trx.trxFeeCcy = trx.firstSymb ∧ trx.firstSymbPriceUsd.isSome then
          trxFee * trx.firstSymbPriceUsd.getD 0
        else if trx.trxFeeCcy = trx.lastSymb ∧
            trx.lastSymbPriceUsd.isSome then
          trxFee * trx.lastSymbPriceUsd.getD 0
        else 0

theorem getTrxFeeUsd_of_not_deducted {opts : LookUpOpts}
    (hfees : opts.shouldFeesBeDeducted = false) (skipped : Bool) (trx : Trx) :
    getTrxFeeUsd opts skipped trx = 0 := by
  simp [getTrxFeeUsd, hfees]

end ReportsFramework
