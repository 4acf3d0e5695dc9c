/-
`remapTrades` and `remapMovements`: how the rows of trades and movements become the
transactions of the tax report, with the prices their stored USD value gives.
-/
import ReportsFramework.TaxTrx

namespace ReportsFramework

/-- What the remap reads of a trade.  A number is `none` where it is not finite. -/
structure TradeRow where
  _id : ℕ
  symbol : String
  mtsCreate : Option ℕ
  execAmount : Option ℚ
  execPrice : Option ℚ
  fee : Option ℚ
  feeCurrency : String
  exactUsdValue : Option ℚ
deriving DecidableEq, Repr

/-- What the remap reads of a movement, or of a ledger that is taken for one. -/
structure MovementRow where
  _id : ℕ
  currency : String
  mtsUpdated : Option ℕ
  amount : Option ℚ
  fees : Option ℚ
  exactUsdValue : Option ℚ
  isLedgers : Bool
  _isAirdropOnWallet : Bool
  _isMarginFundingPayment : Bool
  _isAffiliateRebate : Bool
  _isStakingPayments : Bool
deriving DecidableEq, Repr

/-- A transaction with the row it is from and its value in USD. -/
structure ReportTrx extends Trx where
  _id : ℕ
  exactUsdValue : Option ℚ
  isTrades : Bool
  isMovements : Bool
  isLedgers : Bool
deriving DecidableEq, Repr

/-- A row is passed over, or pushed to `remappedTrxs`, and to `remappedTrxsForConvToUsd`
too where it has no prices yet. -/
inductive Remapped
  | skipped
  | priced (trx : ReportTrx)
  | forConvToUsd (trx : ReportTrx)
deriving DecidableEq, Repr

/-- The two lists of the params; they hold the same objects. -/
structure RemapParams where
  remappedTrxs : List ReportTrx
  remappedTrxsForConvToUsd : List ReportTrx
deriving DecidableEq, Repr

def RemapParams.push (params : RemapParams) : Remapped → RemapParams
  | .skipped => params
  | .priced trx => { params with remappedTrxs := params.remappedTrxs ++ [trx] }
  | .forConvToUsd trx =>
      { remappedTrxs := params.remappedTrxs ++ [trx]
        remappedTrxsForConvToUsd := params.remappedTrxsForConvToUsd ++ [trx] }

/-- What is pushed for a row. -/
def Remapped.trx? : Remapped → Option ReportTrx
  | .skipped => none
  | .priced trx => some trx
  | .forConvToUsd trx => some trx

/-- A number that is finite and not 0. -/
def nonzero? (x : Option ℚ) : Option ℚ := x.filter (· ≠ 0)

section Trades

/-- The transaction of a trade, still without prices. -/
def TradeRow.trx (trade : TradeRow) (symbs : String × String) (mtsCreate : ℕ)
    (execAmount execPrice : ℚ) : ReportTrx where
  _id := trade._id
  symbol := trade.symbol
  mtsCreate := mtsCreate
  firstSymb := symbs.1
  lastSymb := symbs.2
  execAmount := some execAmount
  execPrice := some execPrice
  exactUsdValue := trade.exactUsdValue
  trxFee := some (trade.fee.getD 0)
  trxFeeCcy := trade.feeCurrency
  isTrades := true
  isMovements := false
  isLedgers := false

/-- The quotients are exact here. -/
def remapTrade (env : TaxEnv) (trade : TradeRow) : Remapped :=
  match trade.mtsCreate, nonzero? trade.execAmount, nonzero? trade.execPrice with
  | some mtsCreate, some execAmount, some execPrice =>
      if trade.symbol = "" then .skipped
      else
        let symbs := env.splitSymbolPairs trade.symbol
        let trx := trade.trx symbs mtsCreate execAmount execPrice
        if symbs.2 = "USD" then
          .priced { trx with
            firstSymbPriceUsd := some execPrice
            lastSymbPriceUsd := some 1 }
        else match nonzero? trade.exactUsdValue with
          | some exactUsdValue =>
              .priced { trx with
                firstSymbPriceUsd := some |exactUsdValue / execAmount|
                lastSymbPriceUsd := some |exactUsdValue / (execAmount * execPrice)| }
          | none => .forConvToUsd trx
  | _, _, _ => .skipped

def remapTrades (env : TaxEnv) (trades : List TradeRow) (params : RemapParams) : RemapParams :=
  trades.foldl (fun params trade => params.push (remapTrade env trade)) params

/-- `#updateExactUsdValueInColls` of a trade. -/
def TradeRow.updateExactUsdValue (trade : TradeRow) (exactUsdValue : Option ℚ) : TradeRow :=
  { trade with exactUsdValue }

end Trades

section Movements

def MovementRow.isTaxablePayment (movement : MovementRow) : Bool :=
  movement._isAirdropOnWallet || movement._isMarginFundingPayment ||
    movement._isAffiliateRebate || movement._isStakingPayments

/-- The transaction of a movement; its `execPrice` is set with its price. -/
def MovementRow.trx (movement : MovementRow) (mtsUpdated : ℕ) (amount : ℚ) : ReportTrx where
  _id := movement._id
  symbol := "t" ++ movement.currency ++ (if 3 < movement.currency.length then ":" else "") ++ "USD"
  mtsCreate := mtsUpdated
  firstSymb := movement.currency
  lastSymb := "USD"
  lastSymbPriceUsd := some 1
  execAmount := some amount
  execPrice := some 0
  exactUsdValue := movement.exactUsdValue
  trxFee := some (movement.fees.getD 0)
  trxFeeCcy := movement.currency
  isAdditionalTrxMovements := true
  isTaxablePayment := movement.isTaxablePayment
  isAirdropOnWallet := movement._isAirdropOnWallet
  isMarginFundingPayment := movement._isMarginFundingPayment
  isAffiliateRebate := movement._isAffiliateRebate
  isStakingPayments := movement._isStakingPayments
  isTrades := false
  isMovements := !movement.isLedgers
  isLedgers := movement.isLedgers

/-- A movement at a price. -/
def ReportTrx.atPrice (trx : ReportTrx) (price : ℚ) : ReportTrx :=
  { trx with firstSymbPriceUsd := some price, execPrice := some price }

def remapMovement (env : TaxEnv) (movement : MovementRow) : Remapped :=
  match movement.mtsUpdated, nonzero? movement.amount with
  | some mtsUpdated, some amount =>
      if movement.currency = "" ∨
          (!movement.isTaxablePayment && env.isForexSymb movement.currency) then .skipped
      else
        let trx := movement.trx mtsUpdated amount
        if movement.isTaxablePayment ∧ movement.currency = "USD" then .priced (trx.atPrice 1)
        else match nonzero? movement.exactUsdValue with
          | some exactUsdValue => .priced (trx.atPrice |exactUsdValue / amount|)
          | none => .forConvToUsd trx
  | _, _ => .skipped

def remapMovements (env : TaxEnv) (movements : List MovementRow) (params : RemapParams) :
    RemapParams :=
  movements.foldl (fun params movement => params.push (remapMovement env movement)) params

def MovementRow.updateExactUsdValue (movement : MovementRow) (exactUsdValue : Option ℚ) :
    MovementRow :=
  { movement with exactUsdValue }

end Movements

section Lemmas

@[simp] theorem mem_remappedTrxs_push {params : RemapParams} {remapped : Remapped}
    {trx : ReportTrx} :
    trx ∈ (params.push remapped).remappedTrxs ↔
      trx ∈ params.remappedTrxs ∨ remapped.trx? = some trx := by
  cases remapped <;> simp [RemapParams.push, Remapped.trx?, eq_comm]

theorem mem_remappedTrxs_foldl {Row : Type} (remap : Row → Remapped) (rows : List Row)
    {params : RemapParams} {trx : ReportTrx} :
    trx ∈ (rows.foldl (fun params row => params.push (remap row)) params).remappedTrxs ↔
      trx ∈ params.remappedTrxs ∨ ∃ row ∈ rows, (remap row).trx? = some trx := by
  induction rows generalizing params with
  | nil => simp
  | cons row rows ih => simp [ih, or_assoc]

theorem nonzero?_eq_some {x : Option ℚ} {y : ℚ} : nonzero? x = some y ↔ x = some y ∧ y ≠ 0 := by
  simp [nonzero?, Option.filter_eq_some_iff]

theorem nonzero?_some {y : ℚ} (h : y ≠ 0) : nonzero? (some y) = some y :=
  nonzero?_eq_some.mpr ⟨rfl, h⟩

variable {env : TaxEnv}

/-- A trade that is to be converted has amounts, no dollar leg and no stored value. -/
theorem remapTrade_forConvToUsd {trade : TradeRow} {trx : ReportTrx}
    (h : remapTrade env trade = .forConvToUsd trx) :
    trade.symbol ≠ "" ∧ (env.splitSymbolPairs trade.symbol).2 ≠ "USD" ∧
      ∃ mtsCreate execAmount execPrice, trade.mtsCreate = some mtsCreate ∧
        nonzero? trade.execAmount = some execAmount ∧
        nonzero? trade.execPrice = some execPrice ∧
        trx = trade.trx (env.splitSymbolPairs trade.symbol) mtsCreate execAmount execPrice := by
  unfold remapTrade at h
  split at h
  next mtsCreate execAmount execPrice hmts hamount hprice =>
    split at h
    · cases h
    next hsymbol =>
      dsimp only at h
      split at h
      · cases h
      next husd =>
        split at h
        · cases h
        · cases h
          exact ⟨hsymbol, husd, mtsCreate, execAmount, execPrice, hmts, hamount, hprice, rfl⟩
  · cases h

/-- Its prices once a value is stored. -/
theorem remapTrade_updateExactUsdValue {trade : TradeRow} {mtsCreate : ℕ}
    {execAmount execPrice exactUsdValue : ℚ} (hsymbol : trade.symbol ≠ "")
    (husd : (env.splitSymbolPairs trade.symbol).2 ≠ "USD")
    (hmts : trade.mtsCreate = some mtsCreate)
    (hamount : nonzero? trade.execAmount = some execAmount)
    (hprice : nonzero? trade.execPrice = some execPrice) (hvalue : exactUsdValue ≠ 0) :
    remapTrade env (trade.updateExactUsdValue (some exactUsdValue)) = .priced
      { trade.trx (env.splitSymbolPairs trade.symbol) mtsCreate execAmount execPrice with
        exactUsdValue := some exactUsdValue
        firstSymbPriceUsd := some |exactUsdValue / execAmount|
        lastSymbPriceUsd := some |exactUsdValue / (execAmount * execPrice)| } := by
  simp [remapTrade, TradeRow.updateExactUsdValue, TradeRow.trx, hsymbol, husd, hmts, hamount,
    hprice, nonzero?_some hvalue]

/-- A movement that is to be converted has an amount and no stored value; it is no payment
in dollars. -/
theorem remapMovement_forConvToUsd {movement : MovementRow} {trx : ReportTrx}
    (h : remapMovement env movement = .forConvToUsd trx) :
    (movement.currency ≠ "" ∧
        ¬ (!movement.isTaxablePayment && env.isForexSymb movement.currency) = true) ∧
      ¬ (movement.isTaxablePayment = true ∧ movement.currency = "USD") ∧
      ∃ mtsUpdated amount, movement.mtsUpdated = some mtsUpdated ∧
        nonzero? movement.amount = some amount ∧ trx = movement.trx mtsUpdated amount := by
  unfold remapMovement at h
  split at h
  next mtsUpdated amount hmts hamount =>
    split at h
    · cases h
    next hcurrency =>
      dsimp only at h
      split at h
      · cases h
      next husd =>
        split at h
        · cases h
        · cases h
          exact ⟨not_or.mp hcurrency, husd, mtsUpdated, amount, hmts, hamount, rfl⟩
  · cases h

theorem remapMovement_updateExactUsdValue {movement : MovementRow} {mtsUpdated : ℕ}
    {amount exactUsdValue : ℚ}
    (hcurrency : movement.currency ≠ "" ∧
      ¬ (!movement.isTaxablePayment && env.isForexSymb movement.currency) = true)
    (husd : ¬ (movement.isTaxablePayment = true ∧ movement.currency = "USD"))
    (hmts : movement.mtsUpdated = some mtsUpdated)
    (hamount : nonzero? movement.amount = some amount) (hvalue : exactUsdValue ≠ 0) :
    remapMovement env (movement.updateExactUsdValue (some exactUsdValue)) = .priced
      ({ movement.trx mtsUpdated amount with
        exactUsdValue := some exactUsdValue }.atPrice |exactUsdValue / amount|) := by
  unfold remapMovement MovementRow.updateExactUsdValue
  simp only [hmts, hamount, nonzero?_some hvalue]
  rw [if_neg, if_neg]
  · rfl
  · exact husd
  · exact not_or.mpr hcurrency

end Lemmas

end ReportsFramework
