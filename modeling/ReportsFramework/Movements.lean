/-
The stored history behind the tax report: `getMovements` with the ledgers that count as
movements, `#getTrades` and `#getTrxs`.
-/
import Mathlib.Data.List.Sort
import ReportsFramework.TrxRemap

namespace ReportsFramework

/-- A trade with what its query reads of it besides. -/
structure StoredTrade extends TradeRow where
  user_id : ℕ
  _isExchange : Bool
deriving DecidableEq, Repr

/-- A deposit or a withdrawal: what the queries and the remap read of it. -/
structure StoredMovement where
  _id : ℕ
  user_id : ℕ
  currency : String
  mtsStarted : ℕ
  mtsUpdated : ℕ
  status : Option String
  amount : Option ℚ
  fees : Option ℚ
  exactUsdValue : Option ℚ
  mtsStarted_le : mtsStarted ≤ mtsUpdated
deriving DecidableEq, Repr

structure StoredLedger where
  _id : ℕ
  id : ℕ
  user_id : ℕ
  currency : String
  mts : ℕ
  amount : Option ℚ
  exactUsdValue : Option ℚ
  _isSubAccountsTransfer : Bool
  _isInvoicePayOrder : Bool
  _isAirdropOnWallet : Bool
  _isMarginFundingPayment : Bool
  _isAffiliateRebate : Bool
  _isStakingPayments : Bool
deriving DecidableEq, Repr

structure TaxStore where
  trades : List StoredTrade
  movements : List StoredMovement
  ledgers : List StoredLedger

section Filters

inductive MtsField
  | mtsStarted
  | mtsUpdated
deriving DecidableEq, Repr

/-- The operators of a filter of movements, `none` where it has not the key.  The bounds of
`$lt` and `$gt` are on the amount, the texts of `$eq` and `$not` on the status. -/
structure MovementFilter where
  gte : Option (List (MtsField × ℕ)) := none
  lte : Option (List (MtsField × ℕ)) := none
  lt : Option ℚ := none
  gt : Option ℚ := none
  eq : Option String := none
  ne : Option String := none
deriving DecidableEq, Repr

/-- The keys of the second object win. -/
def mergeKeys (left right : List (MtsField × ℕ)) : List (MtsField × ℕ) :=
  left.filter (fun entry => !right.any (·.1 == entry.1)) ++ right

def mergeBounds : Option (List (MtsField × ℕ)) → Option (List (MtsField × ℕ)) →
    Option (List (MtsField × ℕ))
  | some left, some right => some (mergeKeys left right)
  | left, right => right.or left

/-- `merge` goes into the objects of the operators. -/
def MovementFilter.merge (left right : MovementFilter) : MovementFilter where
  gte := mergeBounds left.gte right.gte
  lte := mergeBounds left.lte right.lte
  lt := right.lt.or left.lt
  gt := right.gt.or left.gt
  eq := right.eq.or left.eq
  ne := right.ne.or left.ne

/-- `{ ...left, ...right }` does not: the operator of the second filter stands alone. -/
def MovementFilter.spread (left right : MovementFilter) : MovementFilter where
  gte := right.gte.or left.gte
  lte := right.lte.or left.lte
  lt := right.lt.or left.lt
  gt := right.gt.or left.gt
  eq := right.eq.or left.eq
  ne := right.ne.or left.ne

def StoredMovement.mtsOf (movement : StoredMovement) : MtsField → ℕ
  | .mtsStarted => movement.mtsStarted
  | .mtsUpdated => movement.mtsUpdated

/-- The `WHERE` of a filter; a comparison with `NULL` does not hold. -/
def MovementFilter.holds (filter : MovementFilter) (movement : StoredMovement) : Bool :=
  (filter.gte.getD []).all (fun (field, mts) => mts ≤ movement.mtsOf field) &&
  (filter.lte.getD []).all (fun (field, mts) => movement.mtsOf field ≤ mts) &&
  filter.lt.all (fun bound => movement.amount.any (· < bound)) &&
  filter.gt.all (fun bound => movement.amount.any (bound < ·)) &&
  filter.eq.all (fun status => movement.status == some status) &&
  filter.ne.all (fun status => movement.status.any (· != status))

end Filters

section Queries

/-- The params of `getMovements`; those that the report never gives are left out. -/
structure MovementsParams where
  user_id : ℕ
  start : ℕ
  finish : ℕ
  isWithdrawals : Bool := false
  isDeposits : Bool := false
  isMovementsWithoutSATransferLedgers : Bool := false
  areExtraPaymentsIncluded : Bool := false
deriving DecidableEq, Repr

namespace MovementsParams

def withdrawalsFilter (params : MovementsParams) : MovementFilter :=
  if params.isWithdrawals then {
    ne := some "CANCELED"
    lt := some 0
    gte := some [(.mtsStarted, params.start)]
    lte := some [(.mtsStarted, params.finish)] }
  else {}

def depositsFilter (params : MovementsParams) : MovementFilter :=
  if params.isDeposits then {
    eq := some "COMPLETED"
    gt := some 0
    gte := some [(.mtsUpdated, params.start)]
    lte := some [(.mtsUpdated, params.finish)] }
  else {}

/-- The filter of the movements, without that of the user. -/
def filter (params : MovementsParams) : MovementFilter :=
  MovementFilter.spread
    { gte := some [(.mtsUpdated, params.start)], lte := some [(.mtsUpdated, params.finish)] }
    ((({} : MovementFilter).merge params.withdrawalsFilter).merge params.depositsFilter)

/-- What both queries of ledgers ask for. -/
def holdsOfLedger (params : MovementsParams) (ledger : StoredLedger) : Bool :=
  ledger.user_id == params.user_id && params.start ≤ ledger.mts && ledger.mts ≤ params.finish &&
    (!params.isWithdrawals || ledger.amount.any (· < 0)) &&
    (!params.isDeposits || ledger.amount.any (0 < ·))

end MovementsParams

/-- Newest first, and by the id then. -/
def ledgersOrder (left right : StoredLedger) : Prop :=
  right.mts < left.mts ∨ right.mts = left.mts ∧ right.id ≤ left.id

instance : DecidableRel ledgersOrder := fun _ _ => inferInstanceAs (Decidable (_ ∨ _))

def getSubAccountsTransferLedgers (store : TaxStore) (params : MovementsParams) :
    List StoredLedger :=
  (store.ledgers.filter fun ledger =>
    ledger._isSubAccountsTransfer && params.holdsOfLedger ledger).insertionSort ledgersOrder

/-- The payments among the ledgers. -/
def StoredLedger.isExtraPayment (ledger : StoredLedger) (areExtraPaymentsIncluded : Bool) : Bool :=
  ledger._isInvoicePayOrder || (areExtraPaymentsIncluded &&
    (ledger._isAirdropOnWallet || ledger._isMarginFundingPayment || ledger._isAffiliateRebate ||
      ledger._isStakingPayments))

def getExtraMovements (store : TaxStore) (params : MovementsParams) : List StoredLedger :=
  (store.ledgers.filter fun ledger => ledger.isExtraPayment params.areExtraPaymentsIncluded &&
    params.holdsOfLedger ledger).insertionSort ledgersOrder

def StoredMovement.row (movement : StoredMovement) : MovementRow where
  _id := movement._id
  currency := movement.currency
  mtsUpdated := some movement.mtsUpdated
  amount := movement.amount
  fees := movement.fees
  exactUsdValue := movement.exactUsdValue
  isLedgers := false
  _isAirdropOnWallet := false
  _isMarginFundingPayment := false
  _isAffiliateRebate := false
  _isStakingPayments := false

/-- `_remapLedgersToMovements`. -/
def StoredLedger.row (ledger : StoredLedger) : MovementRow where
  _id := ledger._id
  currency := ledger.currency
  mtsUpdated := some ledger.mts
  amount := ledger.amount
  fees := none
  exactUsdValue := ledger.exactUsdValue
  isLedgers := true
  _isAirdropOnWallet := ledger._isAirdropOnWallet
  _isMarginFundingPayment := ledger._isMarginFundingPayment
  _isAffiliateRebate := ledger._isAffiliateRebate
  _isStakingPayments := ledger._isStakingPayments

def getMovements (store : TaxStore) (params : MovementsParams) : List MovementRow :=
  let movements := (store.movements.filter fun movement =>
    movement.user_id == params.user_id && params.filter.holds movement).insertionSort
      fun left right => right.mtsUpdated ≤ left.mtsUpdated
  let ledgers := getExtraMovements store params ++
    if params.isMovementsWithoutSATransferLedgers then []
    else getSubAccountsTransferLedgers store params
  (movements.map (·.row) ++ ledgers.map (·.row)).insertionSort
    fun left right => right.mtsUpdated.getD 0 ≤ left.mtsUpdated.getD 0

def getTrades (store : TaxStore) (user_id start finish : ℕ) : List StoredTrade :=
  (store.trades.filter fun trade => trade.user_id == user_id && trade._isExchange &&
    trade.mtsCreate.any (start ≤ ·) && trade.mtsCreate.any (· ≤ finish)).insertionSort
      fun left right => right.mtsCreate.getD 0 ≤ left.mtsCreate.getD 0

/-- `b?.mtsCreate - a?.mtsCreate`. -/
def sortTrxs (trxs : List ReportTrx) : List ReportTrx :=
  trxs.insertionSort fun left right => right.mtsCreate ≤ left.mtsCreate

def withdrawalsParams (user_id start finish : ℕ) : MovementsParams where
  user_id := user_id
  start := start
  finish := finish
  isWithdrawals := true
  areExtraPaymentsIncluded := true

def depositsParams (user_id start finish : ℕ) : MovementsParams where
  user_id := user_id
  start := start
  finish := finish
  isDeposits := true
  areExtraPaymentsIncluded := true

/-- `#getTrxs`. -/
def TaxStore.getTrxs (env : TaxEnv) (store : TaxStore) (user_id start finish : ℕ) : RemapParams :=
  let withdrawals := getMovements store (withdrawalsParams user_id start finish)
  let deposits := getMovements store (depositsParams user_id start finish)
  let trades := (getTrades store user_id start finish).map (·.toTradeRow)
  let params := remapMovements env (withdrawals ++ deposits) (remapTrades env trades ⟨[], []⟩)
  { remappedTrxs := sortTrxs params.remappedTrxs
    remappedTrxsForConvToUsd := sortTrxs params.remappedTrxsForConvToUsd }

end Queries

section Lemmas

variable {store : TaxStore} {user_id start finish : ℕ}

@[simp] theorem mem_sortTrxs {trxs : List ReportTrx} {trx : ReportTrx} :
    trx ∈ sortTrxs trxs ↔ trx ∈ trxs :=
  List.mem_insertionSort _

theorem pairwise_sortTrxs (trxs : List ReportTrx) :
    (sortTrxs trxs).Pairwise fun left right => right.mtsCreate ≤ left.mtsCreate := by
  have : Std.Total fun left right : ReportTrx => right.mtsCreate ≤ left.mtsCreate :=
    ⟨fun left right => Nat.le_total right.mtsCreate left.mtsCreate⟩
  have : IsTrans ReportTrx fun left right => right.mtsCreate ≤ left.mtsCreate :=
    ⟨fun _ _ _ h h' => h'.trans h⟩
  exact List.pairwise_insertionSort _ _

theorem MovementFilter.holds_iff {filter : MovementFilter} {movement : StoredMovement} :
    filter.holds movement = true ↔
      (∀ entry ∈ filter.gte.getD [], entry.2 ≤ movement.mtsOf entry.1) ∧
      (∀ entry ∈ filter.lte.getD [], movement.mtsOf entry.1 ≤ entry.2) ∧
      (∀ bound ∈ filter.lt, movement.amount.any (· < bound) = true) ∧
      (∀ bound ∈ filter.gt, movement.amount.any (bound < ·) = true) ∧
      (∀ status ∈ filter.eq, movement.status = some status) ∧
      ∀ status ∈ filter.ne, movement.status.any (· != status) = true := by
  unfold MovementFilter.holds
  simp only [Bool.and_eq_true, List.all_eq_true, decide_eq_true_eq, Option.all_eq_true, beq_iff_eq,
    and_assoc]
  rfl

/-- The withdrawals are selected by the time they were started: the bounds of their filter
take the place of those by the update. -/
theorem holds_withdrawals {movement : StoredMovement} :
    (withdrawalsParams user_id start finish).filter.holds movement = true ↔
      (start ≤ movement.mtsStarted ∧ movement.mtsStarted ≤ finish) ∧
        movement.amount.any (· < 0) = true ∧ movement.status.any (· != "CANCELED") = true := by
  rw [MovementFilter.holds_iff]
  simp [withdrawalsParams, MovementsParams.filter, MovementsParams.withdrawalsFilter, 
    MovementsParams.depositsFilter, MovementFilter.merge, MovementFilter.spread, mergeBounds,
    StoredMovement.mtsOf, and_assoc]

/-- The deposits are selected by the time they were updated. -/
theorem holds_deposits {movement : StoredMovement} :
    (depositsParams user_id start finish).filter.holds movement = true ↔
      (start ≤ movement.mtsUpdated ∧ movement.mtsUpdated ≤ finish) ∧
        movement.amount.any (0 < ·) = true ∧ movement.status = some "COMPLETED" := by
  rw [MovementFilter.holds_iff]
  simp [depositsParams, MovementsParams.filter, MovementsParams.withdrawalsFilter, 
    MovementsParams.depositsFilter, MovementFilter.merge, MovementFilter.spread, mergeBounds,
    StoredMovement.mtsOf, and_assoc]

end Lemmas

end ReportsFramework
