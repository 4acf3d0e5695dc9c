/-
The recalculation of the balances of sub-account ledgers: the hook walks the entries of the
main or of the temporary table in batches, and sums the native balances of the sub-users.
-/
import Mathlib.Algebra.BigOperators.Group.List.Basic
import Mathlib.Algebra.Order.Ring.Rat
import Mathlib.Data.List.Dedup
import ReportsFramework.Newest

namespace ReportsFramework.SubAccountLedgers

/-- What the hook reads of a row of the ledgers. -/
structure Entry where
  _id : ℕ
  id : ℤ
  mts : ℤ
  wallet : String
  currency : String
  user_id : ℕ
  subUserId : Option ℕ
  _nativeBalance : Option ℚ
  _nativeBalanceUsd : Option ℚ
  deriving DecidableEq

/-- A row of the ledgers, with the columns the hook writes. -/
structure Row extends Entry where
  balance : Option ℚ
  balanceUsd : Option ℚ
  _isBalanceRecalced : Option ℕ
  deriving DecidableEq

/-- A table of ledgers; `_id` is its primary key. -/
structure Table where
  rows : List Row
  nodup_id : (rows.map (·._id)).Nodup

def Table.entries (table : Table) : List Entry := table.rows.map Row.toEntry

/-- The main table, and the temporary one of the sync, when there is one. -/
structure Db where
  ledgers : Table
  tempLedgers : Option Table

/-- The table the hook works on: the temporary one in a run with a `syncQueueId`. -/
def Db.table (shouldTempTableBeUsed : Bool) (db : Db) : Option Table :=
  if shouldTempTableBeUsed then db.tempLedgers else some db.ledgers

/-- What the hook reads of a user or a sub-user that signed in. -/
structure AuthPayload where
  _id : ℕ
  isSubAccount : Bool
  subUser : Option ℕ

/-- At or before in the order by `mts` and `id`. -/
def atOrBefore (entry entry' : Entry) : Prop :=
  entry.mts < entry'.mts ∨ entry.mts = entry'.mts ∧ entry.id ≤ entry'.id

instance : DecidableRel atOrBefore := fun entry entry' => by
  unfold atOrBefore
  infer_instance

instance : Std.Total atOrBefore := ⟨fun entry entry' => by
  unfold atOrBefore
  omega⟩

instance : IsTrans Entry atOrBefore := ⟨fun entry entry' entry'' => by
  unfold atOrBefore
  omega⟩

section Recalc

def getSubUsersIdsByMasterUserId (auth : List AuthPayload) (userId : ℕ) : List ℕ :=
  auth.filterMap fun payload =>
    if payload.isSubAccount ∧ payload._id = userId then payload.subUser else none

/-- The sum of the finite balances; the entry's own one where there is none. -/
def sumOrOwn (own : Option ℚ) (balances : List ℚ) : Option ℚ :=
  if balances.length = 0 then own else some balances.sum

/-- The balance columns that the hook writes to an entry. -/
structure Recalc where
  balance : Option ℚ
  balanceUsd : Option ℚ
  _isBalanceRecalced : Option ℕ

def Row.update (row : Row) (recalc : Recalc) : Row :=
  { row with
    balance := recalc.balance
    balanceUsd := recalc.balanceUsd
    _isBalanceRecalced := recalc._isBalanceRecalced }

@[simp] theorem Row.toEntry_update (row : Row) (recalc : Recalc) :
    (row.update recalc).toEntry = row.toEntry :=
  rfl

@[simp] theorem Row.update_update (row : Row) (recalc recalc' : Recalc) :
    (row.update recalc).update recalc' = row.update recalc' :=
  rfl

/-- The record that stands for the sub-user: the first one in the order of the records that
matches the item, its timestamp and its id each being at most the item's. -/
def findItem (elems : List Entry) (item : Entry) (subUserId : ℕ) : Option Entry :=
  (elems.filter fun elem => elem.subUserId.isSome ∧ elem.user_id = item.user_id ∧
    elem.id ≤ item.id ∧ elem.mts ≤ item.mts ∧ elem.wallet = item.wallet ∧
      elem.currency = item.currency).find? fun elem => elem.subUserId = some subUserId

def getRecalcBalance (auth : List AuthPayload) (elems : List Entry) (item : Entry) : Recalc :=
  let subUsersIds := getSubUsersIdsByMasterUserId auth item.user_id
  if subUsersIds.length = 0 then
    { balance := item._nativeBalance
      balanceUsd := item._nativeBalanceUsd
      _isBalanceRecalced := none }
  else
    let items := subUsersIds.map (findItem elems item)
    { balance := sumOrOwn item._nativeBalance (items.filterMap (·.bind (·._nativeBalance)))
      balanceUsd :=
        sumOrOwn item._nativeBalanceUsd (items.filterMap (·.bind (·._nativeBalanceUsd)))
      _isBalanceRecalced := some 1 }

/-- The first record of every wallet, currency, user and sub-user. -/
def getFirstGroupedRecords (elems : List Entry) : List Entry :=
  elems.foldl
    (fun accum curr =>
      if accum.all fun elem => curr.wallet ≠ elem.wallet ∨ curr.currency ≠ elem.currency ∨
          curr.user_id ≠ elem.user_id ∨ curr.subUserId ≠ elem.subUserId
      then accum ++ [curr] else accum) []

/-- The latest row of a sub-user by the timestamp of the record, in one table. -/
def getElemInCollBy (table : Table) (elem : Entry) (subUserId : ℕ) : Option Entry :=
  (latestFirst atOrBefore (table.entries.filter fun item =>
    item.subUserId = some subUserId ∧ item.wallet = elem.wallet ∧
      item.currency = elem.currency ∧ item.user_id = elem.user_id ∧
        item.mts ≤ elem.mts)).head?

def itemFromDb (shouldTempTableBeUsed : Bool) (db : Db) (elem : Entry) (subUserId : ℕ) :
    Option Entry :=
  let itemFromMainTable := getElemInCollBy db.ledgers elem subUserId
  let itemFromTempTable := if shouldTempTableBeUsed
    then db.tempLedgers.bind fun table => getElemInCollBy table elem subUserId else none
  (latestFirst atOrBefore (itemFromMainTable.toList ++ itemFromTempTable.toList)).head?

/-- The latest rows of the other sub-users before the records. A record of a sub-user that
has no row carries no `id`, which no comparison accepts, and is left out here. -/
def getInitialElems (shouldTempTableBeUsed : Bool) (db : Db) (auth : List AuthPayload)
    (firstGroupedRecords : List Entry) : List Entry :=
  firstGroupedRecords.flatMap fun elem =>
    (getSubUsersIdsByMasterUserId auth elem.user_id).filterMap fun subUserId =>
      if some subUserId = elem.subUserId then none
      else itemFromDb shouldTempTableBeUsed db elem subUserId

/-- What the balances of a batch are looked up in. -/
def recordsToGetBalances (shouldTempTableBeUsed : Bool) (db : Db) (auth : List AuthPayload)
    (elems : List Entry) : List Entry :=
  latestFirst atOrBefore
    (getInitialElems shouldTempTableBeUsed db auth (getFirstGroupedRecords elems) ++ elems)

end Recalc

section Execute

/-- `UPDATE … SET balance, balanceUsd, _isBalanceRecalced WHERE _id`, record by record. -/
def updateElemsInCollBy (rows : List Row) (recalcElems : List (ℕ × Recalc)) : List Row :=
  recalcElems.foldl
    (fun rows elem => rows.map fun row => if row._id = elem.1 then row.update elem.2 else row)
    rows

theorem map_toEntry_updateElemsInCollBy (rows : List Row) (recalcElems : List (ℕ × Recalc)) :
    (updateElemsInCollBy rows recalcElems).map Row.toEntry = rows.map Row.toEntry := by
  unfold updateElemsInCollBy
  induction recalcElems generalizing rows with
  | nil => rfl
  | cons elem rest ih =>
    rw [List.foldl_cons, ih, List.map_map]
    apply List.map_congr_left
    intro row _
    simp only [Function.comp_apply]
    split <;> rfl

def Table.update (table : Table) (recalcElems : List (ℕ × Recalc)) : Table where
  rows := updateElemsInCollBy table.rows recalcElems
  nodup_id := by
    have := congrArg (List.map Entry._id) (map_toEntry_updateElemsInCollBy table.rows recalcElems)
    simp only [List.map_map] at this
    exact this ▸ table.nodup_id

def Db.update (shouldTempTableBeUsed : Bool) (db : Db) (recalcElems : List (ℕ × Recalc)) : Db :=
  if shouldTempTableBeUsed then
    { db with tempLedgers := db.tempLedgers.map (·.update recalcElems) }
  else { db with ledgers := db.ledgers.update recalcElems }

/-- The next batch: the rows from the timestamp on that were not in the batch before. -/
def getElemsInCollBy (limit : ℕ) (requiredUserIds : List ℕ) (entries : List Entry) (mts : ℤ)
    (skipedIds : List ℕ) : List Entry :=
  ((entries.filter fun entry => mts ≤ entry.mts ∧ entry._id ∉ skipedIds ∧
    entry.user_id ∈ requiredUserIds ∧ entry.subUserId.isSome).insertionSort atOrBefore).take limit

/-- The number of batches after which the hook gives up. -/
def maxCount : ℕ := 1000

/-- The number of rows in a batch. -/
def batchLimit : ℕ := 20000

/-- The loop over the batches, with the number of batches that are left. -/
def recalcBatches (limit : ℕ) (shouldTempTableBeUsed : Bool) (auth : List AuthPayload)
    (requiredUserIds : List ℕ) : ℕ → Db → ℤ → List ℕ → Db
  | 0, db, _, _ => db
  | count + 1, db, mts, skipedIds =>
    let elems := getElemsInCollBy limit requiredUserIds
      ((db.table shouldTempTableBeUsed).elim [] Table.entries) mts skipedIds
    if h : elems = [] then db
    else
      let records := recordsToGetBalances shouldTempTableBeUsed db auth elems
      let recalcElems := elems.map fun elem => (elem._id, getRecalcBalance auth records elem)
      let mts := (elems.getLast h).mts
      recalcBatches limit shouldTempTableBeUsed auth requiredUserIds count
        (db.update shouldTempTableBeUsed recalcElems) mts
        ((elems.filter fun elem => mts = elem.mts).map Entry._id)

def getRequiredUserIds (auth : List AuthPayload) : List ℕ := (auth.map (·._id)).dedup

/-- A row of a sub-user whose balance was not recalculated yet. -/
def Pending (requiredUserIds : List ℕ) (row : Row) : Prop :=
  row.subUserId.isSome ∧ row._isBalanceRecalced = none ∧ row.user_id ∈ requiredUserIds

instance (requiredUserIds : List ℕ) (row : Row) : Decidable (Pending requiredUserIds row) := by
  unfold Pending
  infer_instance

def firstNotRecalcedElem (requiredUserIds : List ℕ) (table : Table) : Option Entry :=
  (((table.rows.filter fun row => Pending requiredUserIds row).map Row.toEntry).insertionSort
    atOrBefore).head?

inductive RecalcError where
  | subAccountLedgersBalancesRecalcError

def execute (limit : ℕ) (shouldTempTableBeUsed hasDataInserter : Bool) (auth : List AuthPayload)
    (db : Db) : Except RecalcError Db :=
  if auth.length = 0 then
    if hasDataInserter then .error .subAccountLedgersBalancesRecalcError else .ok db
  else
    let requiredUserIds := getRequiredUserIds auth
    let mts := (db.table shouldTempTableBeUsed).bind fun table =>
      (firstNotRecalcedElem requiredUserIds table).map Entry.mts
    -- no temporary table, no entry to recalculate, or a timestamp that is falsy
    if mts.getD 0 = 0 then .ok db
    else .ok (recalcBatches limit shouldTempTableBeUsed auth requiredUserIds maxCount db
      (mts.getD 0) [])

end Execute

end ReportsFramework.SubAccountLedgers
