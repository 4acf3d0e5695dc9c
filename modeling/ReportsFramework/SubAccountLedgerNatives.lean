/-
The recalculated balances for any native balances the entries may have: which entries the
hook sums does not depend on them.
-/
import Mathlib.Tactic.SplitIfs
import ReportsFramework.SubAccountLedgerBalances

namespace ReportsFramework.SubAccountLedgers

section WithNatives

variable (native nativeUsd : Entry → Option ℚ)

/-- The same entry with other native balances. -/
def Entry.withNatives (entry : Entry) : Entry :=
  { entry with
    _nativeBalance := native entry
    _nativeBalanceUsd := nativeUsd entry }

def Row.withNatives (row : Row) : Row :=
  { row with
    toEntry := row.toEntry.withNatives native nativeUsd }

def Table.withNatives (table : Table) : Table where
  rows := table.rows.map (Row.withNatives native nativeUsd)
  nodup_id := by
    rw [List.map_map]
    exact table.nodup_id

def Db.withNatives (db : Db) : Db where
  ledgers := db.ledgers.withNatives native nativeUsd
  tempLedgers := db.tempLedgers.map (Table.withNatives native nativeUsd)

end WithNatives

section Same

variable {limit : ℕ} {shouldTempTableBeUsed : Bool} {auth : List AuthPayload} {db : Db}
variable {native nativeUsd : Entry → Option ℚ}

@[simp] theorem Table.entries_withNatives (table : Table) :
    (table.withNatives native nativeUsd).entries =
      table.entries.map (Entry.withNatives native nativeUsd) := by
  simp only [Table.entries, Table.withNatives, List.map_map]
  rfl

@[simp] theorem Db.table_withNatives :
    (db.withNatives native nativeUsd).table shouldTempTableBeUsed =
      (db.table shouldTempTableBeUsed).map (Table.withNatives native nativeUsd) := by
  cases shouldTempTableBeUsed <;> rfl

theorem Db.entries_withNatives :
    (db.withNatives native nativeUsd).entries shouldTempTableBeUsed =
      (db.entries shouldTempTableBeUsed).map (Entry.withNatives native nativeUsd) := by
  rw [Db.entries, Db.table_withNatives, Db.entries]
  cases db.table shouldTempTableBeUsed with
  | none => rfl
  | some table => exact table.entries_withNatives

theorem Db.pool_withNatives :
    (db.withNatives native nativeUsd).pool shouldTempTableBeUsed =
      (db.pool shouldTempTableBeUsed).map (Entry.withNatives native nativeUsd) := by
  unfold Db.pool Db.withNatives
  rw [List.map_append, Table.entries_withNatives]
  cases shouldTempTableBeUsed with
  | false => rfl
  | true => cases db.tempLedgers <;> simp

theorem atOrBefore_withNatives (entry entry' : Entry) :
    atOrBefore (entry.withNatives native nativeUsd) (entry'.withNatives native nativeUsd) ↔
      atOrBefore entry entry' :=
  Iff.rfl

/-- The order of the entries does not read their native balances. -/
theorem latestFirst_withNatives (entries : List Entry) :
    latestFirst atOrBefore (entries.map (Entry.withNatives native nativeUsd)) =
      (latestFirst atOrBefore entries).map (Entry.withNatives native nativeUsd) :=
  latestFirst_map atOrBefore atOrBefore_withNatives entries

theorem getElemInCollBy_withNatives (table : Table) (elem : Entry) (subUserId : ℕ) :
    getElemInCollBy (table.withNatives native nativeUsd) (elem.withNatives native nativeUsd)
        subUserId =
      (getElemInCollBy table elem subUserId).map (Entry.withNatives native nativeUsd) := by
  unfold getElemInCollBy
  rw [Table.entries_withNatives, List.filter_map, latestFirst_withNatives, List.head?_map]
  rfl

theorem itemFromDb_withNatives (elem : Entry) (subUserId : ℕ) :
    itemFromDb shouldTempTableBeUsed (db.withNatives native nativeUsd)
        (elem.withNatives native nativeUsd) subUserId =
      (itemFromDb shouldTempTableBeUsed db elem subUserId).map
        (Entry.withNatives native nativeUsd) := by
  have htoList : ∀ o : Option Entry, (o.map (Entry.withNatives native nativeUsd)).toList =
      o.toList.map (Entry.withNatives native nativeUsd) := by
    intro o
    cases o <;> rfl
  have htemp : ((db.withNatives native nativeUsd).tempLedgers.bind fun table =>
      getElemInCollBy table (elem.withNatives native nativeUsd) subUserId) =
        (db.tempLedgers.bind fun table => getElemInCollBy table elem subUserId).map
          (Entry.withNatives native nativeUsd) := by
    unfold Db.withNatives
    cases db.tempLedgers with
    | none => rfl
    | some table => exact getElemInCollBy_withNatives table elem subUserId
  have hmain : getElemInCollBy (db.withNatives native nativeUsd).ledgers
      (elem.withNatives native nativeUsd) subUserId = _ :=
    getElemInCollBy_withNatives db.ledgers elem subUserId
  unfold itemFromDb
  rw [htemp, hmain]
  cases shouldTempTableBeUsed with
  | false =>
    simp only [Bool.false_eq_true, if_false, Option.toList_none, List.append_nil]
    rw [htoList, latestFirst_withNatives, List.head?_map]
  | true =>
    simp only [if_true]
    rw [htoList, htoList, ← List.map_append, latestFirst_withNatives, List.head?_map]

theorem getFirstGroupedRecords_withNatives (elems : List Entry) :
    getFirstGroupedRecords (elems.map (Entry.withNatives native nativeUsd)) =
      (getFirstGroupedRecords elems).map (Entry.withNatives native nativeUsd) := by
  unfold getFirstGroupedRecords
  induction elems using List.reverseRecOn with
  | nil => rfl
  | append_singleton elems elem ih =>
    rw [List.map_append, List.foldl_append, List.foldl_append, ih]
    simp only [List.map_cons, List.map_nil, List.foldl_cons, List.foldl_nil, List.all_map]
    rw [apply_ite (List.map (Entry.withNatives native nativeUsd)), List.map_append]
    rfl

theorem recordsToGetBalances_withNatives (elems : List Entry) :
    recordsToGetBalances shouldTempTableBeUsed (db.withNatives native nativeUsd) auth
        (elems.map (Entry.withNatives native nativeUsd)) =
      (recordsToGetBalances shouldTempTableBeUsed db auth elems).map
        (Entry.withNatives native nativeUsd) := by
  unfold recordsToGetBalances
  rw [getFirstGroupedRecords_withNatives, ← latestFirst_withNatives, List.map_append]
  congr 2
  simp only [getInitialElems, List.flatMap_map, List.map_flatMap]
  congr 1
  funext first
  rw [List.map_filterMap]
  apply List.filterMap_congr
  intro subUserId _
  rw [itemFromDb_withNatives, apply_ite (Option.map (Entry.withNatives native nativeUsd))]
  rfl

theorem findItem_withNatives (elems : List Entry) (item : Entry) (subUserId : ℕ) :
    findItem (elems.map (Entry.withNatives native nativeUsd))
        (item.withNatives native nativeUsd) subUserId =
      (findItem elems item subUserId).map (Entry.withNatives native nativeUsd) := by
  unfold findItem
  rw [List.filter_map, List.find?_map]
  rfl

theorem getElemsInCollBy_withNatives (requiredUserIds : List ℕ) (entries : List Entry) (mts : ℤ)
    (skipedIds : List ℕ) :
    getElemsInCollBy limit requiredUserIds (entries.map (Entry.withNatives native nativeUsd)) mts
        skipedIds =
      (getElemsInCollBy limit requiredUserIds entries mts skipedIds).map
        (Entry.withNatives native nativeUsd) := by
  unfold getElemsInCollBy
  rw [List.filter_map, List.map_take, List.map_insertionSort atOrBefore atOrBefore _ _
    fun entry _ entry' _ => (atOrBefore_withNatives entry entry').symm]
  rfl

theorem batchesFrom_withNatives (requiredUserIds : List ℕ) (entries : List Entry) (count : ℕ)
    (mts : ℤ) (skipedIds : List ℕ) :
    batchesFrom limit requiredUserIds (entries.map (Entry.withNatives native nativeUsd)) count mts
        skipedIds =
      (batchesFrom limit requiredUserIds entries count mts skipedIds).map
        (List.map (Entry.withNatives native nativeUsd)) := by
  induction count generalizing mts skipedIds with
  | zero => rfl
  | succ count ih =>
    simp only [batchesFrom, getElemsInCollBy_withNatives, List.map_eq_nil_iff]
    by_cases hnil : getElemsInCollBy limit requiredUserIds entries mts skipedIds = []
    · rw [dif_pos hnil, dif_pos hnil]
      rfl
    · rw [dif_neg hnil, dif_neg hnil, List.map_cons, ih, List.getLast_map, List.filter_map,
        List.map_map]
      rfl

theorem startMts_withNatives :
    startMts shouldTempTableBeUsed auth (db.withNatives native nativeUsd) =
      startMts shouldTempTableBeUsed auth db := by
  have hfirst : ∀ table : Table,
      firstNotRecalcedElem (getRequiredUserIds auth) (table.withNatives native nativeUsd) =
        (firstNotRecalcedElem (getRequiredUserIds auth) table).map
          (Entry.withNatives native nativeUsd) := by
    intro table
    unfold firstNotRecalcedElem Table.withNatives
    rw [List.filter_map, List.map_map, ← List.head?_map, List.map_insertionSort atOrBefore
      atOrBefore _ _ fun entry _ entry' _ => (atOrBefore_withNatives entry entry').symm,
      List.map_map]
    rfl
  unfold startMts
  rw [Db.table_withNatives]
  cases db.table shouldTempTableBeUsed with
  | none => rfl
  | some table =>
    simp only [Option.map_some, Option.bind_some, hfirst, Option.map_map]
    rfl

theorem batches_withNatives :
    batches limit shouldTempTableBeUsed auth (db.withNatives native nativeUsd) =
      (batches limit shouldTempTableBeUsed auth db).map
        (List.map (Entry.withNatives native nativeUsd)) := by
  unfold batches
  rw [startMts_withNatives, Db.entries_withNatives, batchesFrom_withNatives, apply_ite (List.map _)]
  rfl

theorem mem_pending {row : Row} : row ∈ db.pending shouldTempTableBeUsed auth ↔
    ∃ table, db.table shouldTempTableBeUsed = some table ∧ row ∈ table.rows ∧
      Pending (getRequiredUserIds auth) row := by
  unfold Db.pending
  cases db.table shouldTempTableBeUsed <;> simp

theorem pending_withNatives :
    (db.withNatives native nativeUsd).pending shouldTempTableBeUsed auth =
      (db.pending shouldTempTableBeUsed auth).map (Row.withNatives native nativeUsd) := by
  unfold Db.pending
  rw [Db.table_withNatives]
  cases db.table shouldTempTableBeUsed with
  | none => rfl
  | some table =>
    simp only [Option.map_some, Option.elim_some, Table.withNatives, List.filter_map]
    rfl

theorem mem_entries_of_mem_batchesFrom {requiredUserIds : List ℕ} {entries batch : List Entry}
    {count : ℕ} {mts : ℤ} {skipedIds : List ℕ}
    (h : batch ∈ batchesFrom limit requiredUserIds entries count mts skipedIds) :
    batch ⊆ entries := by
  induction count generalizing mts skipedIds with
  | zero => simp [batchesFrom] at h
  | succ count ih =>
    simp only [batchesFrom] at h
    by_cases hnil : getElemsInCollBy limit requiredUserIds entries mts skipedIds = []
    · simp [hnil] at h
    · rw [dif_neg hnil] at h
      rcases List.mem_cons.mp h with rfl | h
      · intro entry hentry
        exact mem_entries_of_mem_getElemsInCollBy hentry
      · exact ih h

theorem batch_subset_entries {batch : List Entry}
    (h : batch ∈ batches limit shouldTempTableBeUsed auth db) :
    batch ⊆ db.entries shouldTempTableBeUsed := by
  unfold batches at h
  by_cases hmts : startMts shouldTempTableBeUsed auth db = 0
  · simp [hmts] at h
  · rw [if_neg hmts] at h
    exact mem_entries_of_mem_batchesFrom h

theorem entries_subset_pool :
    db.entries shouldTempTableBeUsed ⊆ db.pool shouldTempTableBeUsed := by
  unfold Db.entries Db.pool Db.table
  cases shouldTempTableBeUsed with
  | false => exact List.subset_append_left _ _
  | true => exact List.subset_append_right _ _

theorem mem_lastBatch {batches : List (List Entry)} {entry : Entry} {batch : List Entry}
    (h : lastBatch batches entry = some batch) : batch ∈ batches ∧ entry ∈ batch := by
  have := List.mem_filter.mp (List.mem_of_getLast? h)
  simpa using this

theorem lastBatch_withNatives {row : Row}
    (hrow : row ∈ db.pending shouldTempTableBeUsed auth) :
    lastBatch (batches limit shouldTempTableBeUsed auth (db.withNatives native nativeUsd))
        (row.toEntry.withNatives native nativeUsd) =
      (lastBatch (batches limit shouldTempTableBeUsed auth db) row.toEntry).map
        (List.map (Entry.withNatives native nativeUsd)) := by
  obtain ⟨table, htable, hmem, -⟩ := mem_pending.mp hrow
  rw [batches_withNatives]
  unfold lastBatch
  rw [List.filter_map, List.getLast?_map]
  congr 2
  apply List.filter_congr
  intro batch hbatch
  simp only [Function.comp_apply, decide_eq_decide]
  constructor
  · intro h
    rcases List.mem_map.mp h with ⟨entry, hentry, heq⟩
    have hentry' := batch_subset_entries hbatch hentry
    rw [Db.entries, htable] at hentry'
    rcases List.mem_map.mp hentry' with ⟨row', hrow', rfl⟩
    have hid := congrArg Entry._id heq
    exact List.inj_on_of_nodup_map table.nodup_id hrow' hmem hid ▸ hentry
  · exact List.mem_map_of_mem

end Same

section Sums

variable {limit : ℕ} {shouldTempTableBeUsed hasDataInserter : Bool} {auth : List AuthPayload}
variable {db : Db} {native nativeUsd : Entry → Option ℚ}

/-- The sum of the native balances over the entries that stand for the sub-users. -/
def sumOfItems (native : Entry → Option ℚ) (entry : Entry) (items : List (Option Entry)) :
    Option ℚ :=
  sumOrOwn (native entry) (items.filterMap (·.bind native))

/-- The balance the hook leaves to a row, were the native balances as given. -/
def balanceAfter (limit : ℕ) (shouldTempTableBeUsed : Bool) (auth : List AuthPayload) (db : Db)
    (native : Entry → Option ℚ) (entry : Entry) (balance : Option ℚ) : Option ℚ :=
  (lastBatch (batches limit shouldTempTableBeUsed auth db) entry).elim balance fun batch =>
    sumOfItems native entry ((getSubUsersIdsByMasterUserId auth entry.user_id).map
      (findItem (recordsToGetBalances shouldTempTableBeUsed db auth batch) entry))

theorem getRecalcBalance_balance (elems : List Entry) (item : Entry) :
    (getRecalcBalance auth elems item).balance = sumOfItems (·._nativeBalance) item
      ((getSubUsersIdsByMasterUserId auth item.user_id).map (findItem elems item)) := by
  unfold getRecalcBalance
  simp only [apply_ite Recalc.balance]
  split_ifs with hlength
  · rw [List.length_eq_zero_iff.mp hlength]
    rfl
  · rfl

theorem getRecalcBalance_balanceUsd (elems : List Entry) (item : Entry) :
    (getRecalcBalance auth elems item).balanceUsd = sumOfItems (·._nativeBalanceUsd) item
      ((getSubUsersIdsByMasterUserId auth item.user_id).map (findItem elems item)) := by
  unfold getRecalcBalance
  simp only [apply_ite Recalc.balanceUsd]
  split_ifs with hlength
  · rw [List.length_eq_zero_iff.mp hlength]
    rfl
  · rfl

theorem sumOfItems_withNatives {native' native₁ : Entry → Option ℚ}
    (hnative : ∀ elem, native' (elem.withNatives native nativeUsd) = native₁ elem)
    (entry : Entry) (items : List (Option Entry)) :
    sumOfItems native' (entry.withNatives native nativeUsd)
        (items.map (Option.map (Entry.withNatives native nativeUsd))) =
      sumOfItems native₁ entry items := by
  unfold sumOfItems
  rw [hnative, List.filterMap_map]
  congr 2
  funext item
  cases item with
  | none => rfl
  | some elem => exact hnative elem

theorem rewritten_balance (row : Row) :
    (rewritten shouldTempTableBeUsed auth db (batches limit shouldTempTableBeUsed auth db)
        row).balance =
      balanceAfter limit shouldTempTableBeUsed auth db (·._nativeBalance) row.toEntry
        row.balance := by
  rw [rewritten_eq, balanceAfter]
  cases lastBatch (batches limit shouldTempTableBeUsed auth db) row.toEntry with
  | none => rfl
  | some batch => exact getRecalcBalance_balance _ row.toEntry

theorem rewritten_balanceUsd (row : Row) :
    (rewritten shouldTempTableBeUsed auth db (batches limit shouldTempTableBeUsed auth db)
        row).balanceUsd =
      balanceAfter limit shouldTempTableBeUsed auth db (·._nativeBalanceUsd) row.toEntry
        row.balanceUsd := by
  rw [rewritten_eq, balanceAfter]
  cases lastBatch (batches limit shouldTempTableBeUsed auth db) row.toEntry with
  | none => rfl
  | some batch => exact getRecalcBalance_balanceUsd _ row.toEntry

/-- Where there is a row to recalculate, the hook leaves every row as its batches wrote it. -/
theorem execute_rows (limit : ℕ) (hasDataInserter : Bool) {row : Row}
    (hrow : row ∈ db.pending shouldTempTableBeUsed auth) :
    ∃ table db' table', db.table shouldTempTableBeUsed = some table ∧ row ∈ table.rows ∧
      execute limit shouldTempTableBeUsed hasDataInserter auth db = .ok db' ∧
      db'.table shouldTempTableBeUsed = some table' ∧
      table'.rows = table.rows.map (rewritten shouldTempTableBeUsed auth db
        (batches limit shouldTempTableBeUsed auth db)) := by
  obtain ⟨table, htable, hmem, hpending⟩ := mem_pending.mp hrow
  have hauth : ¬ auth.length = 0 := by
    intro hlength
    have huser := hpending.2.2
    rw [List.length_eq_zero_iff.mp hlength] at huser
    simp [getRequiredUserIds] at huser
  have hexecute : execute limit shouldTempTableBeUsed hasDataInserter auth db =
      if startMts shouldTempTableBeUsed auth db = 0 then .ok db
      else .ok (recalcBatches limit shouldTempTableBeUsed auth (getRequiredUserIds auth) maxCount
        db (startMts shouldTempTableBeUsed auth db) []) := by
    rw [execute, if_neg hauth]
    rfl
  rw [hexecute, batches]
  by_cases hmts : startMts shouldTempTableBeUsed auth db = 0
  · rw [if_pos hmts, if_pos hmts]
    exact ⟨table, db, table, htable, hmem, rfl, htable, (List.map_id table.rows).symm⟩
  · rw [if_neg hmts, if_neg hmts]
    obtain ⟨table', htable', hrows⟩ := recalcBatches_rows limit auth (getRequiredUserIds auth)
      maxCount db (startMts shouldTempTableBeUsed auth db) [] htable
    refine ⟨table, _, table', htable, hmem, rfl, htable', ?_⟩
    rw [hrows, Db.entries, htable, Option.elim_some]

theorem recalced_iff {row : Row} (hrow : row ∈ db.pending shouldTempTableBeUsed auth) :
    Recalced limit shouldTempTableBeUsed hasDataInserter auth db row ↔
      IsSumOfLatest (db.pool shouldTempTableBeUsed)
          (getSubUsersIdsByMasterUserId auth row.user_id) (·._nativeBalance) row.toEntry
          (balanceAfter limit shouldTempTableBeUsed auth db (·._nativeBalance) row.toEntry
            row.balance) ∧
        IsSumOfLatest (db.pool shouldTempTableBeUsed)
          (getSubUsersIdsByMasterUserId auth row.user_id) (·._nativeBalanceUsd) row.toEntry
          (balanceAfter limit shouldTempTableBeUsed auth db (·._nativeBalanceUsd) row.toEntry
            row.balanceUsd) := by
  obtain ⟨table, db₁, table₁, htable, hmem, hexecute, htable₁, hrows⟩ :=
    execute_rows limit hasDataInserter hrow
  have hid : ∀ row, (rewritten shouldTempTableBeUsed auth db
      (batches limit shouldTempTableBeUsed auth db) row)._id = row._id := by
    intro row
    rw [rewritten_eq]
    cases lastBatch (batches limit shouldTempTableBeUsed auth db) row.toEntry <;> rfl
  rw [← rewritten_balance, ← rewritten_balanceUsd]
  constructor
  · rintro ⟨db', table', row', hexecute', htable', hrow', hid', hsums⟩
    obtain rfl := Except.ok.inj (hexecute.symm.trans hexecute')
    obtain rfl := Option.some_inj.mp (htable₁.symm.trans htable')
    rw [hrows] at hrow'
    rcases List.mem_map.mp hrow' with ⟨row'', hrow'', rfl⟩
    rw [hid] at hid'
    obtain rfl := List.inj_on_of_nodup_map table.nodup_id hrow'' hmem hid'
    exact hsums
  · intro hsums
    exact ⟨db₁, table₁, _, hexecute, htable₁, hrows ▸ List.mem_map_of_mem hmem, hid row, hsums⟩

theorem balanceAfter_withNatives {native' native₁ : Entry → Option ℚ}
    (hnative : ∀ elem, native' (elem.withNatives native nativeUsd) = native₁ elem) {row : Row}
    (hrow : row ∈ db.pending shouldTempTableBeUsed auth) (balance : Option ℚ) :
    balanceAfter limit shouldTempTableBeUsed auth (db.withNatives native nativeUsd) native'
        (row.toEntry.withNatives native nativeUsd) balance =
      balanceAfter limit shouldTempTableBeUsed auth db native₁ row.toEntry balance := by
  unfold balanceAfter
  rw [lastBatch_withNatives hrow]
  cases lastBatch (batches limit shouldTempTableBeUsed auth db) row.toEntry with
  | none => rfl
  | some batch =>
    have hitems : ∀ subUserId,
        findItem (recordsToGetBalances shouldTempTableBeUsed (db.withNatives native nativeUsd) auth
          (batch.map (Entry.withNatives native nativeUsd)))
          (row.toEntry.withNatives native nativeUsd) subUserId =
        (findItem (recordsToGetBalances shouldTempTableBeUsed db auth batch) row.toEntry
          subUserId).map (Entry.withNatives native nativeUsd) := by
      intro subUserId
      rw [recordsToGetBalances_withNatives, findItem_withNatives]
    simp only [Option.map_some, Option.elim_some, funext hitems]
    rw [← sumOfItems_withNatives hnative, List.map_map]
    rfl

theorem isLatest_withNatives {pool : List Entry} {entry : Entry} {subUserId : ℕ}
    {elem : Option Entry} :
    IsLatest (pool.map (Entry.withNatives native nativeUsd))
        (entry.withNatives native nativeUsd) subUserId elem ↔
      ∃ elem', elem = elem'.map (Entry.withNatives native nativeUsd) ∧
        IsLatest pool entry subUserId elem' :=
  isNewest_map atOrBefore_withNatives fun _ => Iff.rfl

theorem isSumOfLatest_withNatives {native' native₁ : Entry → Option ℚ}
    (hnative : ∀ elem, native' (elem.withNatives native nativeUsd) = native₁ elem)
    {pool : List Entry} {subUsersIds : List ℕ} {entry : Entry} {balance : Option ℚ} :
    IsSumOfLatest (pool.map (Entry.withNatives native nativeUsd)) subUsersIds native'
        (entry.withNatives native nativeUsd) balance ↔
      IsSumOfLatest pool subUsersIds native₁ entry balance := by
  constructor
  · rintro ⟨latest', hlatest', hbalance⟩
    have hexists : ∀ subUserId, ∃ elem, subUserId ∈ subUsersIds →
        latest' subUserId = elem.map (Entry.withNatives native nativeUsd) ∧
          IsLatest pool entry subUserId elem := by
      intro subUserId
      by_cases hmem : subUserId ∈ subUsersIds
      · obtain ⟨elem, heq, hlatest⟩ := isLatest_withNatives.mp (hlatest' subUserId hmem)
        exact ⟨elem, fun _ => ⟨heq, hlatest⟩⟩
      · exact ⟨none, fun h => absurd h hmem⟩
    choose latest hlatest using hexists
    refine ⟨latest, fun subUserId hmem => (hlatest subUserId hmem).2, ?_⟩
    rw [hbalance, ← sumOfItems, ← sumOfItems, ← sumOfItems_withNatives hnative, List.map_map]
    congr 1
    apply List.map_congr_left
    intro subUserId hmem
    exact (hlatest subUserId hmem).1
  · rintro ⟨latest, hlatest, hbalance⟩
    refine ⟨fun subUserId => (latest subUserId).map (Entry.withNatives native nativeUsd), ?_, ?_⟩
    · intro subUserId hmem
      exact isLatest_withNatives.mpr ⟨latest subUserId, rfl, hlatest subUserId hmem⟩
    · rw [hbalance, ← sumOfItems, ← sumOfItems, ← sumOfItems_withNatives hnative, List.map_map]
      rfl

/-- The sums over given native balances are those of the tables that hold them. -/
theorem isSumOfLatest_balanceAfter (native' native₁ : Entry → Option ℚ)
    (hnative : ∀ elem, native' (elem.withNatives native nativeUsd) = native₁ elem) {row : Row}
    (hrow : row ∈ db.pending shouldTempTableBeUsed auth) (balance : Option ℚ) :
    IsSumOfLatest ((db.withNatives native nativeUsd).pool shouldTempTableBeUsed)
        (getSubUsersIdsByMasterUserId auth row.user_id) native'
        (row.toEntry.withNatives native nativeUsd)
        (balanceAfter limit shouldTempTableBeUsed auth (db.withNatives native nativeUsd) native'
          (row.toEntry.withNatives native nativeUsd) balance) ↔
      IsSumOfLatest (db.pool shouldTempTableBeUsed)
        (getSubUsersIdsByMasterUserId auth row.user_id) native₁ row.toEntry
        (balanceAfter limit shouldTempTableBeUsed auth db native₁ row.toEntry balance) := by
  rw [balanceAfter_withNatives hnative hrow, Db.pool_withNatives]
  exact isSumOfLatest_withNatives hnative

theorem recalced_withNatives_iff {row : Row}
    (hrow : row ∈ db.pending shouldTempTableBeUsed auth) :
    Recalced limit shouldTempTableBeUsed hasDataInserter auth (db.withNatives native nativeUsd)
        (row.withNatives native nativeUsd) ↔
      IsSumOfLatest (db.pool shouldTempTableBeUsed)
          (getSubUsersIdsByMasterUserId auth row.user_id) native row.toEntry
          (balanceAfter limit shouldTempTableBeUsed auth db native row.toEntry row.balance) ∧
        IsSumOfLatest (db.pool shouldTempTableBeUsed)
          (getSubUsersIdsByMasterUserId auth row.user_id) nativeUsd row.toEntry
          (balanceAfter limit shouldTempTableBeUsed auth db nativeUsd row.toEntry
            row.balanceUsd) := by
  have hrow' : row.withNatives native nativeUsd ∈
      (db.withNatives native nativeUsd).pending shouldTempTableBeUsed auth := by
    rw [pending_withNatives]
    exact List.mem_map_of_mem hrow
  apply (recalced_iff hrow').trans
  apply and_congr
  · exact isSumOfLatest_balanceAfter (·._nativeBalance) native (fun _ => rfl) hrow row.balance
  · exact isSumOfLatest_balanceAfter (·._nativeBalanceUsd) nativeUsd (fun _ => rfl) hrow
      row.balanceUsd

end Sums

end ReportsFramework.SubAccountLedgers
