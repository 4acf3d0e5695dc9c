/-
The recalculated balance of a sub-account ledger is the sum over the sub-users of their
latest native balances exactly where those latest entries are at hand.
-/
import Mathlib.Data.List.Induction
import Mathlib.Data.List.Nodup
import ReportsFramework.SubAccountLedgers

namespace ReportsFramework.SubAccountLedgers

section Spec

/-- An entry of a sub-user for the owner, the wallet and the currency of another entry. -/
def OfSubUser (subUserId : ℕ) (entry elem : Entry) : Prop :=
  elem.subUserId = some subUserId ∧ elem.user_id = entry.user_id ∧
    elem.wallet = entry.wallet ∧ elem.currency = entry.currency

instance (subUserId : ℕ) (entry elem : Entry) : Decidable (OfSubUser subUserId entry elem) := by
  unfold OfSubUser
  infer_instance

/-- The latest entry of a sub-user at or before an entry. -/
def IsLatest (pool : List Entry) (entry : Entry) (subUserId : ℕ) : Option Entry → Prop :=
  IsNewest atOrBefore (fun elem => OfSubUser subUserId entry elem ∧ atOrBefore elem entry) pool

/-- A balance that sums the native balances of the latest entries of the sub-users, and
that is the entry's own native balance where none of them has one. -/
def IsSumOfLatest (pool : List Entry) (subUsersIds : List ℕ) (native : Entry → Option ℚ)
    (entry : Entry) (balance : Option ℚ) : Prop :=
  ∃ latest : ℕ → Option Entry, (∀ subUserId ∈ subUsersIds,
      IsLatest pool entry subUserId (latest subUserId)) ∧
    balance = sumOrOwn (native entry) ((subUsersIds.map latest).filterMap (·.bind native))

/-- The entries of the tables the hook reads. -/
def Db.pool (shouldTempTableBeUsed : Bool) (db : Db) : List Entry :=
  db.ledgers.entries ++
    if shouldTempTableBeUsed then db.tempLedgers.elim [] Table.entries else []

/-- What the hook owes to a row that was not recalculated yet. -/
def Recalced (limit : ℕ) (shouldTempTableBeUsed hasDataInserter : Bool)
    (auth : List AuthPayload) (db : Db) (row : Row) : Prop :=
  ∃ db' table' row',
    execute limit shouldTempTableBeUsed hasDataInserter auth db = .ok db' ∧
    db'.table shouldTempTableBeUsed = some table' ∧ row' ∈ table'.rows ∧ row'._id = row._id ∧
    IsSumOfLatest (db.pool shouldTempTableBeUsed) (getSubUsersIdsByMasterUserId auth row.user_id)
      (·._nativeBalance) row.toEntry row'.balance ∧
    IsSumOfLatest (db.pool shouldTempTableBeUsed) (getSubUsersIdsByMasterUserId auth row.user_id)
      (·._nativeBalanceUsd) row.toEntry row'.balanceUsd

/-- The rows the hook is to recalculate. -/
def Db.pending (shouldTempTableBeUsed : Bool) (auth : List AuthPayload) (db : Db) : List Row :=
  ((db.table shouldTempTableBeUsed).elim [] Table.rows).filter fun row =>
    Pending (getRequiredUserIds auth) row

/-- The latest entry of a sub-user can be found for an entry of a batch: its id is not above
the entry's, and it is in the batch, or the newest row of its sub-user by the timestamp of
the first record of another sub-user. -/
def AtHand (pool batch : List Entry) (entry : Entry) (subUserId : ℕ) : Prop :=
  (∃ elem, IsLatest pool entry subUserId (some elem)) →
    ∃ elem, IsLatest pool entry subUserId (some elem) ∧ elem.id ≤ entry.id ∧
      (elem ∈ batch ∨ ∃ first ∈ getFirstGroupedRecords batch, first.subUserId ≠ some subUserId ∧
        IsNewest atOrBefore (fun elem => OfSubUser subUserId first elem ∧ elem.mts ≤ first.mts)
          pool (some elem))

end Spec

section Batches

variable {limit : ℕ} {shouldTempTableBeUsed : Bool} {auth : List AuthPayload}

/-- The entries of the table the hook works on. -/
def Db.entries (shouldTempTableBeUsed : Bool) (db : Db) : List Entry :=
  (db.table shouldTempTableBeUsed).elim [] Table.entries

/-- The batches of the loop, which depend on the entries only. -/
def batchesFrom (limit : ℕ) (requiredUserIds : List ℕ) (entries : List Entry) :
    ℕ → ℤ → List ℕ → List (List Entry)
  | 0, _, _ => []
  | count + 1, mts, skipedIds =>
    let elems := getElemsInCollBy limit requiredUserIds entries mts skipedIds
    if h : elems = [] then []
    else
      let mts := (elems.getLast h).mts
      elems :: batchesFrom limit requiredUserIds entries count mts
        ((elems.filter fun elem => mts = elem.mts).map Entry._id)

/-- The timestamp the hook starts at, 0 where it has nothing to do. -/
def startMts (shouldTempTableBeUsed : Bool) (auth : List AuthPayload) (db : Db) : ℤ :=
  ((db.table shouldTempTableBeUsed).bind fun table =>
    (firstNotRecalcedElem (getRequiredUserIds auth) table).map Entry.mts).getD 0

/-- The batches of a run of the hook. -/
def batches (limit : ℕ) (shouldTempTableBeUsed : Bool) (auth : List AuthPayload) (db : Db) :
    List (List Entry) :=
  if startMts shouldTempTableBeUsed auth db = 0 then []
  else batchesFrom limit (getRequiredUserIds auth) (db.entries shouldTempTableBeUsed) maxCount
    (startMts shouldTempTableBeUsed auth db) []

/-- The last one of the batches an entry falls into. -/
def lastBatch (batches : List (List Entry)) (entry : Entry) : Option (List Entry) :=
  (batches.filter fun batch => entry ∈ batch).getLast?

@[simp] theorem Table.entries_update (table : Table) (recalcElems : List (ℕ × Recalc)) :
    (table.update recalcElems).entries = table.entries :=
  map_toEntry_updateElemsInCollBy table.rows recalcElems

/-- Two databases whose tables differ in the written columns at most. -/
def SameEntries (db db' : Db) : Prop :=
  db'.ledgers.entries = db.ledgers.entries ∧
    db'.tempLedgers.map Table.entries = db.tempLedgers.map Table.entries

theorem sameEntries_update (shouldTempTableBeUsed : Bool) (db : Db)
    (recalcElems : List (ℕ × Recalc)) :
    SameEntries db (db.update shouldTempTableBeUsed recalcElems) := by
  unfold SameEntries Db.update
  cases shouldTempTableBeUsed with
  | false => simp
  | true =>
    constructor
    · rfl
    · cases db.tempLedgers <;> simp

theorem SameEntries.entries {db db' : Db} (h : SameEntries db db') :
    db'.entries shouldTempTableBeUsed = db.entries shouldTempTableBeUsed := by
  have hmap : ∀ table : Option Table,
      table.elim [] Table.entries = (table.map Table.entries).getD [] := by
    intro table
    cases table <;> rfl
  unfold Db.entries Db.table
  cases shouldTempTableBeUsed with
  | false => exact h.1
  | true => simp only [if_true, hmap, h.2]

theorem SameEntries.itemFromDb {db db' : Db} (h : SameEntries db db') (elem : Entry)
    (subUserId : ℕ) : itemFromDb shouldTempTableBeUsed db' elem subUserId =
      itemFromDb shouldTempTableBeUsed db elem subUserId := by
  have hbind : ∀ table : Option Table,
      (table.bind fun table => getElemInCollBy table elem subUserId) =
        (table.map Table.entries).bind fun entries =>
          (latestFirst atOrBefore (entries.filter fun item =>
            item.subUserId = some subUserId ∧ item.wallet = elem.wallet ∧
              item.currency = elem.currency ∧ item.user_id = elem.user_id ∧
                item.mts ≤ elem.mts)).head? := by
    intro table
    cases table <;> rfl
  unfold SubAccountLedgers.itemFromDb
  simp only [hbind, h.2]
  simp only [getElemInCollBy, h.1]

theorem SameEntries.recordsToGetBalances {db db' : Db} (h : SameEntries db db')
    (elems : List Entry) : recordsToGetBalances shouldTempTableBeUsed db' auth elems =
      recordsToGetBalances shouldTempTableBeUsed db auth elems := by
  simp only [SubAccountLedgers.recordsToGetBalances, getInitialElems, h.itemFromDb]

/-- A row after some batches. -/
def rewritten (shouldTempTableBeUsed : Bool) (auth : List AuthPayload) (db : Db)
    (batches : List (List Entry)) (row : Row) : Row :=
  batches.foldl (fun row batch => if row.toEntry ∈ batch then
    row.update (getRecalcBalance auth
      (recordsToGetBalances shouldTempTableBeUsed db auth batch) row.toEntry) else row) row

theorem rewritten_eq (db : Db) (batches : List (List Entry)) (row : Row) :
    rewritten shouldTempTableBeUsed auth db batches row =
      (lastBatch batches row.toEntry).elim row fun batch => row.update (getRecalcBalance auth
        (recordsToGetBalances shouldTempTableBeUsed db auth batch) row.toEntry) := by
  induction batches using List.reverseRecOn with
  | nil => rfl
  | append_singleton batches batch ih =>
    have hentry : (rewritten shouldTempTableBeUsed auth db batches row).toEntry = row.toEntry := by
      rw [ih]
      cases lastBatch batches row.toEntry <;> rfl
    have hstep : rewritten shouldTempTableBeUsed auth db (batches ++ [batch]) row =
        if row.toEntry ∈ batch then (rewritten shouldTempTableBeUsed auth db batches row).update
          (getRecalcBalance auth (recordsToGetBalances shouldTempTableBeUsed db auth batch)
            row.toEntry)
        else rewritten shouldTempTableBeUsed auth db batches row := by
      conv_lhs => rw [rewritten, List.foldl_append]
      simp only [List.foldl_cons, List.foldl_nil]
      rw [← rewritten, hentry]
    rw [hstep]
    by_cases hmem : row.toEntry ∈ batch
    · rw [if_pos hmem, ih]
      have hlast : lastBatch (batches ++ [batch]) row.toEntry = some batch := by
        simp [lastBatch, hmem]
      rw [hlast]
      cases lastBatch batches row.toEntry <;> rfl
    · rw [if_neg hmem, ih]
      have hlast : lastBatch (batches ++ [batch]) row.toEntry =
          lastBatch batches row.toEntry := by
        simp [lastBatch, hmem]
      rw [hlast]

/-- The row of an entry of the batch is written, the others keep their columns. -/
theorem updateElemsInCollBy_eq {table : Table} {elems : List Entry}
    (hsub : ∀ elem ∈ elems, elem ∈ table.entries) (recalc : Entry → Recalc) :
    updateElemsInCollBy table.rows (elems.map fun elem => (elem._id, recalc elem)) =
      table.rows.map fun row =>
        if row.toEntry ∈ elems then row.update (recalc row.toEntry) else row := by
  induction elems using List.reverseRecOn with
  | nil => simp [updateElemsInCollBy]
  | append_singleton elems elem ih =>
    have hinit : ∀ elem ∈ elems, elem ∈ table.entries := fun elem helem =>
      hsub elem (List.mem_append_left _ helem)
    have hstep : updateElemsInCollBy table.rows
        ((elems ++ [elem]).map fun elem => (elem._id, recalc elem)) =
        (updateElemsInCollBy table.rows (elems.map fun elem => (elem._id, recalc elem))).map
          fun row => if row._id = elem._id then row.update (recalc elem) else row := by
      unfold updateElemsInCollBy
      rw [List.map_append, List.foldl_append]
      rfl
    rw [hstep, ih hinit, List.map_map]
    apply List.map_congr_left
    intro row hrow
    -- the primary key makes the row of the batch this row
    have hkey : row._id = elem._id ↔ row.toEntry = elem := by
      constructor
      · intro hid
        rcases List.mem_map.mp (hsub elem (by simp)) with ⟨row', hrow', rfl⟩
        rw [List.inj_on_of_nodup_map table.nodup_id hrow hrow' hid]
      · rintro rfl
        rfl
    have hall : row.toEntry ∈ elems ++ [elem] ↔ row.toEntry ∈ elems ∨ row.toEntry = elem := by
      simp
    by_cases hmem : row.toEntry ∈ elems
    · simp only [Function.comp_apply, if_pos hmem, if_pos (hall.mpr (.inl hmem))]
      by_cases heq : row.toEntry = elem
      · rw [if_pos (show (row.update _)._id = elem._id from hkey.mpr heq), ← heq]
        rfl
      · exact if_neg fun hid : row._id = elem._id => heq (hkey.mp hid)
    · simp only [Function.comp_apply, if_neg hmem]
      by_cases heq : row.toEntry = elem
      · rw [if_pos (hkey.mpr heq), if_pos (hall.mpr (.inr heq)), heq]
      · rw [if_neg fun hid => heq (hkey.mp hid),
          if_neg fun hor => (hall.mp hor).elim hmem heq]

theorem mem_entries_of_mem_getElemsInCollBy {limit : ℕ} {requiredUserIds : List ℕ}
    {entries : List Entry} {mts : ℤ} {skipedIds : List ℕ} {entry : Entry}
    (h : entry ∈ getElemsInCollBy limit requiredUserIds entries mts skipedIds) :
    entry ∈ entries := by
  have hsorted := List.mem_of_mem_take h
  exact (List.mem_filter.mp ((List.mem_insertionSort _).mp hsorted)).1

theorem Db.table_update (shouldTempTableBeUsed : Bool) (db : Db) (recalcElems : List (ℕ × Recalc)) :
    (db.update shouldTempTableBeUsed recalcElems).table shouldTempTableBeUsed =
      (db.table shouldTempTableBeUsed).map (·.update recalcElems) := by
  cases shouldTempTableBeUsed <;> simp [Db.update, Db.table]

/-- What the loop leaves in the table: every row as its batches wrote it. -/
theorem recalcBatches_rows (limit : ℕ) (auth : List AuthPayload) (requiredUserIds : List ℕ)
    {table : Table} (count : ℕ) (db : Db)
    (mts : ℤ) (skipedIds : List ℕ) (htable : db.table shouldTempTableBeUsed = some table) :
    ∃ table', (recalcBatches limit shouldTempTableBeUsed auth requiredUserIds count db mts
        skipedIds).table shouldTempTableBeUsed = some table' ∧
      table'.rows = table.rows.map (rewritten shouldTempTableBeUsed auth db
        (batchesFrom limit requiredUserIds table.entries count mts skipedIds)) := by
  induction count generalizing db mts skipedIds table with
  | zero => exact ⟨table, htable, (List.map_id table.rows).symm⟩
  | succ count ih =>
    simp only [recalcBatches, batchesFrom, htable, Option.elim_some]
    by_cases hnil : getElemsInCollBy limit requiredUserIds table.entries mts skipedIds = []
    · rw [dif_pos hnil, dif_pos hnil]
      exact ⟨table, htable, (List.map_id table.rows).symm⟩
    · rw [dif_neg hnil, dif_neg hnil]
      have hmem : ∀ elem ∈ getElemsInCollBy limit requiredUserIds table.entries mts skipedIds,
          elem ∈ table.entries := fun elem helem => mem_entries_of_mem_getElemsInCollBy helem
      have hupdate := updateElemsInCollBy_eq hmem (getRecalcBalance auth
        (recordsToGetBalances shouldTempTableBeUsed db auth
          (getElemsInCollBy limit requiredUserIds table.entries mts skipedIds)))
      have hnext := fun recalcElems => db.table_update shouldTempTableBeUsed recalcElems
      simp only [htable, Option.map_some] at hnext
      obtain ⟨table', htable', hrows⟩ := ih _ _ _ (hnext _)
      refine ⟨table', htable', ?_⟩
      have hrows' : (table.update _).rows = _ := hupdate
      rw [hrows, Table.entries_update, hrows', List.map_map]
      apply List.map_congr_left
      intro row _
      simp only [Function.comp_apply, rewritten, (sameEntries_update _ db _).recordsToGetBalances,
        List.foldl_cons]

end Batches

section Found

variable {shouldTempTableBeUsed : Bool} {auth : List AuthPayload} {db : Db}

theorem isNewest_getElemInCollBy (table : Table) (elem : Entry) (subUserId : ℕ) :
    IsNewest atOrBefore (fun item => OfSubUser subUserId elem item ∧ item.mts ≤ elem.mts)
      table.entries (getElemInCollBy table elem subUserId) := by
  apply (isNewest_head?_latestFirst atOrBefore _ table.entries).congr fun _ => Iff.rfl
  intro item _
  simp only [OfSubUser, decide_eq_true_eq]
  tauto

theorem isNewest_itemFromDb (shouldTempTableBeUsed : Bool) (db : Db) (elem : Entry)
    (subUserId : ℕ) :
    IsNewest atOrBefore (fun item => OfSubUser subUserId elem item ∧ item.mts ≤ elem.mts)
      (db.pool shouldTempTableBeUsed) (itemFromDb shouldTempTableBeUsed db elem subUserId) := by
  have hhead : ∀ l : List Entry,
      IsNewest atOrBefore (fun _ => True) l (latestFirst atOrBefore l).head? := by
    intro l
    have := isNewest_head?_latestFirst atOrBefore (fun _ => true) l
    simpa using this
  apply IsNewest.append (isNewest_getElemInCollBy db.ledgers elem subUserId) _ (hhead _)
  cases shouldTempTableBeUsed with
  | false => intro item hitem; simp at hitem
  | true =>
    cases htemp : db.tempLedgers with
    | none => intro item hitem; simp at hitem
    | some table => exact isNewest_getElemInCollBy table elem subUserId

theorem mem_getInitialElems {firsts : List Entry} {elem : Entry} :
    elem ∈ getInitialElems shouldTempTableBeUsed db auth firsts ↔
      ∃ first ∈ firsts, ∃ subUserId ∈ getSubUsersIdsByMasterUserId auth first.user_id,
        first.subUserId ≠ some subUserId ∧
          itemFromDb shouldTempTableBeUsed db first subUserId = some elem := by
  simp only [getInitialElems, List.mem_flatMap, List.mem_filterMap,
    Option.ite_none_left_eq_some, ne_eq, eq_comm (a := some _) (b := Entry.subUserId _)]

theorem mem_recordsToGetBalances {elem : Entry} {batch : List Entry} :
    elem ∈ recordsToGetBalances shouldTempTableBeUsed db auth batch ↔
      elem ∈ getInitialElems shouldTempTableBeUsed db auth (getFirstGroupedRecords batch) ∨
        elem ∈ batch := by
  rw [recordsToGetBalances, mem_latestFirst, List.mem_append]

theorem recordsToGetBalances_subset {batch : List Entry}
    (hbatch : batch ⊆ db.pool shouldTempTableBeUsed) :
    recordsToGetBalances shouldTempTableBeUsed db auth batch ⊆ db.pool shouldTempTableBeUsed := by
  intro elem helem
  rcases mem_recordsToGetBalances.mp helem with hinitial | hbatch'
  · rcases mem_getInitialElems.mp hinitial with ⟨first, -, subUserId, -, -, hfound⟩
    have hnewest := isNewest_itemFromDb shouldTempTableBeUsed db first subUserId
    rw [hfound] at hnewest
    exact hnewest.1
  · exact hbatch hbatch'

theorem isNewest_findItem (shouldTempTableBeUsed : Bool) (auth : List AuthPayload) (db : Db)
    (batch : List Entry) (entry : Entry) (subUserId : ℕ) :
    IsNewest atOrBefore (fun elem => OfSubUser subUserId entry elem ∧ elem.id ≤ entry.id ∧
        elem.mts ≤ entry.mts)
      (recordsToGetBalances shouldTempTableBeUsed db auth batch)
      (findItem (recordsToGetBalances shouldTempTableBeUsed db auth batch) entry subUserId) := by
  unfold findItem
  rw [recordsToGetBalances, List.find?_filter]
  apply (isNewest_find?_latestFirst atOrBefore _ _).congr fun elem => mem_latestFirst atOrBefore
  intro elem _
  simp only [OfSubUser, decide_eq_true_eq]
  constructor
  · rintro ⟨⟨hsub, huser, hwallet, hcurrency⟩, hid, hmts⟩
    exact ⟨⟨hsub ▸ rfl, huser, hid, hmts, hwallet, hcurrency⟩, hsub⟩
  · rintro ⟨⟨-, huser, hid, hmts, hwallet, hcurrency⟩, hsub⟩
    exact ⟨⟨hsub, huser, hwallet, hcurrency⟩, hid, hmts⟩

/-- Entries that come at or before each other have the same place. -/
theorem atOrBefore_antisymm {entry entry' : Entry} (h : atOrBefore entry entry')
    (h' : atOrBefore entry' entry) : entry.mts = entry'.mts ∧ entry.id = entry'.id := by
  unfold atOrBefore at h h'
  omega

/-- A latest entry that is looked up for a batch is at hand in it. -/
theorem exists_mem_recordsToGetBalances {batch : List Entry} {entry elem first : Entry}
    {subUserId : ℕ} (hsubUser : subUserId ∈ getSubUsersIdsByMasterUserId auth entry.user_id)
    (hlatest : IsLatest (db.pool shouldTempTableBeUsed) entry subUserId (some elem))
    (hfirst : first ∈ getFirstGroupedRecords batch) (hne : first.subUserId ≠ some subUserId)
    (hnewest : IsNewest atOrBefore
      (fun elem => OfSubUser subUserId first elem ∧ elem.mts ≤ first.mts)
      (db.pool shouldTempTableBeUsed) (some elem)) :
    ∃ elem', IsLatest (db.pool shouldTempTableBeUsed) entry subUserId (some elem') ∧
      elem'.id = elem.id ∧ elem' ∈ recordsToGetBalances shouldTempTableBeUsed db auth batch := by
  have hitem := isNewest_itemFromDb shouldTempTableBeUsed db first subUserId
  obtain ⟨elem', hfound⟩ := Option.isSome_iff_exists.mp (hitem.isSome hnewest.1 hnewest.2.1)
  rw [hfound] at hitem
  have hplace := atOrBefore_antisymm (hitem.rel hnewest) (hnewest.rel hitem)
  have hof : OfSubUser subUserId entry elem' := by
    obtain ⟨-, huser, hwallet, hcurrency⟩ := hlatest.2.1.1
    obtain ⟨-, huser₁, hwallet₁, hcurrency₁⟩ := hnewest.2.1.1
    obtain ⟨hsub, huser₂, hwallet₂, hcurrency₂⟩ := hitem.2.1.1
    exact ⟨hsub, by rw [huser₂, ← huser₁, huser], by rw [hwallet₂, ← hwallet₁, hwallet],
      by rw [hcurrency₂, ← hcurrency₁, hcurrency]⟩
  have hbefore : atOrBefore elem' entry :=
    IsTrans.trans elem' elem entry (hitem.rel hnewest) hlatest.2.1.2
  refine ⟨elem', hlatest.of_rel hitem.1 ⟨hof, hbefore⟩ (hnewest.rel hitem), hplace.2, ?_⟩
  apply mem_recordsToGetBalances.mpr
  left
  apply mem_getInitialElems.mpr
  have huser : first.user_id = entry.user_id := by
    rw [← hitem.2.1.1.2.1, hof.2.1]
  exact ⟨first, hfirst, subUserId, huser ▸ hsubUser, hne, hfound⟩

/-- The hook finds the latest entry of a sub-user exactly where that entry is at hand. -/
theorem isLatest_findItem_iff {batch : List Entry} (hbatch : batch ⊆ db.pool shouldTempTableBeUsed)
    {entry : Entry} {subUserId : ℕ}
    (hsubUser : subUserId ∈ getSubUsersIdsByMasterUserId auth entry.user_id) :
    IsLatest (db.pool shouldTempTableBeUsed) entry subUserId
        (findItem (recordsToGetBalances shouldTempTableBeUsed db auth batch) entry subUserId) ↔
      AtHand (db.pool shouldTempTableBeUsed) batch entry subUserId := by
  have hpart := (isNewest_findItem shouldTempTableBeUsed auth db batch entry
    subUserId).iff_of_subset
    (p := fun elem => OfSubUser subUserId entry elem ∧ atOrBefore elem entry)
    (recordsToGetBalances_subset hbatch) (by
      rintro elem ⟨hof, hid, hmts⟩
      refine ⟨hof, ?_⟩
      unfold atOrBefore
      omega)
  apply hpart.trans
  constructor
  · intro h hexists
    obtain ⟨elem, hlatest, hmem, -, hid, -⟩ := h hexists
    refine ⟨elem, hlatest, hid, ?_⟩
    rcases mem_recordsToGetBalances.mp hmem with hinitial | hmem
    · right
      obtain ⟨first, hfirst, subUserId', -, hne, hfound⟩ := mem_getInitialElems.mp hinitial
      have hnewest := isNewest_itemFromDb shouldTempTableBeUsed db first subUserId'
      rw [hfound] at hnewest
      obtain rfl : subUserId' = subUserId :=
        Option.some_inj.mp (hnewest.2.1.1.1.symm.trans hlatest.2.1.1.1)
      exact ⟨first, hfirst, hne, hnewest⟩
    · exact .inl hmem
  · intro h hexists
    obtain ⟨elem, hlatest, hid, hfound⟩ := h hexists
    have hrecord : ∃ elem', IsLatest (db.pool shouldTempTableBeUsed) entry subUserId (some elem') ∧
        elem'.id = elem.id ∧
          elem' ∈ recordsToGetBalances shouldTempTableBeUsed db auth batch := by
      rcases hfound with hmem | ⟨first, hfirst, hne, hnewest⟩
      · exact ⟨elem, hlatest, rfl, mem_recordsToGetBalances.mpr (.inr hmem)⟩
      · exact exists_mem_recordsToGetBalances hsubUser hlatest hfirst hne hnewest
    obtain ⟨elem', hlatest', hid', hmem⟩ := hrecord
    refine ⟨elem', hlatest', hmem, hlatest'.2.1.1, by omega, ?_⟩
    have hbefore := hlatest'.2.1.2
    unfold atOrBefore at hbefore
    omega

end Found

end ReportsFramework.SubAccountLedgers
