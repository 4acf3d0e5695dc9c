/-
The hook recalculates every balance, whatever the native balances are, exactly where the
latest entries of the sub-users are at hand in the last batch of every entry.
-/
import Mathlib.Algebra.Order.BigOperators.Group.List
import ReportsFramework.SubAccountLedgerNatives

namespace ReportsFramework.SubAccountLedgers

section SumOrOwn

variable {own : Option ℚ} {balances : List ℚ}

theorem sumOrOwn_eq_zero (hown : own = some 0) (h : ∀ balance ∈ balances, balance = 0) :
    sumOrOwn own balances = some 0 := by
  unfold sumOrOwn
  by_cases hlength : balances.length = 0
  · rw [if_pos hlength, hown]
  · rw [if_neg hlength, List.sum_eq_zero h]

theorem sumOrOwn_ne_zero (hown : balances = [] → own ≠ some 0)
    (hnonneg : ∀ balance ∈ balances, 0 ≤ balance)
    (hpos : balances ≠ [] → ∃ balance ∈ balances, 0 < balance) :
    sumOrOwn own balances ≠ some 0 := by
  unfold sumOrOwn
  by_cases hlength : balances.length = 0
  · rw [if_pos hlength]
    exact hown (List.length_eq_zero_iff.mp hlength)
  · rw [if_neg hlength]
    obtain ⟨balance, hmem, hpos⟩ := hpos fun hnil => hlength (hnil ▸ rfl)
    have hle := List.single_le_sum hnonneg balance hmem
    intro hzero
    rw [Option.some_inj.mp hzero] at hle
    exact absurd hpos (not_lt_of_ge hle)

end SumOrOwn

section Iff

variable {limit : ℕ} {shouldTempTableBeUsed hasDataInserter : Bool} {auth : List AuthPayload}
variable {db : Db}

theorem mem_balances {native : Entry → Option ℚ} {subUsersIds : List ℕ}
    {items : ℕ → Option Entry} {balance : ℚ} :
    balance ∈ (subUsersIds.map items).filterMap (·.bind native) ↔
      ∃ subUserId ∈ subUsersIds, ∃ elem, items subUserId = some elem ∧
        native elem = some balance := by
  simp only [List.filterMap_map, List.mem_filterMap, Function.comp_apply, Option.bind_eq_some_iff]

/-- No balance is the sum of the latest ones for all native balances. -/
theorem not_forall_isSumOfLatest (pool : List Entry) (subUsersIds : List ℕ) (entry : Entry)
    (balance : Option ℚ) :
    ¬ ∀ native : Entry → Option ℚ, IsSumOfLatest pool subUsersIds native entry balance := by
  intro h
  obtain ⟨latest₀, -, hzero⟩ := h fun _ => some 0
  obtain ⟨latest₁, -, hone⟩ := h fun _ => some 1
  rw [sumOrOwn_eq_zero rfl] at hzero
  · apply sumOrOwn_ne_zero _ _ _ (hone.symm.trans hzero)
    · simp
    · intro balance hbalance
      obtain ⟨-, -, -, -, heq⟩ := mem_balances.mp hbalance
      simp [← Option.some_inj.mp heq]
    · intro hne
      obtain ⟨balance, hbalance⟩ := List.exists_mem_of_ne_nil _ hne
      refine ⟨balance, hbalance, ?_⟩
      obtain ⟨-, -, -, -, heq⟩ := mem_balances.mp hbalance
      simp [← Option.some_inj.mp heq]
  · intro balance hbalance
    obtain ⟨-, -, -, -, heq⟩ := mem_balances.mp hbalance
    exact (Option.some_inj.mp heq).symm

/-- The native balances that tell the latest entry of a sub-user from all others. -/
def indicator (entry elem : Entry) (subUserId : ℕ) (other : Entry) : Option ℚ :=
  some (if other.subUserId = some subUserId ∧ other.user_id = entry.user_id ∧
    other.wallet = entry.wallet ∧ other.currency = entry.currency ∧
      other.mts = elem.mts ∧ other.id = elem.id then 1 else 0)

theorem indicator_nonneg {entry elem other : Entry} {subUserId : ℕ} {balance : ℚ}
    (h : indicator entry elem subUserId other = some balance) : 0 ≤ balance := by
  rw [← Option.some_inj.mp h]
  split_ifs <;> decide

/-- Entries whose sums are right for all native balances are the latest ones. -/
theorem isLatest_of_forall_isSumOfLatest {pool : List Entry} {subUsersIds : List ℕ}
    {entry : Entry} {items : ℕ → Option Entry}
    (hitems : ∀ subUserId elem, items subUserId = some elem →
      elem ∈ pool ∧ OfSubUser subUserId entry elem ∧ atOrBefore elem entry)
    (hown : ∀ subUserId ∈ subUsersIds, entry.subUserId = some subUserId →
      IsLatest pool entry subUserId (items subUserId))
    (hsum : ∀ native, IsSumOfLatest pool subUsersIds native entry
      (sumOfItems native entry (subUsersIds.map items)))
    {subUserId : ℕ} (hsubUser : subUserId ∈ subUsersIds) :
    IsLatest pool entry subUserId (items subUserId) := by
  by_contra hnot
  have hexists : ∃ elem ∈ pool, OfSubUser subUserId entry elem ∧ atOrBefore elem entry := by
    cases hitem : items subUserId with
    | some elem => exact ⟨elem, hitems subUserId elem hitem⟩
    | none =>
      by_contra hnone
      rw [hitem] at hnot
      exact hnot fun elem hmem hof => hnone ⟨elem, hmem, hof⟩
  obtain ⟨elem, hmem, hof⟩ := hexists
  obtain ⟨last, hlast⟩ : ∃ last, IsLatest pool entry subUserId (some last) :=
    exists_isNewest hmem hof
  obtain ⟨latest, hlatest, hbalance⟩ := hsum (indicator entry last subUserId)
  -- the hook sums zeros: no entry it takes for the sub-user is in the latest one's place
  have hzero : sumOfItems (indicator entry last subUserId) entry (subUsersIds.map items) =
      some 0 := by
    apply sumOrOwn_eq_zero
    · apply congrArg some
      apply if_neg
      intro h
      exact hnot (hown subUserId hsubUser h.1)
    · intro balance hbalance
      obtain ⟨subUserId', -, elem', hitem, hindicator⟩ := mem_balances.mp hbalance
      rw [← Option.some_inj.mp hindicator]
      apply if_neg
      rintro ⟨hsub, -, -, -, hmts, hid⟩
      obtain ⟨hmem', hof', hbefore⟩ := hitems subUserId' elem' hitem
      obtain rfl : subUserId' = subUserId := Option.some_inj.mp (hof'.1.symm.trans hsub)
      apply hnot
      rw [hitem]
      exact hlast.of_rel hmem' ⟨hof', hbefore⟩ (.inr ⟨hmts.symm, hid.ge⟩)
  rw [hzero] at hbalance
  -- a latest entry counts one
  have hone : (1 : ℚ) ∈ (subUsersIds.map latest).filterMap
      (·.bind (indicator entry last subUserId)) := by
    have hlatest := hlatest subUserId hsubUser
    obtain ⟨elem', helem'⟩ := Option.isSome_iff_exists.mp (hlatest.isSome hlast.1 hlast.2.1)
    rw [helem'] at hlatest
    refine mem_balances.mpr ⟨subUserId, hsubUser, elem', helem', ?_⟩
    have hplace := atOrBefore_antisymm (hlatest.rel hlast) (hlast.rel hlatest)
    obtain ⟨hsub, huser, hwallet, hcurrency⟩ := hlatest.2.1.1
    exact congrArg some (if_pos ⟨hsub, huser, hwallet, hcurrency, hplace.1, hplace.2⟩)
  apply sumOrOwn_ne_zero _ _ _ hbalance.symm
  · intro hnil
    rw [hnil] at hone
    simp at hone
  · intro balance hmem
    obtain ⟨_, _, _, _, hindicator⟩ := mem_balances.mp hmem
    exact indicator_nonneg hindicator
  · intro _
    exact ⟨1, hone, by decide⟩

/-- The sums of a row are right for all native balances exactly where the latest entries
are at hand in its last batch. -/
theorem forall_isSumOfLatest_iff (row : Row) (balance : Option ℚ) :
    (∀ native, IsSumOfLatest (db.pool shouldTempTableBeUsed)
        (getSubUsersIdsByMasterUserId auth row.user_id) native row.toEntry
        (balanceAfter limit shouldTempTableBeUsed auth db native row.toEntry balance)) ↔
      ∃ batch, lastBatch (batches limit shouldTempTableBeUsed auth db) row.toEntry = some batch ∧
        ∀ subUserId ∈ getSubUsersIdsByMasterUserId auth row.user_id,
          AtHand (db.pool shouldTempTableBeUsed) batch row.toEntry subUserId := by
  unfold balanceAfter
  cases hlast : lastBatch (batches limit shouldTempTableBeUsed auth db) row.toEntry with
  | none => simp [not_forall_isSumOfLatest]
  | some batch =>
    obtain ⟨hbatch, hmem⟩ := mem_lastBatch hlast
    have hpool : batch ⊆ db.pool shouldTempTableBeUsed :=
      fun _ hentry => entries_subset_pool (batch_subset_entries hbatch hentry)
    simp only [Option.elim_some, Option.some_inj, exists_eq_left']
    constructor
    · intro hsum subUserId hsubUser
      apply (isLatest_findItem_iff hpool hsubUser).mp
      apply isLatest_of_forall_isSumOfLatest _ _ hsum hsubUser
      · intro subUserId elem hfound
        have hnewest := isNewest_findItem shouldTempTableBeUsed auth db batch row.toEntry subUserId
        rw [hfound] at hnewest
        obtain ⟨hmem, ⟨hof, hid, hmts⟩, -⟩ := hnewest
        refine ⟨recordsToGetBalances_subset hpool hmem, hof, ?_⟩
        unfold atOrBefore
        omega
      · -- the entry itself is the latest one of its own sub-user
        intro subUserId hsubUser hown
        apply (isLatest_findItem_iff hpool hsubUser).mpr
        intro _
        refine ⟨row.toEntry, ⟨hpool hmem, ⟨⟨hown, rfl, rfl, rfl⟩, ?_⟩, ?_⟩, le_refl _, .inl hmem⟩
        · exact .inr ⟨rfl, le_refl _⟩
        · exact fun _ _ hof => hof.2
    · intro hhand native
      refine ⟨findItem (recordsToGetBalances shouldTempTableBeUsed db auth batch) row.toEntry,
        ?_, rfl⟩
      intro subUserId hsubUser
      exact (isLatest_findItem_iff hpool hsubUser).mpr (hhand subUserId hsubUser)

/-- Whatever the native balances of the entries are, every row that was not recalculated yet
gets the sum over the sub-users of their latest native balances exactly when each such row
falls into a batch, and the latest entry of every sub-user is at hand in its last one. -/
theorem balances_recalced_iff (limit : ℕ) (shouldTempTableBeUsed hasDataInserter : Bool)
    (auth : List AuthPayload) (db : Db) :
    (∀ native nativeUsd : Entry → Option ℚ,
        ∀ row ∈ (db.withNatives native nativeUsd).pending shouldTempTableBeUsed auth,
          Recalced limit shouldTempTableBeUsed hasDataInserter auth
            (db.withNatives native nativeUsd) row) ↔
      ∀ row ∈ db.pending shouldTempTableBeUsed auth, ∃ batch,
        lastBatch (batches limit shouldTempTableBeUsed auth db) row.toEntry = some batch ∧
          ∀ subUserId ∈ getSubUsersIdsByMasterUserId auth row.user_id,
            AtHand (db.pool shouldTempTableBeUsed) batch row.toEntry subUserId := by
  constructor
  · intro h row hrow
    apply (forall_isSumOfLatest_iff row row.balance).mp
    intro native
    have hrow' : row.withNatives native native ∈
        (db.withNatives native native).pending shouldTempTableBeUsed auth := by
      rw [pending_withNatives]
      exact List.mem_map_of_mem hrow
    exact ((recalced_withNatives_iff hrow).mp (h native native _ hrow')).1
  · intro h native nativeUsd row' hrow'
    rw [pending_withNatives] at hrow'
    rcases List.mem_map.mp hrow' with ⟨row, hrow, rfl⟩
    apply (recalced_withNatives_iff hrow).mpr
    exact ⟨(forall_isSumOfLatest_iff row row.balance).mpr (h row hrow) native,
      (forall_isSumOfLatest_iff row row.balanceUsd).mpr (h row hrow) nativeUsd⟩

end Iff

/-
A transfer from the sub-user 11 to the sub-user 12: both of its entries have one timestamp,
and the balance before it is in the main table.
-/
namespace TransferWitness

def auth : List AuthPayload :=
  [{ _id := 1, isSubAccount := true, subUser := some 11 },
    { _id := 1, isSubAccount := true, subUser := some 12 }]

def row (_id : ℕ) (id mts : ℤ) (subUserId : ℕ) (_nativeBalance : ℚ)
    (_isBalanceRecalced : Option ℕ) : Row where
  _id := _id
  id := id
  mts := mts
  wallet := "exchange"
  currency := "BTC"
  user_id := 1
  subUserId := some subUserId
  _nativeBalance := some _nativeBalance
  _nativeBalanceUsd := none
  balance := some _nativeBalance
  balanceUsd := none
  _isBalanceRecalced := _isBalanceRecalced

def before : Row := row 1 1 10 11 7 (some 1)

def received : Row := row 1 2 20 12 2 none

def sent : Row := row 2 3 20 11 5 none

def db : Db where
  ledgers := { rows := [before], nodup_id := by decide }
  tempLedgers := some { rows := [received, sent], nodup_id := by decide }

/-- The only entry of a sub-user at or before an entry is its latest one. -/
theorem latest_unique {pool : List Entry} {entry elem : Entry} {subUserId : ℕ}
    {item : Option Entry} (hitem : IsLatest pool entry subUserId item) (hmem : elem ∈ pool)
    (hof : OfSubUser subUserId entry elem ∧ atOrBefore elem entry)
    (hall : ∀ elem' ∈ pool, OfSubUser subUserId entry elem' ∧ atOrBefore elem' entry →
      elem' = elem) : item = some elem := by
  obtain ⟨elem', rfl⟩ := Option.isSome_iff_exists.mp (hitem.isSome hmem hof)
  rw [hall elem' hitem.1 hitem.2.1]

/-- The look-up by the timestamp alone finds the entry sent after the one received, and the
balance before the transfer is not summed. -/
theorem transfer_not_summed :
    ¬ ∀ row ∈ db.pending true auth, Recalced batchLimit true true auth db row := by
  intro h
  have hpending : received ∈ db.pending true auth := by decide
  have hafter : balanceAfter batchLimit true auth db (·._nativeBalance) received.toEntry
      received.balance = some 2 := by decide +kernel
  obtain ⟨latest, hlatest, hbalance⟩ := ((recalced_iff hpending).mp (h received hpending)).1
  have hpool : db.pool true = [before.toEntry, received.toEntry, sent.toEntry] := rfl
  rw [hpool] at hlatest
  have hbefore : latest 11 = some before.toEntry := by
    apply latest_unique (hlatest 11 (by decide)) (by decide) (by decide)
    decide
  have hreceived : latest 12 = some received.toEntry := by
    apply latest_unique (hlatest 12 (by decide)) (by decide) (by decide)
    decide
  have hids : getSubUsersIdsByMasterUserId auth received.user_id = [11, 12] := rfl
  rw [hafter, hids] at hbalance
  simp only [List.map_cons, List.map_nil, hbefore, hreceived] at hbalance
  exact absurd hbalance (by decide +kernel)

end TransferWitness

end ReportsFramework.SubAccountLedgers
