/-
The two periods of the report.  Their queries select a withdrawal by the time it was
started, while it is dated by its update.
-/
import ReportsFramework.Movements

namespace ReportsFramework

section Windows

/-- What is selected by one time may be dated into another period by a later one. -/
def Straddles (start finish selectedAt date : ℕ) : Prop :=
  (selectedAt < start ∧ start ≤ date) ∨ (start ≤ selectedAt ∧ selectedAt ≤ finish ∧ finish < date)

instance (start finish selectedAt date : ℕ) : Decidable (Straddles start finish selectedAt date) :=
  inferInstanceAs (Decidable (_ ∨ _))

variable {start finish selectedAt date : ℕ}

theorem not_straddles_self : ¬ Straddles start finish date date := by
  unfold Straddles
  omega

theorem before_of_not_straddles (h : ¬ Straddles start finish selectedAt date)
    (hselected : selectedAt < start) : date < start := by
  unfold Straddles at h
  omega

theorem within_of_not_straddles (h : ¬ Straddles start finish selectedAt date)
    (hle : selectedAt ≤ date) (hselected : start ≤ selectedAt ∧ selectedAt ≤ finish) :
    start ≤ date ∧ date ≤ finish := by
  unfold Straddles at h
  omega

end Windows

/-- A withdrawal that was not canceled. -/
def StoredMovement.isWithdrawal (movement : StoredMovement) : Bool :=
  movement.amount.any (· < 0) && movement.status.any (· != "CANCELED")

/-- A deposit that was completed. -/
def StoredMovement.isDeposit (movement : StoredMovement) : Bool :=
  movement.amount.any (0 < ·) && movement.status == some "COMPLETED"

/-- A ledger that is read as a movement. -/
def StoredLedger.isMovement (ledger : StoredLedger) : Bool :=
  (ledger.isExtraPayment true || ledger._isSubAccountsTransfer) &&
    (ledger.amount.any (· < 0) || ledger.amount.any (0 < ·))

/-- The transactions of a user's history, each with the time that its query goes by. -/
inductive TaxStore.Holds (env : TaxEnv) (store : TaxStore) (user_id : ℕ) : ℕ → ReportTrx → Prop
  | trade {trade : StoredTrade} {mtsCreate : ℕ} {trx : ReportTrx} (htrade : trade ∈ store.trades)
      (huser : trade.user_id = user_id) (hexchange : trade._isExchange = true)
      (hmts : trade.mtsCreate = some mtsCreate)
      (hremap : (remapTrade env trade.toTradeRow).trx? = some trx) :
      Holds env store user_id mtsCreate trx
  | withdrawal {movement : StoredMovement} {trx : ReportTrx}
      (hmovement : movement ∈ store.movements) (huser : movement.user_id = user_id)
      (hkind : movement.isWithdrawal = true)
      (hremap : (remapMovement env movement.row).trx? = some trx) :
      Holds env store user_id movement.mtsStarted trx
  | deposit {movement : StoredMovement} {trx : ReportTrx} (hmovement : movement ∈ store.movements)
      (huser : movement.user_id = user_id) (hkind : movement.isDeposit = true)
      (hremap : (remapMovement env movement.row).trx? = some trx) :
      Holds env store user_id movement.mtsUpdated trx
  | ledger {ledger : StoredLedger} {trx : ReportTrx} (hledger : ledger ∈ store.ledgers)
      (huser : ledger.user_id = user_id) (hkind : ledger.isMovement = true)
      (hremap : (remapMovement env ledger.row).trx? = some trx) :
      Holds env store user_id ledger.mts trx

section Selection

variable {env : TaxEnv} {store : TaxStore} {user_id start finish : ℕ} {trx : ReportTrx}

theorem mtsCreate_of_remapTrade {row : TradeRow} (h : (remapTrade env row).trx? = some trx) :
    row.mtsCreate = some trx.mtsCreate := by
  unfold remapTrade at h
  split at h
  next hmts _ _ =>
    rw [hmts]
    split at h
    · cases h
    · dsimp only at h
      split at h
      · cases h
        rfl
      · split at h <;> cases h <;> rfl
  · cases h

theorem mtsCreate_of_remapMovement {row : MovementRow}
    (h : (remapMovement env row).trx? = some trx) : row.mtsUpdated = some trx.mtsCreate := by
  unfold remapMovement at h
  split at h
  next hmts _ =>
    rw [hmts]
    split at h
    · cases h
    · dsimp only at h
      split at h
      · cases h
        rfl
      · split at h <;> cases h <;> rfl
  · cases h

theorem mem_getTrades {trade : StoredTrade} :
    trade ∈ getTrades store user_id start finish ↔ trade ∈ store.trades ∧
      trade.user_id = user_id ∧ trade._isExchange = true ∧
        ∃ mtsCreate, trade.mtsCreate = some mtsCreate ∧ start ≤ mtsCreate ∧ mtsCreate ≤ finish := by
  unfold getTrades
  rw [List.mem_insertionSort, List.mem_filter]
  cases hmts : trade.mtsCreate with
  | none => simp
  | some mtsCreate => simp [and_assoc]

theorem mem_getMovements {params : MovementsParams} {row : MovementRow}
    (hparams : params.isMovementsWithoutSATransferLedgers = false) :
    row ∈ getMovements store params ↔
      (∃ movement ∈ store.movements, movement.user_id = params.user_id ∧
        params.filter.holds movement = true ∧ movement.row = row) ∨
      ∃ ledger ∈ store.ledgers, (ledger.isExtraPayment params.areExtraPaymentsIncluded ||
        ledger._isSubAccountsTransfer) = true ∧ params.holdsOfLedger ledger = true ∧
          ledger.row = row := by
  unfold getMovements getExtraMovements getSubAccountsTransferLedgers
  simp only [hparams, List.mem_insertionSort, List.mem_append, List.mem_map, List.mem_filter,
    Bool.and_eq_true, beq_iff_eq, Bool.false_eq_true, ↓reduceIte, Bool.or_eq_true]
  grind

theorem holdsOfLedger_withdrawals {ledger : StoredLedger} :
    (withdrawalsParams user_id start finish).holdsOfLedger ledger = true ↔
      ledger.user_id = user_id ∧ (start ≤ ledger.mts ∧ ledger.mts ≤ finish) ∧
        ledger.amount.any (· < 0) = true := by
  unfold MovementsParams.holdsOfLedger
  simp only [Bool.and_eq_true, decide_eq_true_eq, beq_iff_eq]
  simp [withdrawalsParams, and_assoc]

theorem holdsOfLedger_deposits {ledger : StoredLedger} :
    (depositsParams user_id start finish).holdsOfLedger ledger = true ↔
      ledger.user_id = user_id ∧ (start ≤ ledger.mts ∧ ledger.mts ≤ finish) ∧
        ledger.amount.any (0 < ·) = true := by
  unfold MovementsParams.holdsOfLedger
  simp only [Bool.and_eq_true, decide_eq_true_eq, beq_iff_eq]
  simp [depositsParams, and_assoc]

/-- `#getTrxs` takes the transactions of the history whose queries' times are within the
bounds. -/
theorem mem_getTrxs :
    trx ∈ (store.getTrxs env user_id start finish).remappedTrxs ↔
      ∃ mts, store.Holds env user_id mts trx ∧ start ≤ mts ∧ mts ≤ finish := by
  simp only [TaxStore.getTrxs, mem_sortTrxs, remapMovements, remapTrades, mem_remappedTrxs_foldl,
    List.not_mem_nil, false_or, List.mem_append]
  constructor
  · rintro (⟨row, hrow, hremap⟩ | ⟨row, hrow, hremap⟩)
    · obtain ⟨trade, htrade, rfl⟩ := List.mem_map.mp hrow
      obtain ⟨htrade, huser, hexchange, mtsCreate, hmts, hwithin⟩ := mem_getTrades.mp htrade
      exact ⟨mtsCreate, .trade htrade huser hexchange hmts hremap, hwithin⟩
    · rcases hrow with hrow | hrow
      · rcases (mem_getMovements rfl).mp hrow with
          ⟨movement, hmovement, huser, hholds, rfl⟩ | ⟨ledger, hledger, hkind, hholds, rfl⟩
        · obtain ⟨hwithin, hamount, hstatus⟩ := holds_withdrawals.mp hholds
          refine ⟨movement.mtsStarted, .withdrawal hmovement huser ?_ hremap, hwithin⟩
          unfold StoredMovement.isWithdrawal
          rw [hamount, hstatus]
          rfl
        · obtain ⟨huser, hwithin, hamount⟩ := holdsOfLedger_withdrawals.mp hholds
          refine ⟨ledger.mts, .ledger hledger huser ?_ hremap, hwithin⟩
          unfold StoredLedger.isMovement
          rw [show (ledger.isExtraPayment true || ledger._isSubAccountsTransfer) = true from hkind,
            hamount]
          rfl
      · rcases (mem_getMovements rfl).mp hrow with
          ⟨movement, hmovement, huser, hholds, rfl⟩ | ⟨ledger, hledger, hkind, hholds, rfl⟩
        · obtain ⟨hwithin, hamount, hstatus⟩ := holds_deposits.mp hholds
          refine ⟨movement.mtsUpdated, .deposit hmovement huser ?_ hremap, hwithin⟩
          unfold StoredMovement.isDeposit
          rw [hamount, hstatus]
          rfl
        · obtain ⟨huser, hwithin, hamount⟩ := holdsOfLedger_deposits.mp hholds
          refine ⟨ledger.mts, .ledger hledger huser ?_ hremap, hwithin⟩
          unfold StoredLedger.isMovement
          rw [show (ledger.isExtraPayment true || ledger._isSubAccountsTransfer) = true from hkind,
            hamount, Bool.or_true]
          rfl
  · rintro ⟨mts, hholds, hwithin⟩
    cases hholds with
    | @trade trade mtsCreate trx htrade huser hexchange hmts hremap =>
      left
      refine ⟨trade.toTradeRow, List.mem_map.mpr ⟨trade, ?_, rfl⟩, hremap⟩
      exact mem_getTrades.mpr ⟨htrade, huser, hexchange, mts, hmts, hwithin⟩
    | @withdrawal movement trx hmovement huser hkind hremap =>
      right
      refine ⟨movement.row, .inl ((mem_getMovements rfl).mpr ?_), hremap⟩
      left
      have hkind := Bool.and_eq_true_iff.mp hkind
      exact ⟨movement, hmovement, huser, holds_withdrawals.mpr ⟨hwithin, hkind⟩, rfl⟩
    | @deposit movement trx hmovement huser hkind hremap =>
      right
      refine ⟨movement.row, .inr ((mem_getMovements rfl).mpr ?_), hremap⟩
      left
      obtain ⟨hamount, hstatus⟩ := Bool.and_eq_true_iff.mp hkind
      exact ⟨movement, hmovement, huser,
        holds_deposits.mpr ⟨hwithin, hamount, beq_iff_eq.mp hstatus⟩, rfl⟩
    | @ledger ledger trx hledger huser hkind hremap =>
      right
      obtain ⟨hkind, hamount⟩ := Bool.and_eq_true_iff.mp hkind
      rcases Bool.or_eq_true_iff.mp hamount with hamount | hamount
      · refine ⟨ledger.row, .inl ((mem_getMovements rfl).mpr (.inr ?_)), hremap⟩
        exact ⟨ledger, hledger, hkind, holdsOfLedger_withdrawals.mpr ⟨huser, hwithin, hamount⟩, rfl⟩
      · refine ⟨ledger.row, .inr ((mem_getMovements rfl).mpr (.inr ?_)), hremap⟩
        exact ⟨ledger, hledger, hkind, holdsOfLedger_deposits.mpr ⟨huser, hwithin, hamount⟩, rfl⟩

theorem TaxStore.Holds.le {mts : ℕ} (h : store.Holds env user_id mts trx) :
    mts ≤ trx.mtsCreate := by
  cases h with
  | trade _ _ _ hmts hremap =>
    have hdate := hmts.symm.trans (mtsCreate_of_remapTrade hremap)
    exact (Option.some.inj hdate).le
  | @withdrawal movement _ _ _ _ hremap =>
    have hdate := Option.some.inj (mtsCreate_of_remapMovement hremap)
    exact movement.mtsStarted_le.trans_eq hdate
  | deposit _ _ _ hremap => exact (Option.some.inj (mtsCreate_of_remapMovement hremap)).le
  | ledger _ _ _ hremap => exact (Option.some.inj (mtsCreate_of_remapMovement hremap)).le

/-- A withdrawal that the remap takes is selected for one period and dated into another. -/
def StraddlingWithdrawal (env : TaxEnv) (user_id start finish : ℕ) (movement : StoredMovement) :
    Prop :=
  movement.user_id = user_id ∧ movement.isWithdrawal = true ∧
    remapMovement env movement.row ≠ .skipped ∧
      Straddles start finish movement.mtsStarted movement.mtsUpdated

/-- Only withdrawals straddle. -/
theorem TaxStore.Holds.not_straddles {mts : ℕ} (h : store.Holds env user_id mts trx)
    (hnone : ∀ movement ∈ store.movements,
      ¬ StraddlingWithdrawal env user_id start finish movement) :
    ¬ Straddles start finish mts trx.mtsCreate := by
  cases h with
  | trade _ _ _ hmts hremap =>
    have hdate := hmts.symm.trans (mtsCreate_of_remapTrade hremap)
    rw [Option.some.inj hdate]
    exact not_straddles_self
  | @withdrawal movement _ hmovement huser hkind hremap =>
    rw [← Option.some.inj (mtsCreate_of_remapMovement hremap)]
    intro hstraddles
    refine hnone movement hmovement ⟨huser, hkind, ?_, hstraddles⟩
    intro hskipped
    rw [hskipped] at hremap
    cases hremap
  | deposit _ _ _ hremap =>
    rw [← Option.some.inj (mtsCreate_of_remapMovement hremap)]
    exact not_straddles_self
  | ledger _ _ _ hremap =>
    rw [← Option.some.inj (mtsCreate_of_remapMovement hremap)]
    exact not_straddles_self

end Selection

section Periods

variable {env : TaxEnv} {store : TaxStore} {user_id start finish : ℕ}

/-- The transactions of the requested period. -/
def TaxStore.currTrxs (env : TaxEnv) (store : TaxStore) (user_id start finish : ℕ) :
    List ReportTrx :=
  (store.getTrxs env user_id start finish).remappedTrxs

/-- Those of the previous period, which is not asked for if the requested one is empty. -/
def TaxStore.prevTrxs (env : TaxEnv) (store : TaxStore) (user_id start finish : ℕ) :
    List ReportTrx :=
  if (store.currTrxs env user_id start finish).isEmpty then []
  else if 0 < start then (store.getTrxs env user_id 0 (start - 1)).remappedTrxs
  else []

/-- Every transaction is dated within the period it is collected for, and every one dated
up to the end is collected for one of them. -/
structure PeriodsAttributed (env : TaxEnv) (store : TaxStore) (user_id start finish : ℕ) :
    Prop where
  prev : ∀ trx ∈ store.prevTrxs env user_id start finish, trx.mtsCreate < start
  curr : ∀ trx ∈ store.currTrxs env user_id start finish,
    start ≤ trx.mtsCreate ∧ trx.mtsCreate ≤ finish
  once : ∀ mts trx, store.Holds env user_id mts trx → trx.mtsCreate ≤ finish →
    Xor (trx ∈ store.prevTrxs env user_id start finish)
      (trx ∈ store.currTrxs env user_id start finish)
  sorted :
    (store.currTrxs env user_id start finish ++
      store.prevTrxs env user_id start finish).Pairwise
        fun newer older => older.mtsCreate ≤ newer.mtsCreate

/-- A transaction of the user is selected for the requested period. -/
def TaxStore.Requested (env : TaxEnv) (store : TaxStore) (user_id start finish : ℕ) : Prop :=
  ∃ mts trx, store.Holds env user_id mts trx ∧ start ≤ mts ∧ mts ≤ finish

theorem isEmpty_currTrxs :
    (store.currTrxs env user_id start finish).isEmpty = true ↔
      ¬ store.Requested env user_id start finish := by
  rw [List.isEmpty_iff, List.eq_nil_iff_forall_not_mem]
  constructor
  · rintro hnone ⟨mts, trx, hholds, hwithin⟩
    exact hnone trx (mem_getTrxs.mpr ⟨mts, hholds, hwithin⟩)
  · intro hnone trx htrx
    obtain ⟨mts, hholds, hwithin⟩ := mem_getTrxs.mp htrx
    exact hnone ⟨mts, trx, hholds, hwithin⟩

theorem prevTrxs_of_not_requested (h : ¬ store.Requested env user_id start finish) :
    store.prevTrxs env user_id start finish = [] := by
  rw [TaxStore.prevTrxs, if_pos (isEmpty_currTrxs.mpr h)]

theorem mem_prevTrxs {trx : ReportTrx} (h : store.Requested env user_id start finish) :
    trx ∈ store.prevTrxs env user_id start finish ↔
      ∃ mts, store.Holds env user_id mts trx ∧ mts < start := by
  rw [TaxStore.prevTrxs, if_neg fun hempty => isEmpty_currTrxs.mp hempty h]
  split
  next hstart =>
    rw [mem_getTrxs]
    constructor
    · rintro ⟨mts, hholds, -, hle⟩
      exact ⟨mts, hholds, by omega⟩
    · rintro ⟨mts, hholds, hlt⟩
      exact ⟨mts, hholds, by omega, by omega⟩
  next hstart =>
    constructor
    · exact nofun
    · rintro ⟨mts, -, hlt⟩
      omega

theorem pairwise_prevTrxs : (store.prevTrxs env user_id start finish).Pairwise
    fun newer older => older.mtsCreate ≤ newer.mtsCreate := by
  unfold TaxStore.prevTrxs
  split_ifs
  · exact .nil
  · exact pairwise_sortTrxs _
  · exact .nil

/-- A withdrawal that straddles is dated into another period than it is collected for. -/
theorem PeriodsAttributed.not_straddling (hrequested : store.Requested env user_id start finish)
    (hattributed : PeriodsAttributed env store user_id start finish) :
    ∀ movement ∈ store.movements, ¬ StraddlingWithdrawal env user_id start finish movement := by
  intro movement hmovement ⟨huser, hkind, hremapped, hstraddles⟩
  obtain ⟨trx, hremap⟩ : ∃ trx, (remapMovement env movement.row).trx? = some trx := by
    cases hrow : remapMovement env movement.row with
    | skipped => exact absurd hrow hremapped
    | priced trx => exact ⟨trx, rfl⟩
    | forConvToUsd trx => exact ⟨trx, rfl⟩
  have hdate : movement.mtsUpdated = trx.mtsCreate :=
    Option.some.inj (mtsCreate_of_remapMovement hremap)
  have hholds : store.Holds env user_id movement.mtsStarted trx :=
    .withdrawal hmovement huser hkind hremap
  rcases hstraddles with ⟨hstarted, hupdated⟩ | ⟨hstart, hfinish, hupdated⟩
  · have := hattributed.prev trx ((mem_prevTrxs hrequested).mpr ⟨_, hholds, hstarted⟩)
    omega
  · have := hattributed.curr trx (mem_getTrxs.mpr ⟨_, hholds, hstart, hfinish⟩)
    omega

theorem periodsAttributed_of_not_straddling
    (hrequested : store.Requested env user_id start finish)
    (hnone : ∀ movement ∈ store.movements,
      ¬ StraddlingWithdrawal env user_id start finish movement) :
    PeriodsAttributed env store user_id start finish := by
  have hprev : ∀ trx ∈ store.prevTrxs env user_id start finish, trx.mtsCreate < start := by
    intro trx htrx
    obtain ⟨mts, hholds, hlt⟩ := (mem_prevTrxs hrequested).mp htrx
    exact before_of_not_straddles (hholds.not_straddles hnone) hlt
  have hcurr : ∀ trx ∈ store.currTrxs env user_id start finish,
      start ≤ trx.mtsCreate ∧ trx.mtsCreate ≤ finish := by
    intro trx htrx
    obtain ⟨mts, hholds, hwithin⟩ := mem_getTrxs.mp htrx
    exact within_of_not_straddles (hholds.not_straddles hnone) hholds.le hwithin
  constructor
  · exact hprev
  · exact hcurr
  · intro mts trx hholds hfinish
    rcases Nat.lt_or_ge mts start with hlt | hge
    · left
      refine ⟨(mem_prevTrxs hrequested).mpr ⟨mts, hholds, hlt⟩, fun htrx => ?_⟩
      have := before_of_not_straddles (hholds.not_straddles hnone) hlt
      have := (hcurr trx htrx).1
      omega
    · right
      have hwithin : start ≤ mts ∧ mts ≤ finish := ⟨hge, hholds.le.trans hfinish⟩
      refine ⟨mem_getTrxs.mpr ⟨mts, hholds, hwithin⟩, fun htrx => ?_⟩
      have := hprev trx htrx
      have := hholds.le
      omega
  · rw [List.pairwise_append]
    refine ⟨pairwise_sortTrxs _, pairwise_prevTrxs, ?_⟩
    intro newer hnewer older holder
    have := hprev older holder
    have := (hcurr newer hnewer).1
    omega

/-- Where nothing is selected for the requested period nothing is collected at all. -/
theorem periodsAttributed_of_not_requested
    (hrequested : ¬ store.Requested env user_id start finish) :
    PeriodsAttributed env store user_id start finish ↔
      ∀ mts trx, store.Holds env user_id mts trx → finish < trx.mtsCreate := by
  have hprev := prevTrxs_of_not_requested hrequested
  have hcurr : store.currTrxs env user_id start finish = [] :=
    List.isEmpty_iff.mp (isEmpty_currTrxs.mpr hrequested)
  constructor
  · intro hattributed mts trx hholds
    by_contra hle
    have honce := hattributed.once mts trx hholds (by omega)
    rw [hprev, hcurr] at honce
    simp [Xor] at honce
  · intro hnone
    constructor
    · simp [hprev]
    · simp [hcurr]
    · intro mts trx hholds hle
      have := hnone mts trx hholds
      omega
    · simp [hprev, hcurr]

/-- The periods are attributed exactly if something is selected for the requested one and no
withdrawal was started in another period than the one it was updated in, or nothing is selected
for it and nothing is dated up to its end. -/
theorem periods_attributed_iff (env : TaxEnv) (store : TaxStore) (user_id start finish : ℕ) :
    PeriodsAttributed env store user_id start finish ↔
      (store.Requested env user_id start finish ∧ ∀ movement ∈ store.movements,
        ¬ StraddlingWithdrawal env user_id start finish movement) ∨
      (¬ store.Requested env user_id start finish ∧
        ∀ mts trx, store.Holds env user_id mts trx → finish < trx.mtsCreate) := by
  by_cases hrequested : store.Requested env user_id start finish
  · simp only [hrequested, true_and, not_true_eq_false, false_and, or_false]
    exact ⟨fun h => h.not_straddling hrequested, periodsAttributed_of_not_straddling hrequested⟩
  · simp only [hrequested, false_and, not_false_eq_true, true_and, false_or]
    exact periodsAttributed_of_not_requested hrequested

end Periods

namespace PeriodWitness

def usdEnv : TaxEnv := ⟨["USD"], fun _ => ("", "")⟩

/-- A withdrawal of one bitcoin that was completed after the start of the period. -/
def withdrawal : StoredMovement where
  _id := 1
  user_id := 1
  currency := "BTC"
  mtsStarted := 9
  mtsUpdated := 11
  status := some "COMPLETED"
  amount := some (-1)
  fees := none
  exactUsdValue := some (-100)
  mtsStarted_le := by decide

/-- A deposit within the period. -/
def deposit : StoredMovement where
  _id := 2
  user_id := 1
  currency := "BTC"
  mtsStarted := 12
  mtsUpdated := 12
  status := some "COMPLETED"
  amount := some 1
  fees := none
  exactUsdValue := some 100
  mtsStarted_le := by decide

def store : TaxStore := ⟨[], [withdrawal, deposit], []⟩

/-- The withdrawal is collected for the period before it. -/
theorem withdrawal_misattributed :
    (store.prevTrxs usdEnv 1 10 20).map (·.mtsCreate) = [11] ∧
      (store.currTrxs usdEnv 1 10 20).map (·.mtsCreate) = [12] ∧
      ¬ PeriodsAttributed usdEnv store 1 10 20 := by
  have hprev : (store.prevTrxs usdEnv 1 10 20).map (·.mtsCreate) = [11] := by decide +kernel
  refine ⟨hprev, by decide +kernel, fun hattributed => ?_⟩
  have hmem : 11 ∈ (store.prevTrxs usdEnv 1 10 20).map (·.mtsCreate) := by
    rw [hprev]
    exact List.mem_singleton_self _
  obtain ⟨trx, htrx, hdate⟩ := List.mem_map.mp hmem
  have := hattributed.prev trx htrx
  omega

end PeriodWitness

end ReportsFramework
