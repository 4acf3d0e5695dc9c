/-
The win and loss report: at the end of every frame, what the balance has gained on the first
wallets beyond the deposits and withdrawals so far, with the change of the profit and loss of the
open positions.
-/
import ReportsFramework.FrameSums
import ReportsFramework.WinLossPerc

namespace ReportsFramework.WinLoss

open CalcGroupedData FrameSums

/-- What the report reads of a movement. -/
structure Movement where
  currency : String
  amount : Option ℚ
  amountUsd : Option ℚ
  mtsStarted : ℤ
  mtsUpdated : ℤ

/-- A wallet at the start of the range. -/
structure FirstWallet extends WalletRow where
  balanceUsd : Option ℚ

/-- The key and the amount that are added up: a forex currency without a value in USD is kept
as it is. -/
def usedAmount (forexSymbs : List String) (currency : String) (amount amountUsd : Option ℚ) :
    Option (String × ℚ) :=
  if forexSymbs.contains currency && amountUsd.isNone then
    amount.map fun amount => (currency, amount)
  else amountUsd.map fun amount => ("USD", amount)

def calcAmounts (used : ρ → Option (String × ℚ)) (data : List ρ) : Balances :=
  data.foldl (fun accum row => (used row).elim accum fun entry => addTo entry.1 entry.2 accum) []

/-- `_calcMovements`. -/
def calcMovements (forexSymbs : List String) (data : List Movement) : Balances :=
  calcAmounts (fun movement =>
    usedAmount forexSymbs movement.currency movement.amount movement.amountUsd) data

/-- The sum of the first wallets in `getDataToCalcWinLoss`. -/
def calcFirstWallets (forexSymbs : List String) (firstWallets : List FirstWallet) : Balances :=
  calcAmounts (fun wallet =>
    usedAmount forexSymbs wallet.currency (some wallet.balance) wallet.balanceUsd) firstWallets

/-- The value at the key `USD`. -/
def usd (vals : Balances) : Option ℚ := (vals.find? fun entry => entry.1 = "USD").map Prod.snd

/-- What `_calcMovements` gives to a group; an object without keys is no vals. -/
def calcGroup (forexSymbs : List String) (data : List Movement) : Option (Option ℚ) :=
  let vals := calcMovements forexSymbs data
  if vals = [] then none else some (usd vals)

structure WinLossState where
  firstPLVals : Option ℚ
  prevMovementsRes : Option ℚ

/-- The function of `_getWinLossByTimeframe`. -/
def getWinLossByTimeframe (isUnrealizedProfitExcluded : Bool) (firstWalletsVals : Option ℚ)
    (isFirst : Bool) (state : WinLossState) (frame : Frame) : ℚ × WinLossState :=
  let firstPLVals := if isFirst then frame.plGroupedByTimeframe else state.firstPLVals
  let prevMovementsRes := sumMovementsWithPrevRes state.prevMovementsRes
    frame.withdrawalsGroupedByTimeframe frame.depositsGroupedByTimeframe
  let realized := (frame.wallets - prevMovementsRes.getD 0) - firstWalletsVals.getD 0
  let unrealized := if isUnrealizedProfitExcluded then 0 else frame.pl - firstPLVals.getD 0
  (realized + unrealized, ⟨firstPLVals, prevMovementsRes⟩)

/-- An item with its index in a list of the given length.  The steps to the next frame are those
of `getMtsGroupedByTimeframe`. -/
def shiftItem (timeframe : Timeframe) (stop : ℤ) (length : ℕ) (item : GroupItem ℚ × ℕ) :
    Option (GroupItem ℚ) :=
  let isFirst := item.2 = 0
  let isLast := item.2 + 1 = length
  if isFirst ∧ getStartMtsByTimeframe stop timeframe = stop then none
  else if isLast then some item.1
  else some { item.1 with mts := nextFrame (if isFirst then stop else item.1.mts) timeframe }

def shiftMtsToNextTimeframe (groupedData : List (GroupItem ℚ)) (timeframe : Timeframe)
    (stop : ℤ) : List (GroupItem ℚ) :=
  groupedData.zipIdx.filterMap (shiftItem timeframe stop groupedData.length)

/-- What the services and the queries answer. -/
structure WinLossEnv where
  forexSymbs : List String
  getPriceFromData : String → ℤ → Option ℚ
  now : ℤ
  firstWallets : List FirstWallet
  wallets : List WalletRow
  withdrawals : List Movement
  deposits : List Movement
  plSnapshot : List (GroupItem (Option ℚ))

structure WinLossParams where
  timeframe : Timeframe
  start : ℤ
  stop : ℤ
  isUnrealizedProfitExcluded : Bool

/-- `getDataToCalcWinLoss`, without the transfers between sub-accounts, which the report does not
ask for.  The balance history is asked for without the profit and loss. -/
def getDataToCalcWinLoss (env : WinLossEnv) (params : WinLossParams) :
    SeriesKey → List (GroupItem (Option ℚ))
  | .walletsGroupedByTimeframe =>
      (getBalanceHistory env.getPriceFromData env.forexSymbs params.timeframe
        (env.firstWallets.map FirstWallet.toWalletRow) env.wallets [] params.start params.stop
        env.now).map fun item => ⟨item.1, some item.2⟩
  | .withdrawalsGroupedByTimeframe =>
      groupByTimeframe (fun movement => some movement.mtsStarted)
        (stateless (calcGroup env.forexSymbs)) params.timeframe () env.withdrawals params.start
        params.stop
  | .depositsGroupedByTimeframe =>
      groupByTimeframe (fun movement => some movement.mtsUpdated)
        (stateless (calcGroup env.forexSymbs)) params.timeframe () env.deposits params.start
        params.stop
  | .plGroupedByTimeframe => if params.isUnrealizedProfitExcluded then [] else env.plSnapshot

def firstWalletsVals (env : WinLossEnv) : Option ℚ :=
  usd (calcFirstWallets env.forexSymbs env.firstWallets)

/-- The grouped data, from the newest on. -/
def groupedData (env : WinLossEnv) (params : WinLossParams) : List (GroupItem ℚ) :=
  (calcGroupedData SeriesKey.all (seriesOf (getDataToCalcWinLoss env params))
    (fromOldest fun isFirst state item =>
      let res := getWinLossByTimeframe params.isUnrealizedProfitExcluded (firstWalletsVals env)
        isFirst state (.ofItem item.1)
      (some res.1, res.2)) true ⟨none, none⟩).1

def getWinLoss (env : WinLossEnv) (params : WinLossParams) : List (GroupItem ℚ) :=
  shiftMtsToNextTimeframe (groupedData env params ++ [⟨params.start, 0⟩]) params.timeframe
    params.stop

section Amounts

/-- What a row adds at the key `USD`. -/
def usdOf (used : ρ → Option (String × ℚ)) (row : ρ) : Option ℚ :=
  (used row).bind fun entry => if entry.1 = "USD" then some entry.2 else none

theorem usd_addTo (symb : String) (balance : ℚ) (accum : Balances) :
    usd (addTo symb balance accum) =
      if symb = "USD" then some ((usd accum).elim balance (· + balance)) else usd accum := by
  induction accum with
  | nil =>
      by_cases hsymb : symb = "USD"
      · simp [addTo, usd, hsymb]
      · simp [addTo, usd, hsymb]
  | cons entry rest ih =>
      obtain ⟨symb', sum⟩ := entry
      rw [addTo]
      by_cases heq : symb' = symb
      · subst heq
        by_cases hsymb : symb' = "USD"
        · simp [usd, hsymb]
        · simp [usd, hsymb]
      · rw [if_neg heq]
        by_cases hsymb : symb' = "USD"
        · have hne : symb ≠ "USD" := fun h => heq (hsymb.trans h.symm)
          simp [usd, hsymb, hne]
        · have hrest (accum' : Balances) : usd ((symb', sum) :: accum') = usd accum' := by
            simp [usd, hsymb]
          rw [hrest, hrest, ih]

theorem foldl_used (used : ρ → Option (String × ℚ)) (data : List ρ) (accum : Balances) :
    usd (data.foldl (fun accum row =>
        (used row).elim accum fun entry => addTo entry.1 entry.2 accum) accum) =
      data.foldl (addFinite (usdOf used)) (usd accum) := by
  induction data generalizing accum with
  | nil => rfl
  | cons row rest ih =>
      rw [List.foldl_cons, List.foldl_cons, ih]
      congr 1
      cases hused : used row with
      | none => simp [addFinite, usdOf, hused]
      | some entry =>
          rw [Option.elim_some, usd_addTo]
          by_cases hsymb : entry.1 = "USD"
          · simp [addFinite, usdOf, hused, hsymb]
          · simp [addFinite, usdOf, hused, hsymb]

/-- The sum at the key `USD` is that of the rows with an amount there. -/
theorem usd_calcAmounts (used : ρ → Option (String × ℚ)) (data : List ρ) :
    usd (calcAmounts used data) = sumOfFinite (usdOf used) data :=
  foldl_used used data []

/-- The amount in USD of a movement. -/
def Movement.usdAmount (forexSymbs : List String) (movement : Movement) : Option ℚ :=
  usdOf (fun movement : Movement =>
    usedAmount forexSymbs movement.currency movement.amount movement.amountUsd) movement

theorem calcGroup_nil (forexSymbs : List String) : calcGroup forexSymbs [] = none := rfl

theorem calcGroup_getD (forexSymbs : List String) (data : List Movement) :
    (calcGroup forexSymbs data).join.getD 0 = total (Movement.usdAmount forexSymbs) data := by
  have husd : usd (calcMovements forexSymbs data) =
      sumOfFinite (Movement.usdAmount forexSymbs) data := usd_calcAmounts _ data
  rw [sumOfFinite_eq] at husd
  have hgetD : (usd (calcMovements forexSymbs data)).getD 0 =
      total (Movement.usdAmount forexSymbs) data := by
    rw [husd]
    split_ifs with hnil
    · rw [total, hnil]
      rfl
    · rfl
  rw [← hgetD, calcGroup]
  by_cases hempty : calcMovements forexSymbs data = []
  · simp [hempty, usd]
  · simp [hempty]

end Amounts

section Balances

variable {timeframe : Timeframe} {rows : List WalletRow} {start stop : ℤ}

theorem reGroupLoop_sublist (unicGroup accum rows : List WalletRow) :
    (reGroupLoop unicGroup accum rows).Sublist (accum ++ unicGroup ++ rows) := by
  induction rows generalizing unicGroup accum with
  | nil =>
      rw [reGroupLoop, List.append_nil]
      exact List.sublist_append_left accum unicGroup
  | cons item rest ih =>
      rw [reGroupLoop]
      split_ifs
      · apply (ih unicGroup accum).trans
        exact (List.sublist_cons_self item rest).append_left _
      · have hrest := ih [] (accum ++ (unicGroup ++ [item]))
        simpa using hrest
      · have hrest := ih (unicGroup ++ [item]) accum
        simpa using hrest
      · have hrest := ih [] (accum ++ unicGroup ++ [item])
        simpa using hrest

theorem map_fst_reduceRight (getPriceFromData : String → ℤ → Option ℚ) (forexSymbs : List String)
    (now : ℤ) (prevRes : Balances) (items : List (MergedItem SeriesVals)) :
    (reduceRight (walletsByTimeframe getPriceFromData forexSymbs timeframe now) prevRes
      items).map Prod.fst = items.map MergedItem.mts := by
  induction items with
  | nil => rfl
  | cons item rest ih => exact congrArg (item.mts :: ·) ih

/-- The balance history has an item for every frame of the range. -/
theorem map_fst_getBalanceHistory (getPriceFromData : String → ℤ → Option ℚ)
    (forexSymbs : List String) (firstWallets : List WalletRow) (now : ℤ)
    (h : Aligned timeframe start stop WalletRow.mtsUpdate rows) :
    (getBalanceHistory getPriceFromData forexSymbs timeframe firstWallets rows [] start stop
      now).map Prod.fst = frameMts timeframe start stop := by
  have hsublist : (if timeframe = .week then reGroupWeeklyDataGroups rows else rows).Sublist
      rows := by
    split_ifs
    · exact reGroupLoop_sublist [] [] rows
    · exact List.Sublist.refl rows
  have hmerged := mergedSeries_mergeData firstWallets h.le h.start_eq
    h.start_isValid h.stop_isValid (h.sorted.sublist hsublist)
    (fun row hrow => h.range row (hsublist.subset hrow)) List.Pairwise.nil
    (fun item hitem => absurd hitem List.not_mem_nil)
  unfold getBalanceHistory
  rw [map_fst_reduceRight]
  exact hmerged.map_mts

end Balances

section Steps

open UtcCalendar

variable {timeframe : Timeframe} {start stop : ℤ}

/-- A month on, a date of some month is in the one it comes to. -/
theorem dayFromMonth_le_setMonth (t value : ℤ) :
    dayFromMonth (12 * Moment.year t + value) * Moment.msPerDay ≤ Moment.setMonth t value := by
  have hdate : 1 ≤ Moment.date t := by
    have hle := months.boundary_index_le (Moment.dayOf t)
    change dayFromMonth (12 * Moment.year t + Moment.month t) ≤ Moment.dayOf t at hle
    unfold Moment.date
    omega
  have hlength := dayFromMonth_succ (12 * Moment.year t + value)
  have hrest : 0 ≤ t % Moment.msPerDay := Int.emod_nonneg t (by decide)
  unfold Moment.setMonth
  dsimp only
  have hmul : dayFromMonth (12 * Moment.year t + value) * Moment.msPerDay ≤
      (dayFromMonth (12 * Moment.year t + value) + min (Moment.date t)
        (dayFromMonth (12 * Moment.year t + value + 1) -
          dayFromMonth (12 * Moment.year t + value)) - 1) * Moment.msPerDay := by
    apply Int.mul_le_mul_of_nonneg_right _ (by decide)
    omega
  omega

/-- The step from any time comes to the next frame. -/
theorem boundary_le_nextFrame (timeframe : Timeframe) (t : ℤ) :
    timeframe.frames.boundary (timeframe.frames.index t + 1) ≤ nextFrame t timeframe := by
  cases timeframe with
  | day =>
      change (Moment.dayOf t + 1) * Moment.msPerDay ≤ t + 1 * Moment.msPerDay
      unfold Moment.dayOf Moment.msPerDay
      omega
  | week =>
      change (7 * ((Moment.dayOf t + 3) / 7 + 1) - 3) * Moment.msPerDay ≤
        Moment.setIsoWeekday (t + 7 * 1 * Moment.msPerDay) 1
      unfold Moment.setIsoWeekday Moment.isoWeekday weekday Moment.dayOf Moment.msPerDay
      omega
  | month =>
      have hle := dayFromMonth_le_setMonth t (Moment.month t + 1)
      rw [← add_assoc] at hle
      exact hle
  | year =>
      have hle := dayFromMonth_le_setMonth t (Moment.month t + 12 * 1)
      have hmonth : 0 ≤ Moment.month t := (monthFromDay_spec (Moment.dayOf t)).1
      have hmono : dayFromMonth (12 * (Moment.year t + 1)) ≤
          dayFromMonth (12 * Moment.year t + (Moment.month t + 12 * 1)) :=
        months.boundary_mono (by omega)
      change Moment.ofYear (Moment.year t + 1) ≤ _
      rw [Moment.ofYear_eq]
      exact (Int.mul_le_mul_of_nonneg_right hmono (by decide)).trans hle

variable {mts : ρ → ℤ} {data : List ρ}

/-- A timestamp of the list of frames is the last one, or the start of its frame. -/
theorem eq_stop_or_start_eq (h : Aligned timeframe start stop mts data) {m : ℤ}
    (hm : m ∈ frameMts timeframe start stop) : m = stop ∨ timeframe.frames.start m = m := by
  have haligned := h.start_eq
  rw [getStartMtsByTimeframe_eq] at haligned
  rcases (h.isRange.mem_frameMts m).mp hm with
    heq | ⟨_, rfl⟩ | ⟨hframe, _⟩
  · exact Or.inl heq
  · exact Or.inr haligned
  · exact Or.inr hframe

theorem nextFrame_of_start_eq {m : ℤ} (hm : timeframe.frames.start m = m) :
    nextFrame m timeframe = timeframe.frames.boundary (timeframe.frames.index m + 1) := by
  have hnext := nextFrame_boundary timeframe (timeframe.frames.index m)
  change nextFrame (timeframe.frames.start m) timeframe = _ at hnext
  rwa [hm] at hnext

/-- The rows of the frames up to that of a timestamp are those before the next frame. -/
theorem frame_le_iff_lt_nextFrame (h : Aligned timeframe start stop mts data) {m : ℤ}
    (hm : m ∈ frameMts timeframe start stop) {row : ρ} (hrow : row ∈ data) :
    getStartMtsByTimeframe (mts row) timeframe ≤ timeframe.frames.start m ↔
      mts row < nextFrame m timeframe := by
  rw [getStartMtsByTimeframe_eq]
  rcases eq_stop_or_start_eq h hm with rfl | hframe
  · apply iff_of_true
    · exact timeframe.frames.start_mono (h.range row hrow).2
    · have hbefore := timeframe.frames.lt_boundary m
      have hnext := boundary_le_nextFrame timeframe m
      have hle := (h.range row hrow).2
      omega
  · rw [nextFrame_of_start_eq hframe]
    exact timeframe.frames.start_le_boundary_iff

/-- The steps from the timestamps keep their order. -/
theorem nextFrame_lt_nextFrame (h : Aligned timeframe start stop mts data) {m m' : ℤ}
    (hm : m ∈ frameMts timeframe start stop) (hm' : m' ∈ frameMts timeframe start stop)
    (hlt : m' < m) : nextFrame m' timeframe < nextFrame m timeframe := by
  have hframe : timeframe.frames.start m' = m' := by
    rcases eq_stop_or_start_eq h hm' with rfl | hframe
    · exact absurd (h.isRange.le_stop hm) (not_le.mpr hlt)
    · exact hframe
  have hindex : timeframe.frames.index m' < timeframe.frames.index m := by
    by_contra hle
    have hstarts : timeframe.frames.start m ≤ timeframe.frames.start m' :=
      timeframe.frames.boundary_mono (not_lt.mp hle)
    have hmono := timeframe.frames.start_mono hlt.le
    exact hlt.ne (h.isRange.start_inj hm' hm (le_antisymm hmono hstarts))
  rw [nextFrame_of_start_eq hframe]
  exact (timeframe.frames.boundary_lt_boundary (by omega)).trans_le
    (boundary_le_nextFrame timeframe m)

end Steps

section Shift

variable {timeframe : Timeframe} {stop : ℤ}

/-- An item with the timestamp of the next frame. -/
def shifted (timeframe : Timeframe) (item : GroupItem ℚ) : GroupItem ℚ :=
  { item with mts := nextFrame item.mts timeframe }

theorem filterMap_shiftItem (timeframe : Timeframe) (stop : ℤ) (k : ℕ)
    (items : List (GroupItem ℚ)) (last : GroupItem ℚ) :
    ((items ++ [last]).zipIdx (k + 1)).filterMap
        (shiftItem timeframe stop (k + 1 + items.length + 1)) =
      items.map (shifted timeframe) ++ [last] := by
  induction items generalizing k with
  | nil => simp [shiftItem]
  | cons item rest ih =>
      have hitem : shiftItem timeframe stop (k + 1 + (item :: rest).length + 1) (item, k + 1) =
          some (shifted timeframe item) := by
        simp [shiftItem, shifted]
      have hrest := ih (k + 1)
      have hlength : k + 1 + 1 + rest.length + 1 = k + 1 + (item :: rest).length + 1 := by
        rw [List.length_cons]
        omega
      rw [hlength] at hrest
      rw [List.cons_append, List.zipIdx_cons, List.filterMap_cons_some hitem, hrest]
      rfl

/-- The newest item is left out where the range ends with the start of a frame. -/
theorem shiftMtsToNextTimeframe_eq {first : GroupItem ℚ} (hfirst : first.mts = stop)
    (rest : List (GroupItem ℚ)) (last : GroupItem ℚ) :
    shiftMtsToNextTimeframe (first :: rest ++ [last]) timeframe stop =
      (if getStartMtsByTimeframe stop timeframe = stop then rest
        else first :: rest).map (shifted timeframe) ++ [last] := by
  have hrest := filterMap_shiftItem timeframe stop 0 rest last
  have hlength : (first :: rest ++ [last]).length = 0 + 1 + rest.length + 1 := by
    simp
    omega
  rw [shiftMtsToNextTimeframe, hlength, List.cons_append, List.zipIdx_cons]
  by_cases haligned : getStartMtsByTimeframe stop timeframe = stop
  · have hnone : shiftItem timeframe stop (0 + 1 + rest.length + 1) (first, 0) = none := by
      simp [shiftItem, haligned]
    rw [List.filterMap_cons_none hnone, if_pos haligned, hrest]
  · have hsome : shiftItem timeframe stop (0 + 1 + rest.length + 1) (first, 0) =
        some (shifted timeframe first) := by
      simp [shiftItem, haligned, shifted, hfirst]
    rw [List.filterMap_cons_some hsome, if_neg haligned, hrest]
    rfl

end Shift

section Run

variable (isUnrealizedProfitExcluded : Bool) (firstWalletsVals : Option ℚ)

/-- The profit of a frame, from the sum of the movements so far. -/
def profit (firstPL : ℚ) (frame : Frame) (movements : ℚ) : ℚ :=
  frame.wallets - movements - firstWalletsVals.getD 0 +
    if isUnrealizedProfitExcluded then 0 else frame.pl - firstPL

theorem runFrames_later (firstPLVals prevMovementsRes : Option ℚ) (frames : List Frame) :
    (runFrames (getWinLossByTimeframe isUnrealizedProfitExcluded firstWalletsVals) false
        ⟨firstPLVals, prevMovementsRes⟩ frames).1 =
      List.zipWith (profit isUnrealizedProfitExcluded firstWalletsVals (firstPLVals.getD 0)) frames
        (runningSums (prevMovementsRes.getD 0) (frames.map Frame.movements)) := by
  induction frames generalizing prevMovementsRes with
  | nil => rfl
  | cons frame rest ih =>
      have hmovements : (sumMovementsWithPrevRes prevMovementsRes
          frame.withdrawalsGroupedByTimeframe frame.depositsGroupedByTimeframe).getD 0 =
            prevMovementsRes.getD 0 + frame.movements := by
        simp only [sumMovementsWithPrevRes, Frame.movements, Frame.movementsRes, Option.getD_some,
          Option.getD_none, zero_add, add_assoc]
      rw [runFrames, List.map_cons, runningSums, List.zipWith_cons_cons, ← hmovements]
      exact congrArg _ (ih _)

/-- The frames are given from the oldest on. -/
theorem runFrames_eq (frames : List Frame) :
    (runFrames (getWinLossByTimeframe isUnrealizedProfitExcluded firstWalletsVals) true
        ⟨none, none⟩ frames).1 =
      List.zipWith (profit isUnrealizedProfitExcluded firstWalletsVals
          ((frames.head?.map Frame.pl).getD 0)) frames
        (runningSums 0 (frames.map Frame.movements)) := by
  cases frames with
  | nil => rfl
  | cons frame rest =>
      exact runFrames_later isUnrealizedProfitExcluded firstWalletsVals
        frame.plGroupedByTimeframe none (frame :: rest)

end Run

section Report

variable {env : WinLossEnv} {params : WinLossParams}

/-- What the report relies on: a range that begins with a frame, rows of the range from the newest
on, and a profit and loss at timestamps of the frames. -/
structure WinLossEnv.Proper (env : WinLossEnv) (params : WinLossParams) : Prop where
  wallets : Aligned params.timeframe params.start params.stop WalletRow.mtsUpdate env.wallets
  withdrawals :
    Aligned params.timeframe params.start params.stop Movement.mtsStarted env.withdrawals
  deposits : Aligned params.timeframe params.start params.stop Movement.mtsUpdated env.deposits
  pl_pairwise : env.plSnapshot.Pairwise fun item item' => item.mts > item'.mts
  pl_mts : ∀ item ∈ env.plSnapshot, item.mts ∈ frameMts params.timeframe params.start params.stop

/-- The series at a timestamp. -/
def frameAt (env : WinLossEnv) (params : WinLossParams) (m : ℤ) : Frame :=
  .ofItem ⟨m, fun key => valsAt (getDataToCalcWinLoss env params key) m⟩

theorem map_mts_wallets (h : env.Proper params) :
    (getDataToCalcWinLoss env params .walletsGroupedByTimeframe).map GroupItem.mts =
      frameMts params.timeframe params.start params.stop := by
  have hmts := map_fst_getBalanceHistory env.getPriceFromData env.forexSymbs
    (env.firstWallets.map FirstWallet.toWalletRow) env.now h.wallets
  rw [← hmts, getDataToCalcWinLoss, List.map_map]
  rfl

theorem pairwise_data (h : env.Proper params) (key : SeriesKey) :
    (getDataToCalcWinLoss env params key).Pairwise fun item item' => item.mts > item'.mts := by
  cases key with
  | walletsGroupedByTimeframe =>
      apply List.pairwise_map.mp
      rw [map_mts_wallets h]
      exact h.wallets.isRange.pairwise_frameMts
  | withdrawalsGroupedByTimeframe =>
      exact pairwise_groupByTimeframe Movement.mtsStarted _ _ _ _ _ (fun _ _ => rfl)
        h.withdrawals.sorted
  | depositsGroupedByTimeframe =>
      exact pairwise_groupByTimeframe Movement.mtsUpdated _ _ _ _ _ (fun _ _ => rfl)
        h.deposits.sorted
  | plGroupedByTimeframe =>
      rw [getDataToCalcWinLoss]
      split_ifs
      · exact List.Pairwise.nil
      · exact h.pl_pairwise

theorem mem_data (h : env.Proper params) (key : SeriesKey) :
    ∀ item ∈ getDataToCalcWinLoss env params key,
      item.mts ∈ frameMts params.timeframe params.start params.stop := by
  intro item hitem
  cases key with
  | walletsGroupedByTimeframe =>
      rw [← map_mts_wallets h]
      exact List.mem_map_of_mem hitem
  | withdrawalsGroupedByTimeframe => exact h.withdrawals.mem_frameMts item hitem
  | depositsGroupedByTimeframe => exact h.deposits.mem_frameMts item hitem
  | plGroupedByTimeframe =>
      rw [getDataToCalcWinLoss] at hitem
      split_ifs at hitem
      · exact absurd hitem List.not_mem_nil
      · exact h.pl_mts item hitem

/-- The merged list has an item for every frame. -/
theorem mergeData_eq (h : env.Proper params) :
    CalcGroupedData.mergeData SeriesKey.all (seriesOf (getDataToCalcWinLoss env params)) =
      (frameMts params.timeframe params.start params.stop).map fun m =>
        ⟨m, fun key => valsAt (getDataToCalcWinLoss env params key) m⟩ := by
  have hmerged := mergeData_covered SeriesKey.all .walletsGroupedByTimeframe (pairwise_data h)
    (by decide) (fun key => by cases key <;> decide)
    (fun key item hitem => by rw [map_mts_wallets h]; exact mem_data h key item hitem)
  rw [hmerged, ← map_mts_wallets h, List.map_map]
  rfl

/-- The grouped data: an item for every frame. -/
theorem groupedData_eq (h : env.Proper params) :
    groupedData env params = (frameMts params.timeframe params.start params.stop).map fun m =>
      ⟨m, profit params.isUnrealizedProfitExcluded (firstWalletsVals env)
        (((frameMts params.timeframe params.start params.stop).getLast?.map fun first =>
          (frameAt env params first).pl).getD 0)
        (frameAt env params m)
        (sumUpTo (fun m' => (frameAt env params m').movements)
          (frameMts params.timeframe params.start params.stop) m)⟩ := by
  have hrun := calcGroupedData_fromOldest_some SeriesKey.all
    (seriesOf (getDataToCalcWinLoss env params))
    (getWinLossByTimeframe params.isUnrealizedProfitExcluded (firstWalletsVals env)) Frame.ofItem
    ⟨none, none⟩
  have hpairwise := h.wallets.isRange.pairwise_frameMts
  rw [groupedData]
  refine hrun.trans ?_
  rw [mergeData_eq h, runFrames_eq]
  generalize frameMts params.timeframe params.start params.stop = mts at hpairwise ⊢
  have hframes : ((mts.map fun m => (⟨m, fun key =>
      valsAt (getDataToCalcWinLoss env params key) m⟩ : MergedItem fun _ => Option ℚ)).reverse.map
        Frame.ofItem) = mts.reverse.map (frameAt env params) := by
    rw [← List.map_reverse, List.map_map]
    rfl
  have hsums := runningSums_map (fun m => (frameAt env params m).movements)
    (List.pairwise_reverse.mpr hpairwise) 0
  have hfirst : ((mts.reverse.map (frameAt env params)).head?.map Frame.pl) =
      mts.getLast?.map fun first => (frameAt env params first).pl := by
    rw [List.head?_map, List.head?_reverse, Option.map_map]
    rfl
  have hmovements : Frame.movements ∘ frameAt env params =
      fun m => (frameAt env params m).movements := rfl
  rw [hframes, hfirst, List.map_map, hmovements, hsums, ← List.map_reverse, List.zipWith_map,
    List.zipWith_self, List.zipWith_map, List.zipWith_self, ← List.map_reverse,
    List.reverse_reverse]
  apply List.map_congr_left
  intro m _
  rw [zero_add, sumUpTo_reverse]

/-- The net movements before a time. -/
def movementsBefore (env : WinLossEnv) (t : ℤ) : ℚ :=
  total (Movement.usdAmount env.forexSymbs)
      (env.withdrawals.filter fun movement => movement.mtsStarted < t) +
    total (Movement.usdAmount env.forexSymbs)
      (env.deposits.filter fun movement => movement.mtsUpdated < t)

theorem sumUpTo_add (value value' : ℤ → ℚ) (frames : List ℤ) (frame : ℤ) :
    sumUpTo (fun m => value m + value' m) frames frame =
      sumUpTo value frames frame + sumUpTo value' frames frame :=
  List.sum_map_add

theorem sumUpTo_congr {value value' : ℤ → ℚ} {frames : List ℤ} (frame : ℤ)
    (h : ∀ m ∈ frames, value m = value' m) :
    sumUpTo value frames frame = sumUpTo value' frames frame := by
  unfold sumUpTo
  congr 1
  apply List.map_congr_left
  intro m hm
  exact h m (List.mem_filter.mp hm).1

/-- The groups of movements up to a timestamp hold the movements before the next frame. -/
theorem sumUpTo_groups {mts : Movement → ℤ} {data : List Movement} {timeframe : Timeframe}
    {start stop : ℤ} (h : Aligned timeframe start stop mts data) (forexSymbs : List String) {m : ℤ}
    (hm : m ∈ frameMts timeframe start stop) :
    sumUpTo (fun m' => (valsAt (groupByTimeframe (fun movement => some (mts movement))
        (stateless (calcGroup forexSymbs)) timeframe () data start stop) m').join.getD 0)
        (frameMts timeframe start stop) m =
      total (Movement.usdAmount forexSymbs)
        (data.filter fun movement => mts movement < nextFrame m timeframe) := by
  have hgroups : ∀ m' ∈ frameMts timeframe start stop,
      (valsAt (groupByTimeframe (fun movement => some (mts movement))
        (stateless (calcGroup forexSymbs)) timeframe () data start stop) m').join.getD 0 =
          total (Movement.usdAmount forexSymbs)
            (rowsIn timeframe mts data (timeframe.frames.start m')) := by
    intro m' hm'
    rw [valsAt_groupByTimeframe h.isRange h.sorted _ (calcGroup_nil forexSymbs) h.mem_frameMts
      hm', calcGroup_getD]
  have hrange : ∀ row ∈ data, (Movement.usdAmount forexSymbs row).isSome →
      timeframe.frames.start start ≤ timeframe.frames.start (mts row) ∧ mts row ≤ stop :=
    fun row hrow _ => ⟨timeframe.frames.start_mono (h.range row hrow).1, (h.range row hrow).2⟩
  rw [sumUpTo_congr m hgroups, sumUpTo_frameMts h.isRange _ h.sorted hrange hm]
  congr 1
  apply List.filter_congr
  intro movement hmovement
  exact decide_eq_decide.mpr (frame_le_iff_lt_nextFrame h hm hmovement)

theorem sumUpTo_movements (h : env.Proper params) {m : ℤ}
    (hm : m ∈ frameMts params.timeframe params.start params.stop) :
    sumUpTo (fun m' => (frameAt env params m').movements)
        (frameMts params.timeframe params.start params.stop) m =
      movementsBefore env (nextFrame m params.timeframe) := by
  rw [movementsBefore, ← sumUpTo_groups h.withdrawals env.forexSymbs hm,
    ← sumUpTo_groups h.deposits env.forexSymbs hm, ← sumUpTo_add]
  apply sumUpTo_congr
  intro m' _
  simp only [Frame.movements, Frame.movementsRes, sumMovementsWithPrevRes, Option.getD_some,
    Option.getD_none, zero_add]
  rfl

/-- The balance in USD at the end of the frame of a timestamp. -/
def balanceAt (env : WinLossEnv) (params : WinLossParams) (m : ℤ) : ℚ :=
  ((getBalanceHistory env.getPriceFromData env.forexSymbs params.timeframe
    (env.firstWallets.map FirstWallet.toWalletRow) env.wallets [] params.start params.stop
    env.now).find? fun item => item.1 = m).elim 0 Prod.snd

def plAt (env : WinLossEnv) (m : ℤ) : ℚ := (valsAt env.plSnapshot m).join.getD 0

/-- The sum of the first wallets in USD. -/
def firstBalance (env : WinLossEnv) : ℚ :=
  total (usdOf fun wallet : FirstWallet =>
    usedAmount env.forexSymbs wallet.currency (some wallet.balance) wallet.balanceUsd)
    env.firstWallets

/-- The profit and loss at the oldest frame. -/
def firstPLAt (env : WinLossEnv) (params : WinLossParams) : ℚ :=
  ((frameMts params.timeframe params.start params.stop).getLast?.map (plAt env)).getD 0

/-- The win or loss of the range up to the end of a frame. -/
def winLossAt (env : WinLossEnv) (params : WinLossParams) (m : ℤ) : ℚ :=
  balanceAt env params m - firstBalance env - movementsBefore env (nextFrame m params.timeframe) +
    if params.isUnrealizedProfitExcluded then 0 else plAt env m - firstPLAt env params

/-- The timestamps of the frames of the report: without the last one where the range ends with the
start of a frame. -/
def reportedMts (params : WinLossParams) : List ℤ :=
  (frameMts params.timeframe params.start params.stop).filter fun m =>
    getStartMtsByTimeframe params.stop params.timeframe ≠ params.stop ∨ m ≠ params.stop

theorem frameAt_wallets (env : WinLossEnv) (params : WinLossParams) (m : ℤ) :
    (frameAt env params m).wallets = balanceAt env params m := by
  simp only [frameAt, Frame.ofItem, Frame.wallets, getDataToCalcWinLoss, valsAt, List.find?_map,
    Function.comp_def, balanceAt]
  cases ((getBalanceHistory env.getPriceFromData env.forexSymbs params.timeframe
    (env.firstWallets.map FirstWallet.toWalletRow) env.wallets [] params.start params.stop
    env.now).find? fun item => item.1 = m) <;> rfl

theorem frameAt_pl (env : WinLossEnv) (params : WinLossParams) (m : ℤ)
    (h : params.isUnrealizedProfitExcluded = false) :
    (frameAt env params m).pl = plAt env m := by
  have hvals : (frameAt env params m).pl = (valsAt (getDataToCalcWinLoss env params
      .plGroupedByTimeframe) m).join.getD 0 := rfl
  rw [hvals, getDataToCalcWinLoss, h]
  rfl

/-- What the first wallets come to. -/
theorem firstWalletsVals_getD (env : WinLossEnv) :
    (firstWalletsVals env).getD 0 = firstBalance env := by
  rw [firstWalletsVals, calcFirstWallets, usd_calcAmounts, sumOfFinite_eq, firstBalance]
  split_ifs with hnil
  · rw [total, hnil]
    rfl
  · rfl

/-- The profit of a frame is the win or loss up to its end. -/
theorem profit_eq_winLossAt (h : env.Proper params) {m : ℤ}
    (hm : m ∈ frameMts params.timeframe params.start params.stop) :
    profit params.isUnrealizedProfitExcluded (firstWalletsVals env)
        (((frameMts params.timeframe params.start params.stop).getLast?.map fun first =>
          (frameAt env params first).pl).getD 0)
        (frameAt env params m)
        (sumUpTo (fun m' => (frameAt env params m').movements)
          (frameMts params.timeframe params.start params.stop) m) = winLossAt env params m := by
  rw [profit, winLossAt, sumUpTo_movements h hm, frameAt_wallets, firstWalletsVals_getD,
    sub_right_comm]
  congr 1
  split_ifs with hexcluded
  · rfl
  · have hfalse : params.isUnrealizedProfitExcluded = false := by simpa using hexcluded
    rw [frameAt_pl env params m hfalse, firstPLAt]
    congr 3
    funext first
    exact frameAt_pl env params first hfalse

theorem exists_frameMts_cons {mts : ρ → ℤ} {data : List ρ} {timeframe : Timeframe} {start stop : ℤ}
    (h : Aligned timeframe start stop mts data) :
    ∃ rest, frameMts timeframe start stop = stop :: rest ∧ ∀ m ∈ rest, m < stop := by
  have hstop : stop ∈ frameMts timeframe start stop :=
    (h.isRange.mem_frameMts stop).mpr (Or.inl rfl)
  have hpairwise := h.isRange.pairwise_frameMts
  have hle : ∀ m ∈ frameMts timeframe start stop, m ≤ stop := fun m hm => h.isRange.le_stop hm
  revert hstop hpairwise hle
  cases frameMts timeframe start stop with
  | nil => exact fun hstop => absurd hstop List.not_mem_nil
  | cons first rest =>
      intro hstop hpairwise hle
      obtain ⟨hfirst, _⟩ := List.pairwise_cons.mp hpairwise
      have heq : first = stop := by
        rcases List.mem_cons.mp hstop with heq | hmem
        · exact heq.symm
        · exact le_antisymm (hle first List.mem_cons_self) (hfirst stop hmem).le
      subst heq
      exact ⟨rest, rfl, hfirst⟩

theorem lt_nextFrame (timeframe : Timeframe) (t : ℤ) : t < nextFrame t timeframe :=
  (timeframe.frames.lt_boundary t).trans_le (boundary_le_nextFrame timeframe t)

theorem start_le_of_mem {mts : ρ → ℤ} {data : List ρ} {timeframe : Timeframe} {start stop : ℤ}
    (h : Aligned timeframe start stop mts data) {m : ℤ} (hm : m ∈ frameMts timeframe start stop) :
    start ≤ m := by
  have haligned := h.start_eq
  rw [getStartMtsByTimeframe_eq] at haligned
  rcases (h.isRange.mem_frameMts m).mp hm with
    rfl | ⟨_, rfl⟩ | ⟨_, hlt, _⟩
  · exact h.le
  · exact le_rfl
  · exact (haligned ▸ hlt).le

/-- The shifted data of the frames. -/
theorem shift_frameMts {mts : ρ → ℤ} {data : List ρ}
    (h : Aligned params.timeframe params.start params.stop mts data) (value : ℤ → ℚ)
    (last : GroupItem ℚ) :
    shiftMtsToNextTimeframe
        ((frameMts params.timeframe params.start params.stop).map (fun m => ⟨m, value m⟩) ++ [last])
        params.timeframe params.stop =
      (reportedMts params).map (fun m => ⟨nextFrame m params.timeframe, value m⟩) ++ [last] := by
  obtain ⟨rest, hmts, hrest⟩ := exists_frameMts_cons h
  have hshifted (l : List ℤ) : (l.map fun m => (⟨m, value m⟩ : GroupItem ℚ)).map
      (shifted params.timeframe) = l.map fun m => ⟨nextFrame m params.timeframe, value m⟩ := by
    rw [List.map_map]
    rfl
  rw [reportedMts, hmts, List.map_cons, shiftMtsToNextTimeframe_eq rfl, ← hshifted]
  congr 2
  by_cases haligned : getStartMtsByTimeframe params.stop params.timeframe = params.stop
  · rw [if_pos haligned, List.filter_cons_of_neg (by simp [haligned])]
    congr 1
    symm
    apply List.filter_eq_self.mpr
    exact fun m hm => decide_eq_true (Or.inr (hrest m hm).ne)
  · have hall : (params.stop :: rest).filter (fun m => decide (getStartMtsByTimeframe params.stop
        params.timeframe ≠ params.stop ∨ m ≠ params.stop)) = params.stop :: rest := by
      apply List.filter_eq_self.mpr
      exact fun m _ => decide_eq_true (Or.inl haligned)
    rw [if_neg haligned, hall, List.map_cons]

/-- The timestamps of the report are decreasing. -/
theorem pairwise_shifted {mts : ρ → ℤ} {data : List ρ}
    (h : Aligned params.timeframe params.start params.stop mts data) :
    ((reportedMts params).map (nextFrame · params.timeframe) ++ [params.start]).Pairwise
      (· > ·) := by
  apply List.pairwise_append.mpr
  refine ⟨?_, List.pairwise_singleton _ _, ?_⟩
  · apply List.pairwise_map.mpr
    have hpairwise : (reportedMts params).Pairwise (· > ·) := h.isRange.pairwise_frameMts.filter _
    refine hpairwise.imp_of_mem ?_
    intro m m' hm hm' hgt
    exact nextFrame_lt_nextFrame h (List.mem_filter.mp hm).1 (List.mem_filter.mp hm').1 hgt
  · intro t ht t' ht'
    obtain ⟨m, hm, rfl⟩ := List.mem_map.mp ht
    rw [List.mem_singleton.mp ht']
    exact (start_le_of_mem h (List.mem_filter.mp hm).1).trans_lt (lt_nextFrame params.timeframe m)

/-- The report has the win or loss up to the end of every frame, at the start of the next one (if
the range ends inside a frame, at its end put one frame later), and ends with the start of the
range. -/
theorem getWinLoss_eq (h : env.Proper params) :
    getWinLoss env params =
        (reportedMts params).map
            (fun m => ⟨nextFrame m params.timeframe, winLossAt env params m⟩) ++
          [⟨params.start, 0⟩] ∧
      ((getWinLoss env params).map GroupItem.mts).Pairwise (· > ·) := by
  have hdata : groupedData env params = (frameMts params.timeframe params.start params.stop).map
      fun m => ⟨m, winLossAt env params m⟩ := by
    rw [groupedData_eq h]
    apply List.map_congr_left
    intro m hm
    rw [profit_eq_winLossAt h hm]
  rw [getWinLoss, hdata, shift_frameMts h.wallets]
  refine ⟨rfl, ?_⟩
  rw [List.map_append, List.map_map]
  exact pairwise_shifted h.wallets

end Report

namespace TwoDaysWitness

/-- Until an hour into the third day. -/
def params : WinLossParams := ⟨.day, 0, 176400000, false⟩

/-- A deposit on the first day, a withdrawal and a loss on the second. -/
def env : WinLossEnv where
  forexSymbs := ["USD", "EUR"]
  getPriceFromData := fun _ _ => none
  now := 176400000
  firstWallets := [⟨⟨"exchange", "USD", 100, 0⟩, some 100⟩]
  wallets := [⟨"exchange", "USD", 110, 90000000⟩, ⟨"exchange", "USD", 150, 1000⟩]
  withdrawals := [⟨"USD", some (-20), some (-20), 90000000, 90000001⟩]
  deposits := [⟨"USD", some 50, none, 900, 1000⟩]
  plSnapshot := [⟨176400000, some 7⟩, ⟨0, some 5⟩]

theorem env_proper : env.Proper params where
  wallets := ⟨by decide, by decide +kernel, by decide, by decide, by decide, by decide⟩
  withdrawals := ⟨by decide, by decide +kernel, by decide, by decide, by decide, by decide⟩
  deposits := ⟨by decide, by decide +kernel, by decide, by decide, by decide, by decide⟩
  pl_pairwise := by decide
  pl_mts := by decide +kernel

example : getWinLoss env params =
    [⟨262800000, -18⟩, ⟨172800000, -25⟩, ⟨86400000, 0⟩, ⟨0, 0⟩] := by
  decide +kernel

theorem getWinLoss_eq_of_days :
    getWinLoss env params =
        (reportedMts params).map
            (fun m => ⟨nextFrame m params.timeframe, winLossAt env params m⟩) ++
          [⟨params.start, 0⟩] ∧
      ((getWinLoss env params).map GroupItem.mts).Pairwise (· > ·) :=
  getWinLoss_eq env_proper

end TwoDaysWitness

end ReportsFramework.WinLoss
