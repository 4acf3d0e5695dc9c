/-
Win/loss against the balance of the day before: the compounded percentages, and the total
profit and the drawdown that the summary by asset takes from the days.
-/
import Mathlib.Algebra.BigOperators.Group.List.Basic
import Mathlib.Algebra.Order.Field.Basic
import Mathlib.Algebra.Order.Field.Rat
import Mathlib.Data.List.Induction
import Mathlib.Tactic.FieldSimp
import Mathlib.Tactic.Linarith
import Mathlib.Tactic.Ring
import ReportsFramework.WinLossPerc

namespace ReportsFramework

namespace WinLossVSAccountBalance

open WinLoss

structure PrevDayState where
  prevPerc : ℚ
  prevWallets : ℚ
  prevPL : ℚ
  prevMultiplying : ℚ
  totalMovements : ℚ
deriving DecidableEq

def PrevDayState.init : PrevDayState := ⟨0, 0, 0, 1, 0⟩

/-- What `shouldTimeframePLBeReturned` adds to the percentage. -/
structure TimeframePL where
  balanceWithoutMovementsUsd : ℚ
  returns : ℚ
deriving DecidableEq

structure Day where
  timeframePL : Option TimeframePL
  perc : ℚ
deriving DecidableEq

def Day.balance (day : Day) : ℚ :=
  (day.timeframePL.map TimeframePL.balanceWithoutMovementsUsd).getD 0

section PrevDay

variable (shouldTimeframePLBeReturned isUnrealizedProfitExcluded : Bool)
  (firstWalletsVals : Option ℚ)

/-- What the first frame sets. -/
def PrevDayState.enter (isFirst : Bool) (frame : Frame) (state : PrevDayState) : PrevDayState :=
  if isFirst then { state with prevWallets := firstWalletsVals.getD 0, prevPL := frame.pl }
  else state

/-- `winLoss` of a frame behind the given wallets and profit/loss. -/
def profit (prevWallets prevPL : ℚ) (frame : Frame) : ℚ :=
  let realized := frame.wallets - frame.movements - prevWallets
  let unrealized := if isUnrealizedProfitExcluded then 0 else frame.pl - prevPL
  realized + unrealized

/-- `fullBalanceWithoutMovements` of a frame. -/
def balanceWithoutMovements (totalMovements : ℚ) (frame : Frame) : ℚ :=
  if isUnrealizedProfitExcluded then frame.wallets - totalMovements
  else frame.wallets - totalMovements + frame.pl

/-- The day of a frame, from the state behind the first frame's part. -/
def PrevDayState.day (state : PrevDayState) (frame : Frame) : Day × PrevDayState :=
  let totalMovements := state.totalMovements + frame.movements
  let winLoss := profit isUnrealizedProfitExcluded state.prevWallets state.prevPL frame
  let balance := balanceWithoutMovements isUnrealizedProfitExcluded totalMovements frame
  if state.prevWallets = 0 then
    (⟨if shouldTimeframePLBeReturned then some ⟨balance, 0⟩ else none, state.prevPerc⟩,
      { state with prevPL := frame.pl, totalMovements := totalMovements })
  else
    let prevMultiplying := (state.prevWallets + winLoss) / state.prevWallets * state.prevMultiplying
    let perc := (prevMultiplying - 1) * 100
    let returns := winLoss / state.prevWallets
    (⟨if shouldTimeframePLBeReturned then some ⟨balance, returns⟩ else none, perc⟩,
      { prevPerc := perc
        prevWallets := frame.wallets
        prevPL := frame.pl
        prevMultiplying := prevMultiplying
        totalMovements := totalMovements })

def getWinLossPrevDayBalanceByTimeframe (isFirst : Bool) (state : PrevDayState) (frame : Frame) :
    Day × PrevDayState :=
  (state.enter firstWalletsVals isFirst frame).day shouldTimeframePLBeReturned
    isUnrealizedProfitExcluded frame

/-- The frames are given from the oldest on. -/
def prevDayRun (frames : List Frame) : List Day :=
  (CalcGroupedData.runFrames (getWinLossPrevDayBalanceByTimeframe shouldTimeframePLBeReturned
    isUnrealizedProfitExcluded firstWalletsVals) true .init frames).1

theorem day_of_zero {state : PrevDayState} (hzero : state.prevWallets = 0) (frame : Frame) :
    state.day shouldTimeframePLBeReturned isUnrealizedProfitExcluded frame =
      (⟨if shouldTimeframePLBeReturned then some ⟨balanceWithoutMovements
          isUnrealizedProfitExcluded (state.totalMovements + frame.movements) frame, 0⟩
        else none, state.prevPerc⟩,
      ⟨state.prevPerc, state.prevWallets, frame.pl, state.prevMultiplying,
        state.totalMovements + frame.movements⟩) := by
  rw [PrevDayState.day]
  exact if_pos hzero

theorem day_of_ne {state : PrevDayState} (hne : state.prevWallets ≠ 0) (frame : Frame) :
    state.day shouldTimeframePLBeReturned isUnrealizedProfitExcluded frame =
      let r := profit isUnrealizedProfitExcluded state.prevWallets state.prevPL frame /
        state.prevWallets
      (⟨if shouldTimeframePLBeReturned then some ⟨balanceWithoutMovements
          isUnrealizedProfitExcluded (state.totalMovements + frame.movements) frame, r⟩
        else none, (state.prevMultiplying * (1 + r) - 1) * 100⟩,
      ⟨(state.prevMultiplying * (1 + r) - 1) * 100, frame.wallets, frame.pl,
        state.prevMultiplying * (1 + r), state.totalMovements + frame.movements⟩) := by
  have hmult : (state.prevWallets + profit isUnrealizedProfitExcluded state.prevWallets
      state.prevPL frame) / state.prevWallets * state.prevMultiplying =
        state.prevMultiplying * (1 + profit isUnrealizedProfitExcluded state.prevWallets
          state.prevPL frame / state.prevWallets) := by
    field_simp
  rw [PrevDayState.day]
  dsimp only
  rw [if_neg hne, hmult]

/-- The grouped data of the report, from the newest on. -/
def prevDayGroupedData (data : CalcGroupedData.Series fun _ : SeriesKey => Option ℚ) :
    List (GroupItem Day) :=
  (CalcGroupedData.calcGroupedData SeriesKey.all data
    (CalcGroupedData.fromOldest fun isFirst state item =>
      let (day, state) := getWinLossPrevDayBalanceByTimeframe shouldTimeframePLBeReturned
        isUnrealizedProfitExcluded firstWalletsVals isFirst state (.ofItem item.1)
      (some day, state)) true PrevDayState.init).1

/-- The report is the run over the frames of the merged items. -/
theorem prevDayGroupedData_eq (data : CalcGroupedData.Series fun _ : SeriesKey => Option ℚ) :
    prevDayGroupedData shouldTimeframePLBeReturned isUnrealizedProfitExcluded firstWalletsVals
        data =
      (List.zipWith (fun (item : MergedItem fun _ : SeriesKey => Option ℚ) day => ⟨item.mts, day⟩)
        (CalcGroupedData.mergeData SeriesKey.all data).reverse
        (prevDayRun shouldTimeframePLBeReturned isUnrealizedProfitExcluded firstWalletsVals
          ((CalcGroupedData.mergeData SeriesKey.all data).reverse.map Frame.ofItem))).reverse := by
  exact CalcGroupedData.calcGroupedData_fromOldest_some SeriesKey.all data
    (getWinLossPrevDayBalanceByTimeframe shouldTimeframePLBeReturned isUnrealizedProfitExcluded
      firstWalletsVals) Frame.ofItem PrevDayState.init

/-- The days behind the first frame's part. -/
def days (state : PrevDayState) (frames : List Frame) : List Day :=
  (CalcGroupedData.runFrames (getWinLossPrevDayBalanceByTimeframe shouldTimeframePLBeReturned
    isUnrealizedProfitExcluded firstWalletsVals) false state frames).1

theorem days_cons (state : PrevDayState) (frame : Frame) (rest : List Frame) :
    days shouldTimeframePLBeReturned isUnrealizedProfitExcluded firstWalletsVals state
        (frame :: rest) =
      (state.day shouldTimeframePLBeReturned isUnrealizedProfitExcluded frame).1 ::
        days shouldTimeframePLBeReturned isUnrealizedProfitExcluded firstWalletsVals
          (state.day shouldTimeframePLBeReturned isUnrealizedProfitExcluded frame).2 rest := rfl

/-- The profit/loss that the first frame is compared with: its own. -/
def firstPL (frames : List Frame) : ℚ := (frames.head?.map Frame.pl).getD 0

theorem prevDayRun_eq_days (frames : List Frame) :
    prevDayRun shouldTimeframePLBeReturned isUnrealizedProfitExcluded firstWalletsVals frames =
      days shouldTimeframePLBeReturned isUnrealizedProfitExcluded firstWalletsVals
        ⟨0, firstWalletsVals.getD 0, firstPL frames, 1, 0⟩ frames := by
  cases frames <;> rfl

/-- The profits of the frames, each against the balance before it. -/
def dailyProfits (prevWallets prevPL : ℚ) : List Frame → List ℚ
  | [] => []
  | frame :: rest =>
      profit isUnrealizedProfitExcluded prevWallets prevPL frame ::
        dailyProfits frame.wallets frame.pl rest

/-- The returns of the frames; a frame behind a balance of zero has none. -/
def dailyReturns (prevWallets prevPL : ℚ) : List Frame → List ℚ
  | [] => []
  | frame :: rest =>
      (if prevWallets = 0 then 0
        else profit isUnrealizedProfitExcluded prevWallets prevPL frame / prevWallets) ::
          dailyReturns frame.wallets frame.pl rest

/-- The percentages of returns that are compounded on a multiplier. -/
def compounded (multiplying : ℚ) : List ℚ → List ℚ
  | [] => []
  | r :: rest => (multiplying * (1 + r) - 1) * 100 :: compounded (multiplying * (1 + r)) rest

end PrevDay

theorem getElem?_compounded (multiplying : ℚ) (returns : List ℚ) {n : ℕ} (hn : n < returns.length) :
    (compounded multiplying returns)[n]? =
      some ((multiplying * ((returns.take (n + 1)).map fun r => 1 + r).prod - 1) * 100) := by
  induction returns generalizing multiplying n with
  | nil => simp at hn
  | cons r rest ih =>
    cases n with
    | zero => simp [compounded]
    | succ n =>
      rw [List.length_cons, Nat.add_lt_add_iff_right] at hn
      rw [compounded, List.getElem?_cons_succ, ih _ hn, List.take_succ_cons, List.map_cons,
        List.prod_cons, mul_assoc]

theorem length_compounded (multiplying : ℚ) (returns : List ℚ) :
    (compounded multiplying returns).length = returns.length := by
  induction returns generalizing multiplying with
  | nil => rfl
  | cons r rest ih => rw [compounded, List.length_cons, List.length_cons, ih]

/-- The percentage stands still if and only if there is nothing to compound. -/
theorem compounded_eq_replicate_iff (multiplying : ℚ) (returns : List ℚ) :
    List.replicate returns.length ((multiplying - 1) * 100) = compounded multiplying returns ↔
      multiplying = 0 ∨ ∀ r ∈ returns, r = 0 := by
  induction returns with
  | nil => simp [compounded]
  | cons r rest ih =>
    have hfirst : (multiplying - 1) * 100 = (multiplying * (1 + r) - 1) * 100 ↔
        multiplying = 0 ∨ r = 0 := by
      rw [← mul_eq_zero]
      constructor <;> intro h <;> linarith
    rw [List.length_cons, List.replicate_succ, compounded, List.cons.injEq, hfirst,
      List.forall_mem_cons]
    by_cases hr : r = 0
    · rw [hr, add_zero, mul_one, ih]
      tauto
    · by_cases hmult : multiplying = 0
      · rw [hmult, zero_mul]
        rw [hmult] at ih
        tauto
      · tauto

section Compounding

variable (shouldTimeframePLBeReturned isUnrealizedProfitExcluded : Bool)
  (firstWalletsVals : Option ℚ)

theorem length_dailyReturns (prevWallets prevPL : ℚ) (frames : List Frame) :
    (dailyReturns isUnrealizedProfitExcluded prevWallets prevPL frames).length =
      frames.length := by
  induction frames generalizing prevWallets prevPL with
  | nil => rfl
  | cons frame rest ih => rw [dailyReturns, List.length_cons, List.length_cons, ih]

/-- Behind a balance of zero the percentage stands still. -/
theorem map_perc_days_zero {state : PrevDayState} (hzero : state.prevWallets = 0)
    (frames : List Frame) :
    (days shouldTimeframePLBeReturned isUnrealizedProfitExcluded firstWalletsVals state
      frames).map Day.perc = List.replicate frames.length state.prevPerc := by
  induction frames generalizing state with
  | nil => rfl
  | cons frame rest ih =>
    rw [days_cons, List.map_cons, day_of_zero _ _ hzero, List.length_cons, List.replicate_succ]
    dsimp only
    rw [ih]
    exact hzero

/-- Nothing is lost by standing still: each balance of zero has a return of -1 before it, or
none but returns of 0 behind it. -/
def HarmlessZeros (multiplying : ℚ) (balances returns : List ℚ) : Prop :=
  ∀ k, balances[k]? = some 0 →
    (multiplying = 0 ∨ ∃ r ∈ returns.take k, 1 + r = 0) ∨ ∀ r ∈ returns.drop k, r = 0

theorem harmlessZeros_zero (multiplying : ℚ) (balances returns : List ℚ) :
    HarmlessZeros multiplying (0 :: balances) returns ↔
      multiplying = 0 ∨ ∀ r ∈ returns, r = 0 := by
  constructor
  · intro h
    simpa using h 0 rfl
  · rintro (hmult | hall) k _
    · exact .inl (.inl hmult)
    · right
      intro r hr
      exact hall r (List.mem_of_mem_drop hr)

theorem harmlessZeros_cons {balance : ℚ} (hne : balance ≠ 0) (multiplying r : ℚ)
    (balances returns : List ℚ) :
    HarmlessZeros multiplying (balance :: balances) (r :: returns) ↔
      HarmlessZeros (multiplying * (1 + r)) balances returns := by
  constructor
  · intro h k hk
    have := h (k + 1) hk
    rw [List.take_succ_cons, List.drop_succ_cons, List.exists_mem_cons_iff, ← or_assoc] at this
    rwa [mul_eq_zero]
  · intro h k hk
    cases k with
    | zero => exact absurd (Option.some.inj hk) hne
    | succ k =>
      have := h k hk
      rw [mul_eq_zero] at this
      rwa [List.take_succ_cons, List.drop_succ_cons, List.exists_mem_cons_iff, ← or_assoc]

/-- The run from a state whose percentage is that of its multiplier. -/
theorem map_perc_days_iff {state : PrevDayState}
    (hperc : state.prevPerc = (state.prevMultiplying - 1) * 100) (frames : List Frame) :
    (days shouldTimeframePLBeReturned isUnrealizedProfitExcluded firstWalletsVals state
        frames).map Day.perc = compounded state.prevMultiplying
          (dailyReturns isUnrealizedProfitExcluded state.prevWallets state.prevPL frames) ↔
      HarmlessZeros state.prevMultiplying (state.prevWallets :: frames.map Frame.wallets)
        (dailyReturns isUnrealizedProfitExcluded state.prevWallets state.prevPL frames) := by
  induction frames generalizing state with
  | nil =>
    refine iff_of_true rfl ?_
    intro k _
    exact .inr (by simp [dailyReturns])
  | cons frame rest ih =>
    by_cases hzero : state.prevWallets = 0
    · rw [map_perc_days_zero _ _ _ hzero, hperc, hzero, harmlessZeros_zero,
        ← compounded_eq_replicate_iff, length_dailyReturns]
    · rw [dailyReturns, if_neg hzero, List.map_cons, harmlessZeros_cons hzero, days_cons,
        List.map_cons, compounded, List.cons.injEq, day_of_ne _ _ hzero]
      refine (and_iff_right rfl).trans (ih ?_)
      rfl

/-- The returns of the frames of a run. -/
def returnsOf (frames : List Frame) : List ℚ :=
  dailyReturns isUnrealizedProfitExcluded (firstWalletsVals.getD 0) (firstPL frames) frames

/-- The balance before each frame, and the one behind the last. -/
def balancesOf (frames : List Frame) : List ℚ :=
  firstWalletsVals.getD 0 :: frames.map Frame.wallets

/-- The percentages are the compounded returns if and only if each balance of zero has a
return of -1 before it, or none but returns of 0 behind it. -/
theorem perc_compounded_iff (frames : List Frame) :
    (∀ n, n < frames.length →
      ((prevDayRun shouldTimeframePLBeReturned isUnrealizedProfitExcluded firstWalletsVals
        frames).map Day.perc)[n]? =
        some (((((returnsOf isUnrealizedProfitExcluded firstWalletsVals frames).take (n + 1)).map
          fun r => 1 + r).prod - 1) * 100)) ↔
    ∀ k, (balancesOf firstWalletsVals frames)[k]? = some 0 →
      (∃ r ∈ (returnsOf isUnrealizedProfitExcluded firstWalletsVals frames).take k, 1 + r = 0) ∨
        ∀ r ∈ (returnsOf isUnrealizedProfitExcluded firstWalletsVals frames).drop k, r = 0 := by
  have hrun := @map_perc_days_iff shouldTimeframePLBeReturned isUnrealizedProfitExcluded
    firstWalletsVals ⟨0, firstWalletsVals.getD 0, firstPL frames, 1, 0⟩ (by norm_num) frames
  rw [← prevDayRun_eq_days] at hrun
  simp only [HarmlessZeros, one_ne_zero, false_or] at hrun
  refine Iff.trans ?_ hrun
  have hlength : (returnsOf isUnrealizedProfitExcluded firstWalletsVals frames).length =
      frames.length := length_dailyReturns _ _ _ _
  have hlengthRun : ((prevDayRun shouldTimeframePLBeReturned isUnrealizedProfitExcluded
      firstWalletsVals frames).map Day.perc).length = frames.length := by
    rw [List.length_map]
    exact CalcGroupedData.length_runFrames _ _ _ _
  change _ ↔ _ = compounded 1 (returnsOf isUnrealizedProfitExcluded firstWalletsVals frames)
  constructor
  · intro h
    apply List.ext_getElem?
    intro n
    by_cases hn : n < frames.length
    · rw [h n hn, getElem?_compounded _ _ (by rwa [hlength]), one_mul]
    · rw [List.getElem?_eq_none (by omega), List.getElem?_eq_none]
      rw [length_compounded]
      omega
  · intro h n hn
    rw [h, getElem?_compounded _ _ (by rwa [hlength]), one_mul]

end Compounding

section Balances

variable (isUnrealizedProfitExcluded : Bool) (firstWalletsVals : Option ℚ)

/-- The balances without the movements up to each frame. -/
def dailyBalances (totalMovements : ℚ) : List Frame → List ℚ
  | [] => []
  | frame :: rest =>
      balanceWithoutMovements isUnrealizedProfitExcluded (totalMovements + frame.movements) frame ::
        dailyBalances (totalMovements + frame.movements) rest

theorem map_balance_days (state : PrevDayState) (frames : List Frame) :
    (days true isUnrealizedProfitExcluded firstWalletsVals state frames).map Day.balance =
      dailyBalances isUnrealizedProfitExcluded state.totalMovements frames := by
  induction frames generalizing state with
  | nil => rfl
  | cons frame rest ih =>
    rw [days_cons, List.map_cons, dailyBalances, ih]
    by_cases hzero : state.prevWallets = 0
    · rw [day_of_zero _ _ hzero]
      rfl
    · rw [day_of_ne _ _ hzero]
      rfl

theorem dailyBalances_append (totalMovements : ℚ) (earlier later : List Frame) :
    dailyBalances isUnrealizedProfitExcluded totalMovements (earlier ++ later) =
      dailyBalances isUnrealizedProfitExcluded totalMovements earlier ++
        dailyBalances isUnrealizedProfitExcluded
          (totalMovements + (earlier.map Frame.movements).sum) later := by
  induction earlier generalizing totalMovements with
  | nil => simp [dailyBalances]
  | cons frame rest ih =>
    rw [List.cons_append, dailyBalances, dailyBalances, ih, List.map_cons, List.sum_cons,
      List.cons_append, add_assoc]

/-- The returns of a run that meets no balance of zero. -/
theorem map_returns_days {state : PrevDayState} (frames : List Frame)
    (hne : ∀ balance ∈ (state.prevWallets :: frames.map Frame.wallets).dropLast, balance ≠ 0) :
    (days true isUnrealizedProfitExcluded firstWalletsVals state frames).map
        (fun day => day.timeframePL.map TimeframePL.returns) =
      (List.zipWith (fun profit balance => profit / balance)
        (dailyProfits isUnrealizedProfitExcluded state.prevWallets state.prevPL frames)
        (state.prevWallets :: frames.map Frame.wallets)).map some := by
  induction frames generalizing state with
  | nil => rfl
  | cons frame rest ih =>
    rw [List.map_cons, List.dropLast_cons_cons] at hne
    obtain ⟨hfirst, hne⟩ := List.forall_mem_cons.mp hne
    rw [days_cons, List.map_cons, day_of_ne _ _ hfirst, dailyProfits, List.map_cons,
      List.zipWith_cons_cons, List.map_cons]
    dsimp only
    rw [ih]
    · rfl
    · exact hne

theorem sum_dailyProfits (prevWallets prevPL : ℚ) (frames : List Frame) :
    (dailyProfits isUnrealizedProfitExcluded prevWallets prevPL frames).sum =
      (frames.getLast?.map Frame.wallets).getD prevWallets - prevWallets -
        (frames.map Frame.movements).sum +
        if isUnrealizedProfitExcluded then 0
        else (frames.getLast?.map Frame.pl).getD prevPL - prevPL := by
  induction frames generalizing prevWallets prevPL with
  | nil => cases isUnrealizedProfitExcluded <;> simp [dailyProfits]
  | cons frame rest ih =>
    rw [dailyProfits, List.sum_cons, ih, List.map_cons, List.sum_cons, List.getLast?_cons, profit]
    cases rest.getLast? with
    | none =>
      simp only [Option.map_none, Option.getD_none, Option.map_some, Option.getD_some]
      cases isUnrealizedProfitExcluded <;> simp <;> ring
    | some last =>
      simp only [Option.map_some, Option.getD_some]
      cases isUnrealizedProfitExcluded <;> simp <;> ring

end Balances

end WinLossVSAccountBalance

namespace SummaryByAsset

open WinLoss WinLossVSAccountBalance

/-- The days are given from the newest on. -/
def calcPLUsd (dailyBalancesAndPL : List Day) : ℚ :=
  let lastBalance := (dailyBalancesAndPL.head?.map Day.balance).getD 0
  let firstBalance := (dailyBalancesAndPL.getLast?.map Day.balance).getD 0
  lastBalance - firstBalance

/-- `dailyBalancesAndPL`: the days of the frames, from the newest on. -/
def dailyBalancesAndPL (isUnrealizedProfitExcluded : Bool) (firstWalletsVals : Option ℚ)
    (frames : List Frame) : List Day :=
  (prevDayRun true isUnrealizedProfitExcluded firstWalletsVals frames).reverse

def newPeak (peak balance : ℚ) : ℚ := if balance > peak then balance else peak

def drawdown (peak balance : ℚ) : ℚ := if peak ≠ 0 then (peak - balance) / peak else 0

/-- `peak` and `maxDrawdown` behind one more day. -/
def drawdownStep (res : ℚ × ℚ) (balance : ℚ) : ℚ × ℚ :=
  let peak := newPeak res.1 balance
  let drawdown := drawdown peak balance
  (peak, if drawdown > res.2 then drawdown else res.2)

def calcMaxDrawdownPerc (dailyBalancesAndPL : List Day) : ℚ :=
  match dailyBalancesAndPL with
  | [] => 0
  | _ =>
      let peak := (dailyBalancesAndPL.getLast?.map Day.balance).getD 0
      ((dailyBalancesAndPL.reverse.map Day.balance).foldl drawdownStep (peak, 0)).2 * 100

section Total

variable (isUnrealizedProfitExcluded : Bool) (firstWalletsVals : Option ℚ)

theorem map_balance_prevDayRun (frames : List Frame) :
    (prevDayRun true isUnrealizedProfitExcluded firstWalletsVals frames).map Day.balance =
      dailyBalances isUnrealizedProfitExcluded 0 frames := by
  rw [prevDayRun_eq_days, map_balance_days]

theorem calcPLUsd_eq (frames : List Frame) :
    calcPLUsd (dailyBalancesAndPL isUnrealizedProfitExcluded firstWalletsVals frames) =
      (dailyBalances isUnrealizedProfitExcluded 0 frames).getLast?.getD 0 -
        (dailyBalances isUnrealizedProfitExcluded 0 frames).head?.getD 0 := by
  rw [← map_balance_prevDayRun isUnrealizedProfitExcluded firstWalletsVals, List.getLast?_map,
    List.head?_map, calcPLUsd, dailyBalancesAndPL, List.head?_reverse, List.getLast?_reverse]

/-- The profits of the frames of a run. -/
def profitsOf (frames : List Frame) : List ℚ :=
  dailyProfits isUnrealizedProfitExcluded (firstWalletsVals.getD 0) (firstPL frames) frames

/-- The total leaves out the profit of the first frame. -/
theorem sum_profitsOf (frames : List Frame) :
    (profitsOf isUnrealizedProfitExcluded firstWalletsVals frames).sum =
      (profitsOf isUnrealizedProfitExcluded firstWalletsVals frames).head?.getD 0 +
        calcPLUsd (dailyBalancesAndPL isUnrealizedProfitExcluded firstWalletsVals frames) := by
  rw [calcPLUsd_eq]
  rcases List.eq_nil_or_concat' frames with rfl | ⟨before, last, rfl⟩
  · simp [profitsOf, dailyProfits, dailyBalances]
  · rw [profitsOf, sum_dailyProfits, dailyBalances_append]
    simp only [dailyBalances, List.getLast?_append, List.getLast?_singleton, Option.some_or,
      Option.map_some, Option.getD_some, List.map_append, List.map_singleton, List.sum_append,
      List.sum_singleton, balanceWithoutMovements]
    cases before with
    | nil =>
      simp only [List.nil_append, dailyProfits, dailyBalances, List.head?_cons, Option.getD_some,
        firstPL, List.map_nil, List.sum_nil, Option.map_some, profit]
      cases isUnrealizedProfitExcluded <;> simp <;> ring
    | cons first rest =>
      simp only [List.cons_append, dailyProfits, dailyBalances, List.head?_cons, Option.getD_some,
        firstPL, List.map_cons, List.sum_cons, Option.map_some, profit, balanceWithoutMovements]
      cases isUnrealizedProfitExcluded <;> simp <;> ring

/-- With no balance of zero before a frame: the returns are the profits of the frames by the
balances before them, the profits add up to the change of the balance less the movements, and
the total profit is their sum if and only if the first frame has no profit. -/
theorem plUsd_eq_sum_iff (frames : List Frame)
    (hne : ∀ balance ∈ (balancesOf firstWalletsVals frames).dropLast, balance ≠ 0) :
    (prevDayRun true isUnrealizedProfitExcluded firstWalletsVals frames).map
        (fun day => day.timeframePL.map TimeframePL.returns) =
      (List.zipWith (fun profit balance => profit / balance)
        (profitsOf isUnrealizedProfitExcluded firstWalletsVals frames)
        (balancesOf firstWalletsVals frames)).map some ∧
    (profitsOf isUnrealizedProfitExcluded firstWalletsVals frames).sum =
      lastWallets firstWalletsVals frames - firstWalletsVals.getD 0 -
        (frames.map Frame.movements).sum +
        (if isUnrealizedProfitExcluded then 0
        else (frames.getLast?.map Frame.pl).getD (firstPL frames) - firstPL frames) ∧
    (calcPLUsd (dailyBalancesAndPL isUnrealizedProfitExcluded firstWalletsVals frames) =
        (profitsOf isUnrealizedProfitExcluded firstWalletsVals frames).sum ↔
      ∀ frame ∈ frames.head?,
        frame.wallets - frame.movements - firstWalletsVals.getD 0 = 0) := by
  refine ⟨?_, sum_dailyProfits _ _ _ _, ?_⟩
  · rw [prevDayRun_eq_days]
    exact @map_returns_days isUnrealizedProfitExcluded firstWalletsVals
      ⟨0, firstWalletsVals.getD 0, firstPL frames, 1, 0⟩ frames hne
  · rw [sum_profitsOf]
    have hzero : ∀ total first : ℚ, total = first + total ↔ first = 0 := by
      intro total first
      constructor <;> intro h <;> linarith
    rw [hzero]
    cases frames with
    | nil => simp [profitsOf, dailyProfits]
    | cons frame rest => simp [profitsOf, dailyProfits, profit, firstPL]

end Total

section Drawdown

variable (firstWalletsVals : Option ℚ)

theorem newPeak_eq_max (peak balance : ℚ) : newPeak peak balance = max peak balance := by
  unfold newPeak
  split_ifs with h
  · exact (max_eq_right h.le).symm
  · exact (max_eq_left (not_lt.mp h)).symm

theorem drawdownStep_eq (res : ℚ × ℚ) (balance : ℚ) :
    drawdownStep res balance =
      (max res.1 balance, max res.2 (drawdown (max res.1 balance) balance)) := by
  rw [drawdownStep, newPeak_eq_max]
  split_ifs with h
  · rw [max_eq_right h.le]
  · rw [max_eq_left (not_lt.mp h)]

/-- The drawdown of one day is at most the whole unless the balance is below zero under a
positive peak. -/
theorem drawdown_le_one_iff {peak balance : ℚ} (hle : balance ≤ peak) :
    drawdown peak balance ≤ 1 ↔ (0 < peak → 0 ≤ balance) := by
  rw [drawdown]
  rcases lt_trichotomy peak 0 with hneg | rfl | hpos
  · rw [if_pos hneg.ne]
    apply iff_of_true
    · exact (div_nonpos_of_nonneg_of_nonpos (by linarith) hneg.le).trans zero_le_one
    · intro h
      exact absurd h hneg.not_gt
  · simp
  · rw [if_pos hpos.ne', div_le_one hpos]
    constructor
    · intro h _
      linarith
    · intro h
      have := h hpos
      linarith

/-- What the fold over the balances keeps: no drawdown is above the whole as long as no balance
is below zero behind a positive one. -/
theorem foldl_drawdownStep (peak : ℚ) (balances : List ℚ) :
    0 ≤ (balances.foldl drawdownStep (peak, 0)).2 ∧
      (0 < (balances.foldl drawdownStep (peak, 0)).1 ↔ 0 < peak ∨ ∃ b ∈ balances, 0 < b) ∧
      ((balances.foldl drawdownStep (peak, 0)).2 ≤ 1 ↔
        (peak :: balances).Pairwise fun b b' => 0 < b → 0 ≤ b') := by
  induction balances using List.reverseRecOn with
  | nil => simp
  | append_singleton balances balance ih =>
    obtain ⟨hnonneg, hpeak, hone⟩ := ih
    rw [List.foldl_append, List.foldl_cons, List.foldl_nil, drawdownStep_eq]
    refine ⟨le_max_of_le_left hnonneg, ?_, ?_⟩
    · rw [lt_max_iff, hpeak, or_assoc]
      simp only [List.mem_append, List.mem_singleton, or_and_right, exists_or, exists_eq_left]
    · rw [max_le_iff, hone, drawdown_le_one_iff (le_max_right _ _), ← List.cons_append,
        List.pairwise_append, lt_max_iff, hpeak]
      simp only [List.pairwise_singleton, true_and, List.mem_cons, List.not_mem_nil, or_false,
        forall_eq]
      constructor
      · rintro ⟨hpairwise, hpos⟩
        refine ⟨hpairwise, ?_⟩
        rintro b (rfl | hb) hb0
        · exact hpos (.inl (.inl hb0))
        · exact hpos (.inl (.inr ⟨b, hb, hb0⟩))
      · rintro ⟨hpairwise, hall⟩
        refine ⟨hpairwise, ?_⟩
        rintro ((hb0 | ⟨b, hb, hb0⟩) | hb0)
        · exact hall _ (.inl rfl) hb0
        · exact hall b (.inr hb) hb0
        · exact hb0.le

/-- The same balance once more changes nothing. -/
theorem drawdownStep_drawdownStep (res : ℚ × ℚ) (balance : ℚ) :
    drawdownStep (drawdownStep res balance) balance = drawdownStep res balance := by
  rw [drawdownStep_eq, drawdownStep_eq]
  simp

theorem calcMaxDrawdownPerc_eq (isUnrealizedProfitExcluded : Bool) (frames : List Frame) :
    calcMaxDrawdownPerc (dailyBalancesAndPL isUnrealizedProfitExcluded firstWalletsVals frames) =
      ((dailyBalances isUnrealizedProfitExcluded 0 frames).foldl drawdownStep
        ((dailyBalances isUnrealizedProfitExcluded 0 frames).head?.getD 0, 0)).2 * 100 := by
  rw [← map_balance_prevDayRun isUnrealizedProfitExcluded firstWalletsVals, List.head?_map,
    dailyBalancesAndPL]
  cases hrun : prevDayRun true isUnrealizedProfitExcluded firstWalletsVals frames with
  | nil => simp [calcMaxDrawdownPerc]
  | cons day rest => simp [calcMaxDrawdownPerc]

/-- The drawdown is never negative.  It is above the whole if and only if a balance without
the movements is below zero behind a positive one.  A frame whose balance changes by its
movements alone does not change it. -/
theorem calcMaxDrawdownPerc_bounds (frames : List Frame) :
    0 ≤ calcMaxDrawdownPerc (dailyBalancesAndPL true firstWalletsVals frames) ∧
      (calcMaxDrawdownPerc (dailyBalancesAndPL true firstWalletsVals frames) ≤ 100 ↔
        (dailyBalances true 0 frames).Pairwise fun b b' => 0 < b → 0 ≤ b') ∧
      ∀ earlier frame, frames = earlier ++ [frame] →
        frame.wallets = lastWallets firstWalletsVals earlier + frame.movements →
        calcMaxDrawdownPerc (dailyBalancesAndPL true firstWalletsVals frames) =
          calcMaxDrawdownPerc (dailyBalancesAndPL true firstWalletsVals earlier) := by
  simp only [calcMaxDrawdownPerc_eq]
  refine ⟨?_, ?_, ?_⟩
  · exact mul_nonneg (foldl_drawdownStep _ _).1 (by norm_num)
  · have hone := (foldl_drawdownStep ((dailyBalances true 0 frames).head?.getD 0)
      (dailyBalances true 0 frames)).2.2
    have hscale : ∀ x : ℚ, x * 100 ≤ 100 ↔ x ≤ 1 := by
      intro x
      constructor <;> intro h <;> linarith
    rw [hscale, hone]
    cases hbalances : dailyBalances true 0 frames with
    | nil => simp
    | cons b rest =>
      rw [List.head?_cons, Option.getD_some, List.pairwise_cons, and_iff_right_iff_imp]
      intro hpairwise b' hb'
      rcases List.mem_cons.mp hb' with rfl | hb'
      · exact le_of_lt
      · exact (List.pairwise_cons.mp hpairwise).1 b' hb'
  · rintro earlier frame rfl hwallets
    rw [dailyBalances_append]
    rcases List.eq_nil_or_concat' earlier with rfl | ⟨before, last, rfl⟩
    · simp [dailyBalances, drawdownStep_eq, drawdown]
    · have hsame : balanceWithoutMovements true
          (0 + ((before ++ [last]).map Frame.movements).sum + frame.movements) frame =
          balanceWithoutMovements true (0 + (before.map Frame.movements).sum + last.movements)
            last := by
        simp only [lastWallets, List.getLast?_append, List.getLast?_singleton, Option.some_or,
          Option.map_some, Option.getD_some] at hwallets
        simp only [balanceWithoutMovements, if_true, List.map_append, List.map_singleton,
          List.sum_append, List.sum_singleton]
        linarith
      rw [dailyBalances_append]
      simp only [dailyBalances, hsame, List.foldl_append, List.foldl_cons, List.foldl_nil,
        drawdownStep_drawdownStep, List.append_assoc, List.head?_append]
      cases (dailyBalances true 0 before).head? <;> rfl

end Drawdown

end SummaryByAsset

namespace PrevDayWitness

open WinLoss WinLossVSAccountBalance SummaryByAsset

/-- An empty account, a deposit of 100, and a profit of 50. -/
def emptyAtFirst : List Frame := [⟨some 100, none, some 100, none⟩, ⟨some 150, none, none, none⟩]

theorem emptyAtFirst_stands_still :
    (prevDayRun true true none emptyAtFirst).map Day.perc = [0, 0] ∧
      returnsOf true none emptyAtFirst = [0, 1 / 2] ∧
      ¬ ∀ (shouldTimeframePLBeReturned isUnrealizedProfitExcluded : Bool)
          (firstWalletsVals : Option ℚ) (frames : List Frame) (n : ℕ), n < frames.length →
        ((prevDayRun shouldTimeframePLBeReturned isUnrealizedProfitExcluded firstWalletsVals
          frames).map Day.perc)[n]? =
          some (((((returnsOf isUnrealizedProfitExcluded firstWalletsVals frames).take
            (n + 1)).map fun r => 1 + r).prod - 1) * 100) := by
  refine ⟨by decide +kernel, by decide +kernel, ?_⟩
  intro hall
  have := hall true true none emptyAtFirst 1 (by decide)
  revert this
  decide +kernel

/-- A balance of 10, a deposit of 100, and the loss of all. -/
def allLost : List Frame :=
  [⟨some 10, none, none, none⟩, ⟨some 110, none, some 100, none⟩, ⟨some 0, none, none, none⟩]

/-- The loss is eleven times the balance it is compared with. -/
theorem allLost_above_whole :
    calcMaxDrawdownPerc (dailyBalancesAndPL true (some 10) allLost) = 1100 ∧
      ¬ ∀ (firstWalletsVals : Option ℚ) (frames : List Frame), 0 ≤ firstWalletsVals.getD 0 →
        (∀ frame ∈ frames, 0 ≤ frame.wallets) →
        0 ≤ calcMaxDrawdownPerc (dailyBalancesAndPL true firstWalletsVals frames) ∧
          calcMaxDrawdownPerc (dailyBalancesAndPL true firstWalletsVals frames) ≤ 100 := by
  have heq : calcMaxDrawdownPerc (dailyBalancesAndPL true (some 10) allLost) = 1100 := by
    decide +kernel
  refine ⟨heq, ?_⟩
  intro hall
  have := (hall (some 10) allLost (by decide +kernel) (by decide +kernel)).2
  rw [heq] at this
  revert this
  decide +kernel

/-- A profit of 20 on the first day. -/
def wonAtFirst : List Frame := [⟨some 120, none, none, none⟩]

/-- The total leaves it out. -/
theorem wonAtFirst_left_out :
    calcPLUsd (dailyBalancesAndPL true (some 100) wonAtFirst) = 0 ∧
      (profitsOf true (some 100) wonAtFirst).sum = 20 ∧
      ¬ ∀ (isUnrealizedProfitExcluded : Bool) (firstWalletsVals : Option ℚ)
          (frames : List Frame),
        (∀ balance ∈ (balancesOf firstWalletsVals frames).dropLast, balance ≠ 0) →
        calcPLUsd (dailyBalancesAndPL isUnrealizedProfitExcluded firstWalletsVals frames) =
          (profitsOf isUnrealizedProfitExcluded firstWalletsVals frames).sum := by
  refine ⟨by decide +kernel, by decide +kernel, ?_⟩
  intro hall
  have := hall true (some 100) wonAtFirst (by decide +kernel)
  revert this
  decide +kernel

/-- Behind a first day without profit the total is the sum. -/
def wonLater : List Frame := [⟨some 100, none, none, none⟩, ⟨some 120, none, none, none⟩]

theorem plUsd_eq_sum_iff_wonLater :
    calcPLUsd (dailyBalancesAndPL true (some 100) wonLater) =
      (profitsOf true (some 100) wonLater).sum := by
  apply (plUsd_eq_sum_iff true (some 100) wonLater (by decide +kernel)).2.2.mpr
  decide +kernel

end PrevDayWitness

end ReportsFramework
