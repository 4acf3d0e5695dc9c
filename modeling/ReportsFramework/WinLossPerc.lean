/-
Win/loss against the account balance: the percentage of a frame, and when a frame of nothing
but deposits and withdrawals keeps the percentage of the frame before.
-/
import Mathlib.Tactic.FieldSimp
import Mathlib.Tactic.Ring
import ReportsFramework.SeriesMerge

namespace ReportsFramework

namespace WinLoss

/-- The series behind a frame. -/
inductive SeriesKey
  | walletsGroupedByTimeframe
  | withdrawalsGroupedByTimeframe
  | depositsGroupedByTimeframe
  | plGroupedByTimeframe
deriving DecidableEq

def SeriesKey.all : List SeriesKey :=
  [.walletsGroupedByTimeframe, .withdrawalsGroupedByTimeframe, .depositsGroupedByTimeframe,
    .plGroupedByTimeframe]

/-- What the series hold under `USD` at one timestamp; `none` stands for no finite number. -/
structure Frame where
  walletsGroupedByTimeframe : Option ℚ
  withdrawalsGroupedByTimeframe : Option ℚ
  depositsGroupedByTimeframe : Option ℚ
  plGroupedByTimeframe : Option ℚ
deriving DecidableEq

def Frame.ofItem (item : MergedItem fun _ : SeriesKey => Option ℚ) : Frame where
  walletsGroupedByTimeframe := (item.vals .walletsGroupedByTimeframe).join
  withdrawalsGroupedByTimeframe := (item.vals .withdrawalsGroupedByTimeframe).join
  depositsGroupedByTimeframe := (item.vals .depositsGroupedByTimeframe).join
  plGroupedByTimeframe := (item.vals .plGroupedByTimeframe).join

def sumMovementsWithPrevRes (prevMovementsRes withdrawals deposits : Option ℚ) : Option ℚ :=
  some (prevMovementsRes.getD 0 + withdrawals.getD 0 + deposits.getD 0)

namespace Frame

def wallets (frame : Frame) : ℚ := frame.walletsGroupedByTimeframe.getD 0

def pl (frame : Frame) : ℚ := frame.plGroupedByTimeframe.getD 0

def movementsRes (frame : Frame) : Option ℚ :=
  sumMovementsWithPrevRes none frame.withdrawalsGroupedByTimeframe frame.depositsGroupedByTimeframe

def movements (frame : Frame) : ℚ := frame.movementsRes.getD 0

end Frame

end WinLoss

namespace WinLossVSAccountBalance

open WinLoss

structure AccountState where
  firstPLVals : Option ℚ
  prevMovementsRes : Option ℚ
  percCorrection : ℚ
  prevPerc : ℚ
  firstWallets : ℚ
  prevWallets : ℚ
deriving DecidableEq

def AccountState.init : AccountState := ⟨none, none, 0, 0, 0, 0⟩

section Account

variable (isUnrealizedProfitExcluded : Bool) (firstWalletsVals : Option ℚ)

/-- What the first frame sets. -/
def AccountState.enter (isFirst : Bool) (frame : Frame) (state : AccountState) : AccountState :=
  if isFirst then
    { state with
      firstPLVals := frame.plGroupedByTimeframe
      firstWallets := firstWalletsVals.getD 0
      prevWallets := firstWalletsVals.getD 0 }
  else state

def AccountState.unrealized (state : AccountState) (pl : ℚ) : ℚ :=
  if isUnrealizedProfitExcluded then 0 else pl - state.firstPLVals.getD 0

/-- The percentage of a frame, from the state behind the first frame's part. -/
def AccountState.perc (state : AccountState) (frame : Frame) : ℚ × AccountState :=
  let newMovements := frame.movements
  let prevMovementsRes := sumMovementsWithPrevRes
    (if newMovements ≠ 0 then none else state.prevMovementsRes) frame.movementsRes none
  let firstWallets :=
    if newMovements ≠ 0 then state.prevWallets + newMovements else state.firstWallets
  let winLoss := frame.wallets - firstWallets +
    state.unrealized isUnrealizedProfitExcluded frame.pl
  let state := { state with
    prevMovementsRes := prevMovementsRes
    firstWallets := firstWallets
    prevWallets := frame.wallets }
  if firstWallets = 0 then (state.percCorrection, state)
  else
    let percCorrection := if newMovements ≠ 0 then state.prevPerc else state.percCorrection
    let perc := winLoss / firstWallets * 100 + percCorrection
    (perc, { state with percCorrection := percCorrection, prevPerc := perc })

def getWinLossVSAccountBalanceByTimeframe (isFirst : Bool) (state : AccountState)
    (frame : Frame) : ℚ × AccountState :=
  (state.enter firstWalletsVals isFirst frame).perc isUnrealizedProfitExcluded frame

/-- The frames are given from the oldest on. -/
def accountRun (frames : List Frame) : List ℚ × AccountState :=
  CalcGroupedData.runFrames (getWinLossVSAccountBalanceByTimeframe isUnrealizedProfitExcluded
    firstWalletsVals) true .init frames

/-- The grouped data of the report, from the newest on. -/
def accountGroupedData (data : CalcGroupedData.Series fun _ : SeriesKey => Option ℚ) :
    List (GroupItem ℚ) :=
  (CalcGroupedData.calcGroupedData SeriesKey.all data
    (CalcGroupedData.fromOldest fun isFirst state item =>
      let (perc, state) := getWinLossVSAccountBalanceByTimeframe isUnrealizedProfitExcluded
        firstWalletsVals isFirst state (.ofItem item.1)
      (some perc, state)) true AccountState.init).1

/-- The report is the run over the frames of the merged items. -/
theorem accountGroupedData_eq (data : CalcGroupedData.Series fun _ : SeriesKey => Option ℚ) :
    accountGroupedData isUnrealizedProfitExcluded firstWalletsVals data =
      (List.zipWith (fun (item : MergedItem fun _ : SeriesKey => Option ℚ) perc => ⟨item.mts, perc⟩)
        (CalcGroupedData.mergeData SeriesKey.all data).reverse
        (accountRun isUnrealizedProfitExcluded firstWalletsVals
          ((CalcGroupedData.mergeData SeriesKey.all data).reverse.map
            Frame.ofItem)).1).reverse := by
  exact CalcGroupedData.calcGroupedData_fromOldest_some SeriesKey.all data
    (getWinLossVSAccountBalanceByTimeframe isUnrealizedProfitExcluded firstWalletsVals)
    Frame.ofItem AccountState.init

/-- The state a frame is met in. -/
def stateAt (earlier : List Frame) (frame : Frame) : AccountState :=
  (accountRun isUnrealizedProfitExcluded firstWalletsVals earlier).2.enter firstWalletsVals
    earlier.isEmpty frame

theorem accountRun_concat (earlier : List Frame) (frame : Frame) :
    accountRun isUnrealizedProfitExcluded firstWalletsVals (earlier ++ [frame]) =
      ((accountRun isUnrealizedProfitExcluded firstWalletsVals earlier).1 ++
          [((stateAt isUnrealizedProfitExcluded firstWalletsVals earlier frame).perc
            isUnrealizedProfitExcluded frame).1],
        ((stateAt isUnrealizedProfitExcluded firstWalletsVals earlier frame).perc
          isUnrealizedProfitExcluded frame).2) := by
  rw [accountRun, CalcGroupedData.runFrames_append, Bool.true_and]
  rfl

/-- The percentage of a frame does not depend on the later ones. -/
theorem getElem?_accountRun (earlier : List Frame) (frame : Frame) (later : List Frame) :
    (accountRun isUnrealizedProfitExcluded firstWalletsVals
        (earlier ++ frame :: later)).1[earlier.length]? =
      some ((stateAt isUnrealizedProfitExcluded firstWalletsVals earlier frame).perc
        isUnrealizedProfitExcluded frame).1 := by
  have hlength := CalcGroupedData.length_runFrames (getWinLossVSAccountBalanceByTimeframe
    isUnrealizedProfitExcluded firstWalletsVals) true .init earlier
  rw [accountRun, CalcGroupedData.runFrames_append, Bool.true_and]
  dsimp only
  rw [List.getElem?_append_right hlength.le, hlength, Nat.sub_self]
  rfl

/-- The balance behind the earlier frames. -/
def lastWallets (earlier : List Frame) : ℚ :=
  (earlier.getLast?.map Frame.wallets).getD (firstWalletsVals.getD 0)

/-- The profit/loss of the frame before; the first frame is compared with itself. -/
def lastPL (earlier : List Frame) (frame : Frame) : ℚ :=
  (earlier.getLast?.map Frame.pl).getD frame.pl

/-- The percentage of the frame before, or the one of the start of the range. -/
def lastPerc (earlier : List Frame) : ℚ :=
  (accountRun isUnrealizedProfitExcluded firstWalletsVals earlier).1.getLast?.getD 0

/-- The balance changes by the deposits and withdrawals of the frame only. -/
structure OnlyMovements (earlier : List Frame) (frame : Frame) : Prop where
  wallets_eq : frame.wallets = lastWallets firstWalletsVals earlier + frame.movements
  pl_eq : frame.pl = lastPL earlier frame

/-- What a state says of the percentage that it was left with. -/
structure AccountState.Reports (state : AccountState) (perc pl : ℚ) : Prop where
  perc_eq : perc =
    if state.firstWallets = 0 then state.percCorrection
    else (state.prevWallets - state.firstWallets +
      state.unrealized isUnrealizedProfitExcluded pl) / state.firstWallets * 100 +
        state.percCorrection
  prevPerc_eq : state.firstWallets ≠ 0 → state.prevPerc = perc

theorem reports_perc (state : AccountState) (frame : Frame) :
    (state.perc isUnrealizedProfitExcluded frame).2.Reports isUnrealizedProfitExcluded
      (state.perc isUnrealizedProfitExcluded frame).1 frame.pl := by
  unfold AccountState.perc
  dsimp only
  by_cases hzero : (if frame.movements ≠ 0 then state.prevWallets + frame.movements
      else state.firstWallets) = 0
  · rw [if_pos hzero]
    exact ⟨(if_pos hzero).symm, fun hne => absurd hzero hne⟩
  · rw [if_neg hzero]
    exact ⟨(if_neg hzero).symm, fun _ => rfl⟩

theorem prevWallets_perc (state : AccountState) (frame : Frame) :
    (state.perc isUnrealizedProfitExcluded frame).2.prevWallets = frame.wallets := by
  unfold AccountState.perc
  dsimp only
  split_ifs <;> rfl

/-- A frame is met in a state that reports the percentage of the frame before. -/
theorem reports_stateAt (earlier : List Frame) (frame : Frame) :
    (stateAt isUnrealizedProfitExcluded firstWalletsVals earlier frame).Reports
        isUnrealizedProfitExcluded
        (lastPerc isUnrealizedProfitExcluded firstWalletsVals earlier)
        (lastPL earlier frame) ∧
      (stateAt isUnrealizedProfitExcluded firstWalletsVals earlier frame).prevWallets =
        lastWallets firstWalletsVals earlier := by
  rcases List.eq_nil_or_concat' earlier with rfl | ⟨before, last, rfl⟩
  · refine ⟨⟨?_, fun _ => rfl⟩, rfl⟩
    simp [lastPerc, accountRun, CalcGroupedData.runFrames, stateAt, AccountState.enter,
      AccountState.init, AccountState.unrealized, lastPL, Frame.pl]
  · have hstate : stateAt isUnrealizedProfitExcluded firstWalletsVals (before ++ [last]) frame =
        ((stateAt isUnrealizedProfitExcluded firstWalletsVals before last).perc
          isUnrealizedProfitExcluded last).2 := by
      rw [stateAt, accountRun_concat]
      simp [AccountState.enter]
    rw [hstate, lastPerc, accountRun_concat, lastPL, lastWallets]
    simp only [List.getLast?_append, List.getLast?_singleton, Option.some_or, Option.map_some,
      Option.getD_some]
    exact ⟨reports_perc _ _ _, prevWallets_perc _ _ _⟩

/-- The frame keeps the percentage: nothing is moved; or all is withdrawn, and nothing was won
on the wallets the percentage is taken of; or a balance is left, and no unrealized profit is
counted again on it. -/
def KeepsPerc (earlier : List Frame) (frame : Frame) : Prop :=
  let state := stateAt isUnrealizedProfitExcluded firstWalletsVals earlier frame
  let unrealized := state.unrealized isUnrealizedProfitExcluded frame.pl
  frame.movements = 0 ∨
    (frame.wallets = 0 ∧ (state.firstWallets = 0 ∨
      state.prevWallets - state.firstWallets + unrealized = 0)) ∨
    (frame.wallets ≠ 0 ∧ if state.firstWallets = 0 then
      unrealized / frame.wallets * 100 + state.prevPerc = state.percCorrection
    else unrealized = 0)

/-- A frame of nothing but movements has the percentage of the frame before if and only if it
keeps it. -/
theorem perc_eq_lastPerc_iff (earlier : List Frame) (frame : Frame) (later : List Frame)
    (h : OnlyMovements firstWalletsVals earlier frame) :
    (accountRun isUnrealizedProfitExcluded firstWalletsVals
        (earlier ++ frame :: later)).1[earlier.length]? =
      some (lastPerc isUnrealizedProfitExcluded firstWalletsVals earlier) ↔
      KeepsPerc isUnrealizedProfitExcluded firstWalletsVals earlier frame := by
  obtain ⟨hreports, hprev⟩ := reports_stateAt isUnrealizedProfitExcluded firstWalletsVals
    earlier frame
  have hwallets := h.wallets_eq
  rw [← hprev] at hwallets
  rw [← h.pl_eq] at hreports
  rw [getElem?_accountRun, Option.some.injEq]
  unfold KeepsPerc
  generalize stateAt isUnrealizedProfitExcluded firstWalletsVals earlier frame = state
    at hreports hwallets ⊢
  have hlast := hreports.perc_eq
  have hprevPerc := hreports.prevPerc_eq
  generalize lastPerc isUnrealizedProfitExcluded firstWalletsVals earlier = perc
    at hlast hprevPerc ⊢
  unfold AccountState.perc
  dsimp only
  by_cases hmove : frame.movements = 0
  · -- the formula of the frame before, with the same values
    rw [hmove, add_zero] at hwallets
    simp only [hmove, ne_eq, not_true_eq_false, if_false, true_or, iff_true]
    rw [hlast, hwallets]
    split_ifs <;> rfl
  · simp only [hmove, ne_eq, not_false_eq_true, if_true, false_or]
    rw [← hwallets, sub_self, zero_add]
    by_cases hempty : frame.wallets = 0
    · simp only [hempty, if_true, true_and, not_true_eq_false, false_and, or_false]
      rw [hlast]
      by_cases hfirst : state.firstWallets = 0
      · simp [hfirst]
      · simp [hfirst]
    · simp only [hempty, if_false, false_and, not_false_eq_true, true_and, false_or]
      by_cases hfirst : state.firstWallets = 0
      · rw [hlast]
        simp [hfirst]
      · rw [hprevPerc hfirst]
        simp [hfirst, hempty]

end Account

namespace AccountWitness

/-- A balance of 100 that wins 50 on open positions. -/
def won : List Frame := [⟨some 100, none, none, some 0⟩, ⟨some 100, none, none, some 50⟩]

/-- A deposit of 100. -/
def deposited : Frame := ⟨some 200, none, some 100, some 50⟩

theorem onlyMovements_deposited : OnlyMovements (some 100) won deposited := by
  constructor <;> decide +kernel

/-- The profit is counted again on the deposit. -/
theorem deposited_counts_again :
    (accountRun false (some 100) (won ++ [deposited])).1 = [0, 50, 75] ∧
      ¬ ∀ (isUnrealizedProfitExcluded : Bool) (firstWalletsVals : Option ℚ)
          (earlier : List Frame) (frame : Frame) (later : List Frame),
        OnlyMovements firstWalletsVals earlier frame →
        (accountRun isUnrealizedProfitExcluded firstWalletsVals
            (earlier ++ frame :: later)).1[earlier.length]? =
          some (lastPerc isUnrealizedProfitExcluded firstWalletsVals earlier) := by
  refine ⟨by decide +kernel, ?_⟩
  intro hall
  have := hall false (some 100) won deposited [] onlyMovements_deposited
  revert this
  decide +kernel

theorem perc_eq_lastPerc_iff_deposited :
    (accountRun true (some 100) (won ++ [deposited])).1[2]? =
      some (lastPerc true (some 100) won) := by
  apply (perc_eq_lastPerc_iff true (some 100) won deposited [] onlyMovements_deposited).mpr
  exact .inr (.inr (by decide +kernel))

end AccountWitness

end WinLossVSAccountBalance

end ReportsFramework
