/-
`_findMaxBalanceBetweenMts`: the maximum balance of a currency between two times, by a scan from
the newest entry or one from the oldest.
-/
import Mathlib.Algebra.Order.Ring.Rat
import Mathlib.Data.List.Induction
import Mathlib.Tactic.SplitIfs
import Mathlib.Tactic.Tauto

namespace ReportsFramework

namespace PerformingLoan

/-- What is read of a ledger. -/
structure LedgerBalance where
  mts : ℤ
  currency : String
  balance : ℚ
deriving DecidableEq, Repr

section Scan

variable (isOver isSkipped : LedgerBalance → Bool)

/-- `null` is less than what is positive. -/
def maxBalanceOf (maxBalance : Option ℚ) (ledger : LedgerBalance) : Option ℚ :=
  if ledger.balance > maxBalance.getD 0 then some ledger.balance else maxBalance

/-- A loop over the balances with a `break` and a `continue`. -/
def scan : List LedgerBalance → Option ℚ → Option ℚ
  | [], maxBalance => maxBalance
  | ledger :: balances, maxBalance =>
      if isOver ledger then maxBalance
      else if isSkipped ledger then scan balances maxBalance
      else scan balances (maxBalanceOf maxBalance ledger)

end Scan

section Find

variable (balances : List LedgerBalance) (start stop : ℤ) (symbol : String)

def findMaxBalanceBetweenMtsFromStart : Option ℚ :=
  scan (fun ledger => ledger.mts < start)
    (fun ledger => ledger.mts > stop || ledger.currency ≠ symbol) balances none

def findMaxBalanceBetweenMtsFromEnd : Option ℚ :=
  scan (fun ledger => ledger.mts > stop)
    (fun ledger => ledger.mts < start || ledger.currency ≠ symbol) balances.reverse none

end Find

/-- A bound is `none` where it is no integer. -/
def findMaxBalanceBetweenMts (balances : List LedgerBalance) (start stop : Option ℤ)
    (symbol : String) : Option ℚ :=
  match balances[(balances.length - 1) / 2]?, start, stop with
  | some middleEntry, some start, some stop =>
      if middleEntry.mts > stop then findMaxBalanceBetweenMtsFromEnd balances start stop symbol
      else findMaxBalanceBetweenMtsFromStart balances start stop symbol
  | _, _, _ => none

/-- The balances of a currency in an interval. -/
def balancesBetween (balances : List LedgerBalance) (start stop : ℤ) (symbol : String) :
    List ℚ :=
  (balances.filter fun ledger =>
    ledger.currency = symbol && start ≤ ledger.mts && ledger.mts ≤ stop).map (·.balance)

section Proof

variable {isOver isSkipped : LedgerBalance → Bool} {balances : List LedgerBalance}

/-- Behind the `break` there is nothing to find. -/
theorem scan_eq_filter (hover : balances.Pairwise fun ledger ledger' =>
      isOver ledger = true → isOver ledger' = true) (maxBalance : Option ℚ) :
    scan isOver isSkipped balances maxBalance =
      (balances.filter fun ledger => !isOver ledger && !isSkipped ledger).foldl maxBalanceOf
        maxBalance := by
  induction balances generalizing maxBalance with
  | nil => rfl
  | cons ledger balances ih =>
    obtain ⟨hfirst, hrest⟩ := List.pairwise_cons.mp hover
    rw [scan]
    cases hbreak : isOver ledger with
    | true =>
      have hnone : (ledger :: balances).filter
          (fun ledger => !isOver ledger && !isSkipped ledger) = [] := by
        rw [List.filter_eq_nil_iff]
        intro ledger' hledger'
        rcases List.mem_cons.mp hledger' with rfl | hmem
        · simp [hbreak]
        · simp [hfirst ledger' hmem hbreak]
      rw [hnone]
      rfl
    | false =>
      cases hskip : isSkipped ledger with
      | true =>
        rw [List.filter_cons_of_neg (by simp [hskip])]
        exact ih hrest maxBalance
      | false =>
        rw [List.filter_cons_of_pos (by simp [hbreak, hskip]), List.foldl_cons]
        exact ih hrest (maxBalanceOf maxBalance ledger)

/-- The fold over positive balances is their maximum. -/
theorem foldl_maxBalanceOf (hpos : ∀ ledger ∈ balances, 0 < ledger.balance) :
    balances.foldl maxBalanceOf none = (balances.map (·.balance)).max? := by
  induction balances using List.reverseRecOn with
  | nil => rfl
  | append_singleton balances ledger ih =>
    have hbefore : ∀ ledger ∈ balances, 0 < ledger.balance := by
      intro ledger' hledger'
      exact hpos ledger' (List.mem_append_left _ hledger')
    rw [List.foldl_append, List.foldl_cons, List.foldl_nil, ih hbefore]
    symm
    cases hmax : (balances.map (·.balance)).max? with
    | none =>
      rw [List.max?_eq_none_iff, List.map_eq_nil_iff] at hmax
      subst hmax
      simp [maxBalanceOf, hpos ledger (by simp)]
    | some maxBalance =>
      obtain ⟨hmem, hle⟩ := List.max?_eq_some_iff.mp hmax
      rw [maxBalanceOf, Option.getD_some, List.map_append, List.map_singleton]
      split_ifs with hgt
      · rw [List.max?_eq_some_iff]
        refine ⟨by simp, fun b hb => ?_⟩
        rcases List.mem_append.mp hb with hb | hb
        · exact (hle b hb).trans hgt.le
        · exact (List.mem_singleton.mp hb).le
      · rw [List.max?_eq_some_iff]
        refine ⟨List.mem_append_left _ hmem, fun b hb => ?_⟩
        rcases List.mem_append.mp hb with hb | hb
        · exact hle b hb
        · rw [List.mem_singleton.mp hb]
          exact not_lt.mp hgt

theorem max?_reverse (l : List ℚ) : l.reverse.max? = l.max? := by
  cases hmax : l.max? with
  | none =>
    rw [List.max?_eq_none_iff] at hmax
    rw [hmax]
    rfl
  | some m =>
    obtain ⟨hmem, hle⟩ := List.max?_eq_some_iff.mp hmax
    rw [List.max?_eq_some_iff]
    exact ⟨List.mem_reverse.mpr hmem, fun b hb => hle b (List.mem_reverse.mp hb)⟩

variable {start stop : ℤ} {symbol : String}

theorem findMaxBalanceBetweenMtsFromStart_eq
    (hsorted : balances.Pairwise fun ledger ledger' => ledger'.mts ≤ ledger.mts)
    (hpos : ∀ ledger ∈ balances, 0 < ledger.balance) :
    findMaxBalanceBetweenMtsFromStart balances start stop symbol =
      (balancesBetween balances start stop symbol).max? := by
  rw [findMaxBalanceBetweenMtsFromStart, scan_eq_filter, foldl_maxBalanceOf, balancesBetween]
  · congr 2
    apply List.filter_congr
    intro ledger _
    rw [Bool.eq_iff_iff]
    simp only [Bool.and_eq_true, Bool.not_eq_true', Bool.or_eq_false_iff, decide_eq_true_eq,
      decide_eq_false_iff_not, not_lt, not_not, gt_iff_lt]
    tauto
  · intro ledger hledger
    exact hpos ledger (List.mem_filter.mp hledger).1
  · apply hsorted.imp
    intro ledger ledger' hle hlt
    simp only [decide_eq_true_eq] at hlt ⊢
    omega

theorem findMaxBalanceBetweenMtsFromEnd_eq
    (hsorted : balances.Pairwise fun ledger ledger' => ledger'.mts ≤ ledger.mts)
    (hpos : ∀ ledger ∈ balances, 0 < ledger.balance) :
    findMaxBalanceBetweenMtsFromEnd balances start stop symbol =
      (balancesBetween balances start stop symbol).max? := by
  rw [findMaxBalanceBetweenMtsFromEnd, scan_eq_filter, foldl_maxBalanceOf, List.filter_reverse,
    List.map_reverse, max?_reverse, balancesBetween]
  · congr 2
    apply List.filter_congr
    intro ledger _
    rw [Bool.eq_iff_iff]
    simp only [Bool.and_eq_true, Bool.not_eq_true', Bool.or_eq_false_iff, decide_eq_true_eq,
      decide_eq_false_iff_not, not_lt, not_not, gt_iff_lt]
    tauto
  · intro ledger hledger
    exact hpos ledger (List.mem_reverse.mp (List.mem_filter.mp hledger).1)
  · rw [List.pairwise_reverse]
    apply hsorted.imp
    intro ledger ledger' hle hlt
    simp only [decide_eq_true_eq] at hlt ⊢
    omega

/-- Either scan finds the maximum of the balances in the interval. -/
theorem findMaxBalanceBetweenMts_eq_max? (balances : List LedgerBalance)
    (hsorted : balances.Pairwise fun ledger ledger' => ledger'.mts ≤ ledger.mts)
    (hpos : ∀ ledger ∈ balances, 0 < ledger.balance) (start stop : ℤ) (symbol : String) :
    findMaxBalanceBetweenMts balances (some start) (some stop) symbol =
      (balancesBetween balances start stop symbol).max? := by
  unfold findMaxBalanceBetweenMts
  cases hmiddle : balances[(balances.length - 1) / 2]? with
  | none =>
    have hnil : balances = [] := by
      rw [List.getElem?_eq_none_iff] at hmiddle
      apply List.eq_nil_of_length_eq_zero
      omega
    rw [hnil]
    rfl
  | some middleEntry =>
    simp only
    split_ifs
    · exact findMaxBalanceBetweenMtsFromEnd_eq hsorted hpos
    · exact findMaxBalanceBetweenMtsFromStart_eq hsorted hpos

end Proof

namespace MaxBalanceWitness

/-- The middle entry is behind the interval. -/
def balances : List LedgerBalance :=
  [⟨50, "BTC", 3⟩, ⟨40, "USD", 9⟩, ⟨30, "USD", 4⟩, ⟨20, "USD", 7⟩, ⟨20, "BTC", 8⟩, ⟨10, "USD", 2⟩]

theorem max_between :
    findMaxBalanceBetweenMts balances (some 10) (some 20) "USD" = some 7 ∧
      findMaxBalanceBetweenMts balances (some 10) (some 20) "USD" =
        (balancesBetween balances 10 20 "USD").max? :=
  ⟨by decide +kernel, findMaxBalanceBetweenMts_eq_max? balances (by decide +kernel)
    (by decide +kernel) 10 20 "USD"⟩

end MaxBalanceWitness

end PerformingLoan

end ReportsFramework
