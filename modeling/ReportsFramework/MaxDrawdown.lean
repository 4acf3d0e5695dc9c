/-
The maximum drawdown of a series as the greatest fall from an earlier balance to a later one.
-/
import Mathlib.Order.Bounds.Basic
import ReportsFramework.PrevDayBalance

namespace ReportsFramework

namespace SummaryByAsset

open WinLoss WinLossVSAccountBalance

/-- The relative falls between two balances of a series, the first one not later. -/
def falls (balances : List ℚ) : Set ℚ :=
  {x | ∃ (i j : ℕ) (b b' : ℚ), i ≤ j ∧ balances[i]? = some b ∧ balances[j]? = some b' ∧
    x = (b - b') / b}

theorem falls_singleton (b : ℚ) : IsGreatest (falls [b]) 0 := by
  constructor
  · exact ⟨0, 0, b, b, le_rfl, rfl, rfl, by simp⟩
  · rintro x ⟨i, j, a, a', -, ha, ha', rfl⟩
    have hsame : a = b ∧ a' = b := by
      have hi := List.mem_of_getElem? ha
      have hj := List.mem_of_getElem? ha'
      simp only [List.mem_singleton] at hi hj
      exact ⟨hi, hj⟩
    rw [hsame.1, hsame.2, sub_self, zero_div]

/-- One more balance adds the falls down to it. -/
theorem falls_append (balances : List ℚ) (b : ℚ) :
    falls (balances ++ [b]) = falls balances ∪ {x | ∃ a ∈ balances ++ [b], x = (a - b) / a} := by
  ext x
  constructor
  · rintro ⟨i, j, a, a', hij, ha, ha', rfl⟩
    have hj := (List.getElem?_eq_some_iff.mp ha').1
    rw [List.length_append, List.length_singleton] at hj
    by_cases hlast : j < balances.length
    · rw [List.getElem?_append_left (hij.trans_lt hlast)] at ha
      rw [List.getElem?_append_left hlast] at ha'
      exact .inl ⟨i, j, a, a', hij, ha, ha', rfl⟩
    · have hjlast : j = balances.length := by omega
      rw [hjlast, List.getElem?_concat_length] at ha'
      cases ha'
      exact .inr ⟨a, List.mem_of_getElem? ha, rfl⟩
  · rintro (⟨i, j, a, a', hij, ha, ha', rfl⟩ | ⟨a, hmem, rfl⟩)
    · have hi := (List.getElem?_eq_some_iff.mp ha).1
      have hj := (List.getElem?_eq_some_iff.mp ha').1
      exact ⟨i, j, a, a', hij, by rwa [List.getElem?_append_left hi],
        by rwa [List.getElem?_append_left hj], rfl⟩
    · obtain ⟨i, hi⟩ := List.getElem?_of_mem hmem
      have hlt := (List.getElem?_eq_some_iff.mp hi).1
      rw [List.length_append, List.length_singleton] at hlt
      exact ⟨i, balances.length, a, b, by omega, hi, List.getElem?_concat_length, rfl⟩

/-- The greatest fall down to a balance is the one from the peak. -/
theorem isGreatest_drawdown {balances : List ℚ} {peak b : ℚ}
    (hpos : ∀ a ∈ balances, 0 < a) (hb : 0 < b) (hpeak : IsGreatest {a | a ∈ balances} peak) :
    IsGreatest {x | ∃ a ∈ balances, x = (a - b) / a} (drawdown peak b) := by
  have hpeakpos := hpos peak hpeak.1
  have hdrawdown : drawdown peak b = (peak - b) / peak := by
    rw [drawdown, if_pos hpeakpos.ne']
  constructor
  · exact ⟨peak, hpeak.1, hdrawdown⟩
  · rintro x ⟨a, ha, rfl⟩
    have hle : a ≤ peak := hpeak.2 ha
    have hapos := hpos a ha
    rw [hdrawdown, sub_div, sub_div, div_self hapos.ne', div_self hpeakpos.ne']
    have hdiv : b / peak ≤ b / a := div_le_div_of_nonneg_left hb.le hapos hle
    linarith

/-- What the fold keeps: the greatest balance and the greatest fall up to here. -/
theorem foldl_drawdownStep_isGreatest {first : ℚ} {balances : List ℚ}
    (hpos : ∀ b ∈ first :: balances, 0 < b) :
    IsGreatest {b | b ∈ first :: balances} (balances.foldl drawdownStep (first, 0)).1 ∧
      IsGreatest (falls (first :: balances)) (balances.foldl drawdownStep (first, 0)).2 := by
  induction balances using List.reverseRecOn with
  | nil =>
    refine ⟨?_, falls_singleton first⟩
    simp
  | append_singleton balances b ih =>
    rw [← List.cons_append] at hpos ⊢
    have hbefore : ∀ b ∈ first :: balances, 0 < b := by
      intro b hb
      exact hpos b (List.mem_append_left _ hb)
    obtain ⟨hpeak, hfall⟩ := ih hbefore
    rw [List.foldl_append, List.foldl_cons, List.foldl_nil, drawdownStep_eq]
    have hnewPeak : IsGreatest {a | a ∈ first :: balances ++ [b]}
        (max (balances.foldl drawdownStep (first, 0)).1 b) := by
      have hunion := hpeak.union (isGreatest_singleton (a := b))
      have hset : {a | a ∈ first :: balances} ∪ {b} = {a | a ∈ first :: balances ++ [b]} := by
        ext a
        simp only [Set.mem_union, Set.mem_ofPred_eq, Set.mem_singleton_iff, List.mem_append,
          List.mem_singleton]
      rwa [hset] at hunion
    refine ⟨hnewPeak, ?_⟩
    rw [falls_append]
    exact hfall.union (isGreatest_drawdown hpos (hpos b (by simp)) hnewPeak)

/-- The drawdown of positive balances is the greatest fall, in percent; without a day it is 0. -/
theorem calcMaxDrawdownPerc_isGreatest (dailyBalancesAndPL : List Day)
    (hpos : ∀ day ∈ dailyBalancesAndPL, 0 < day.balance) :
    (dailyBalancesAndPL = [] → calcMaxDrawdownPerc dailyBalancesAndPL = 0) ∧
      (dailyBalancesAndPL ≠ [] →
        IsGreatest {x | ∃ fall ∈ falls (dailyBalancesAndPL.reverse.map Day.balance),
          x = fall * 100} (calcMaxDrawdownPerc dailyBalancesAndPL)) := by
  constructor
  · rintro rfl
    rfl
  · intro hne
    obtain ⟨later, oldest, rfl⟩ : ∃ later oldest, dailyBalancesAndPL = later ++ [oldest] :=
      ⟨_, _, (List.dropLast_append_getLast hne).symm⟩
    have hcalc : calcMaxDrawdownPerc (later ++ [oldest]) =
        ((later.reverse.map Day.balance).foldl drawdownStep (oldest.balance, 0)).2 * 100 := by
      have hfirst : drawdownStep (oldest.balance, 0) oldest.balance = (oldest.balance, 0) := by
        simp [drawdownStep_eq, drawdown]
      unfold calcMaxDrawdownPerc
      split
      · rename_i hnil
        exact absurd hnil hne
      · simp [hfirst]
    have hseries : (later ++ [oldest]).reverse.map Day.balance =
        oldest.balance :: later.reverse.map Day.balance := by simp
    have hbalances : ∀ b ∈ oldest.balance :: later.reverse.map Day.balance, 0 < b := by
      intro b hb
      rw [← hseries] at hb
      obtain ⟨day, hday, rfl⟩ := List.mem_map.mp hb
      exact hpos day (List.mem_reverse.mp hday)
    obtain ⟨-, hmem, hupper⟩ := foldl_drawdownStep_isGreatest hbalances
    rw [hcalc, hseries]
    constructor
    · exact ⟨_, hmem, rfl⟩
    · rintro x ⟨fall, hfall, rfl⟩
      exact mul_le_mul_of_nonneg_right (hupper hfall) (by norm_num)

namespace DrawdownWitness

def day (balance : ℚ) : Day := ⟨some ⟨balance, 0⟩, 0⟩

/-- From the newest on: the second peak falls by the half, the first one by a fifth. -/
def twoPeaks : List Day := [day 60, day 120, day 80, day 100]

theorem twoPeaks_isGreatest : (∀ day ∈ twoPeaks, 0 < day.balance) ∧
    calcMaxDrawdownPerc twoPeaks = 50 ∧
    IsGreatest {x | ∃ fall ∈ falls (twoPeaks.reverse.map Day.balance), x = fall * 100}
      (calcMaxDrawdownPerc twoPeaks) := by
  have hpos : ∀ day ∈ twoPeaks, 0 < day.balance := by decide +kernel
  exact ⟨hpos, by decide +kernel,
    (calcMaxDrawdownPerc_isGreatest twoPeaks hpos).2 (List.cons_ne_nil _ _)⟩

end DrawdownWitness

end SummaryByAsset

end ReportsFramework
