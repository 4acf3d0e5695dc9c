/-
`findPublicTrade`: the bisection of a page of public trades, newest first, for any kind of
timestamps.
-/
import Mathlib.Tactic.SplitIfs
import ReportsFramework.ConvertCurrencies

namespace ReportsFramework

namespace PublicTrades

variable {α τ : Type*} [LinearOrder τ] (mts : α → τ) (pubTrades : List α) (target : τ)

/-- The loop from `startIndex`, `endIndex` and `middleIndex` on; `none` is no result as long as the
fuel lasts. -/
def findLoop : ℕ → ℤ → ℤ → Option ℤ → Option (Option α)
  | 0, _, _, _ => none
  | fuel + 1, startIndex, endIndex, middleIndex =>
      if startIndex ≤ endIndex then
        let middleIndex := (startIndex + endIndex) / 2
        match pubTrades[middleIndex.toNat]? with
        | none => findLoop fuel startIndex endIndex (some middleIndex)
        | some pubTrade =>
            if mts pubTrade = target then some (some pubTrade)
            else
              findLoop fuel (if target < mts pubTrade then middleIndex + 1 else startIndex)
                (if mts pubTrade < target then middleIndex - 1 else endIndex) (some middleIndex)
      else some (middleIndex.bind fun middleIndex => pubTrades[middleIndex.toNat]?)

def findPublicTrade (fuel : ℕ) : Option (Option α) :=
  findLoop mts pubTrades target fuel 0 (pubTrades.length - 1) none

variable {mts pubTrades target}

/-- What the loop has found out: the trades before `startIndex` are later than the target, those
behind `endIndex` earlier, and where it has looked last is next to one of both. -/
structure Brackets (mts : α → τ) (pubTrades : List α) (target : τ) (startIndex endIndex : ℤ)
    (middleIndex : Option ℤ) : Prop where
  nonneg : 0 ≤ startIndex
  lt_length : endIndex < pubTrades.length
  meet : startIndex ≤ endIndex + 1
  later : ∀ (i : ℕ) pubTrade, pubTrades[i]? = some pubTrade → (i : ℤ) < startIndex →
    target < mts pubTrade
  earlier : ∀ (i : ℕ) pubTrade, pubTrades[i]? = some pubTrade → endIndex < i → mts pubTrade < target
  looked : ∀ middle, middleIndex = some middle →
    (middle = startIndex - 1 ∨ middle = endIndex + 1) ∧ 0 ≤ middle ∧ middle < pubTrades.length
  unlooked : middleIndex = none → startIndex ≤ endIndex

theorem mts_le_of_le
    (hsorted : pubTrades.Pairwise fun pubTrade pubTrade' => mts pubTrade' ≤ mts pubTrade)
    {i j : ℕ} (hij : i ≤ j) {pubTrade pubTrade' : α} (hi : pubTrades[i]? = some pubTrade)
    (hj : pubTrades[j]? = some pubTrade') : mts pubTrade' ≤ mts pubTrade := by
  rcases hij.eq_or_lt with rfl | hlt
  · rw [hi] at hj
    cases hj
    rfl
  · obtain ⟨hi', rfl⟩ := List.getElem?_eq_some_iff.mp hi
    obtain ⟨hj', rfl⟩ := List.getElem?_eq_some_iff.mp hj
    exact List.pairwise_iff_getElem.mp hsorted i j hi' hj' hlt

namespace Brackets

variable {startIndex endIndex : ℤ} {middleIndex : Option ℤ}

theorem initial (hne : pubTrades ≠ []) :
    Brackets mts pubTrades target 0 (pubTrades.length - 1) none := by
  have hpos := List.length_pos_iff.mpr hne
  constructor
  · rfl
  · omega
  · omega
  · intro i pubTrade _ hi
    omega
  · intro i pubTrade hget hi
    have hlt := (List.getElem?_eq_some_iff.mp hget).1
    omega
  · intro middle h
    cases h
  · intro _
    omega

/-- The half before the middle is left if the trade there is later. -/
theorem right (h : Brackets mts pubTrades target startIndex endIndex middleIndex)
    (hsorted : pubTrades.Pairwise fun pubTrade pubTrade' => mts pubTrade' ≤ mts pubTrade)
    (hle : startIndex ≤ endIndex) {pubTrade : α}
    (hget : pubTrades[((startIndex + endIndex) / 2).toNat]? = some pubTrade)
    (hlater : target < mts pubTrade) :
    Brackets mts pubTrades target ((startIndex + endIndex) / 2 + 1) endIndex
      (some ((startIndex + endIndex) / 2)) := by
  have hnonneg := h.nonneg
  have hlength := h.lt_length
  constructor
  · omega
  · exact hlength
  · omega
  · intro i pubTrade' hget' hi
    have hle' : i ≤ ((startIndex + endIndex) / 2).toNat := by omega
    exact hlater.trans_le (mts_le_of_le hsorted hle' hget' hget)
  · exact h.earlier
  · intro middle hmiddle
    cases hmiddle
    exact ⟨.inl (by omega), by omega, by omega⟩
  · intro hnone
    cases hnone

/-- The half behind the middle is left if the trade there is earlier. -/
theorem left (h : Brackets mts pubTrades target startIndex endIndex middleIndex)
    (hsorted : pubTrades.Pairwise fun pubTrade pubTrade' => mts pubTrade' ≤ mts pubTrade)
    (hle : startIndex ≤ endIndex) {pubTrade : α}
    (hget : pubTrades[((startIndex + endIndex) / 2).toNat]? = some pubTrade)
    (hearlier : mts pubTrade < target) :
    Brackets mts pubTrades target startIndex ((startIndex + endIndex) / 2 - 1)
      (some ((startIndex + endIndex) / 2)) := by
  have hnonneg := h.nonneg
  have hlength := h.lt_length
  constructor
  · exact hnonneg
  · omega
  · omega
  · exact h.later
  · intro i pubTrade' hget' hi
    have hle' : ((startIndex + endIndex) / 2).toNat ≤ i := by omega
    exact (mts_le_of_le hsorted hle' hget hget').trans_lt hearlier
  · intro middle hmiddle
    cases hmiddle
    exact ⟨.inr (by omega), by omega, by omega⟩
  · intro hnone
    cases hnone

/-- Where the loop ends without a hit it has looked next to the target. -/
theorem nearest (h : Brackets mts pubTrades target startIndex endIndex middleIndex)
    (hsorted : pubTrades.Pairwise fun pubTrade pubTrade' => mts pubTrade' ≤ mts pubTrade)
    (hlt : endIndex < startIndex) :
    ∃ pubTrade ∈ pubTrades,
      (middleIndex.bind fun middleIndex => pubTrades[middleIndex.toNat]?) = some pubTrade ∧
      (∀ pubTrade' ∈ pubTrades, mts pubTrade' ≠ target) ∧
      ∀ pubTrade' ∈ pubTrades, ¬ (mts pubTrade < mts pubTrade' ∧ mts pubTrade' < target) ∧
        ¬ (target < mts pubTrade' ∧ mts pubTrade' < mts pubTrade) := by
  have hmeet : startIndex = endIndex + 1 := by
    have hle := h.meet
    omega
  cases hmiddle : middleIndex with
  | none =>
    have hle := h.unlooked hmiddle
    omega
  | some middle =>
    obtain ⟨hnext, hnonneg, hlength⟩ := h.looked middle hmiddle
    have hget : pubTrades[middle.toNat]? = some pubTrades[middle.toNat] :=
      List.getElem?_eq_getElem (by omega)
    refine ⟨pubTrades[middle.toNat], List.getElem_mem _, by rw [Option.bind_some, hget], ?_, ?_⟩
    · intro pubTrade' hmem
      obtain ⟨i, hi⟩ := List.getElem?_of_mem hmem
      by_cases hbefore : (i : ℤ) < startIndex
      · exact (h.later i pubTrade' hi hbefore).ne'
      · exact (h.earlier i pubTrade' hi (by omega)).ne
    · intro pubTrade' hmem
      obtain ⟨i, hi⟩ := List.getElem?_of_mem hmem
      by_cases hbefore : (i : ℤ) < startIndex
      · have hlater := h.later i pubTrade' hi hbefore
        have hle := mts_le_of_le hsorted (by omega : i ≤ middle.toNat) hi hget
        exact ⟨fun hbetween => hbetween.2.not_gt hlater, fun hbetween => hbetween.2.not_ge hle⟩
      · have hearlier := h.earlier i pubTrade' hi (by omega)
        have hle := mts_le_of_le hsorted (by omega : middle.toNat ≤ i) hget hi
        exact ⟨fun hbetween => hbetween.1.not_ge hle, fun hbetween => hbetween.1.not_gt hearlier⟩

end Brackets

/-- What the loop returns within the fuel: the element of the target time, or a nearest one. -/
theorem Brackets.findLoop {startIndex endIndex : ℤ} {middleIndex : Option ℤ}
    (h : Brackets mts pubTrades target startIndex endIndex middleIndex)
    (hsorted : pubTrades.Pairwise fun pubTrade pubTrade' => mts pubTrade' ≤ mts pubTrade)
    {fuel : ℕ} (hfuel : endIndex + 1 - startIndex < fuel) :
    ∃ pubTrade ∈ pubTrades,
      findLoop mts pubTrades target fuel startIndex endIndex middleIndex =
        some (some pubTrade) ∧
      ((∃ pubTrade' ∈ pubTrades, mts pubTrade' = target) → mts pubTrade = target) ∧
      ∀ pubTrade' ∈ pubTrades, ¬ (mts pubTrade < mts pubTrade' ∧ mts pubTrade' < target) ∧
        ¬ (target < mts pubTrade' ∧ mts pubTrade' < mts pubTrade) := by
  induction fuel generalizing startIndex endIndex middleIndex with
  | zero =>
    have hmeet := h.meet
    omega
  | succ fuel ih =>
    by_cases hle : startIndex ≤ endIndex
    · have hnonneg := h.nonneg
      have hlength := h.lt_length
      obtain ⟨pubTrade, hget⟩ : ∃ pubTrade,
          pubTrades[((startIndex + endIndex) / 2).toNat]? = some pubTrade :=
        ⟨_, List.getElem?_eq_getElem (by omega)⟩
      simp only [PublicTrades.findLoop, if_pos hle, hget]
      rcases lt_trichotomy (mts pubTrade) target with hearlier | heq | hlater
      · rw [if_neg hearlier.ne, if_neg hearlier.not_gt, if_pos hearlier]
        exact ih (h.left hsorted hle hget hearlier) (by omega)
      · rw [if_pos heq]
        refine ⟨pubTrade, List.mem_of_getElem? hget, rfl, fun _ => heq, fun pubTrade' _ => ?_⟩
        rw [heq]
        exact ⟨fun hbetween => hbetween.1.not_gt hbetween.2,
          fun hbetween => hbetween.1.not_gt hbetween.2⟩
      · rw [if_neg hlater.ne', if_pos hlater, if_neg hlater.not_gt]
        exact ih (h.right hsorted hle hget hlater) (by omega)
    · obtain ⟨pubTrade, hmem, hlast, hmiss, hnearest⟩ := h.nearest hsorted (by omega)
      simp only [PublicTrades.findLoop, if_neg hle, hlast]
      refine ⟨pubTrade, hmem, rfl, ?_, hnearest⟩
      rintro ⟨pubTrade', hmem', heq⟩
      exact absurd heq (hmiss pubTrade' hmem')

/-- The loop looks at the positions that the bisection of the positions looks at. -/
theorem findLoop_eq_bisect {fuel fuel' start stop : ℕ} (hstop : stop ≤ pubTrades.length)
    (hfuel : stop - start < fuel) (hfuel' : stop - start ≤ fuel') (last : Option ℕ) :
    findLoop mts pubTrades target fuel start (stop - 1) (last.map Nat.cast) =
      some ((Bisection.bisect (fun middleIndex => (pubTrades[middleIndex]?.map fun pubTrade =>
        compare (mts pubTrade) target).getD .lt) fuel' start stop last).bind
          (pubTrades[·]?)) := by
  induction fuel' generalizing fuel start stop last with
  | zero =>
    obtain ⟨fuel, rfl⟩ := Nat.exists_eq_succ_of_ne_zero (Nat.ne_of_gt (Nat.zero_lt_of_lt hfuel))
    have hle : ¬ (start : ℤ) ≤ stop - 1 := by omega
    rw [findLoop, if_neg hle, Bisection.bisect]
    cases last <;> rfl
  | succ fuel' ih =>
    obtain ⟨fuel, rfl⟩ := Nat.exists_eq_succ_of_ne_zero (Nat.ne_of_gt (Nat.zero_lt_of_lt hfuel))
    by_cases hlt : start < stop
    · have hle : (start : ℤ) ≤ stop - 1 := by omega
      have hmiddle : ((start : ℤ) + (stop - 1)) / 2 = ((start + stop - 1) / 2 : ℕ) := by omega
      obtain ⟨pubTrade, hget⟩ : ∃ pubTrade, pubTrades[(start + stop - 1) / 2]? = some pubTrade :=
        ⟨_, List.getElem?_eq_getElem (by omega)⟩
      simp only [findLoop, if_pos hle, hmiddle, Int.toNat_natCast, hget, Bisection.bisect,
        if_pos hlt, Option.map_some, Option.getD_some]
      rcases lt_trichotomy (mts pubTrade) target with hearlier | heq | hlater
      · rw [if_neg hearlier.ne, if_neg hearlier.not_gt, if_pos hearlier,
          compare_lt_iff_lt.mpr hearlier]
        exact ih (by omega) (by omega) (by omega) (some ((start + stop - 1) / 2))
      · rw [if_pos heq, compare_eq_iff_eq.mpr heq]
        simp [hget]
      · rw [if_neg hlater.ne', if_pos hlater, if_neg hlater.not_gt,
          compare_gt_iff_gt.mpr hlater]
        have hstep := @ih fuel ((start + stop - 1) / 2 + 1) stop hstop (by omega) (by omega)
          (some ((start + stop - 1) / 2))
        rw [← hstep]
        rfl
    · have hle : ¬ (start : ℤ) ≤ stop - 1 := by omega
      rw [findLoop, if_neg hle, Bisection.bisect, if_neg hlt]
      cases last <;> rfl

/-- The bisection of a price window is this loop. -/
theorem findPublicTrade_eq_search (pubTrades : List PubTrade) (mts : ℕ) {fuel : ℕ}
    (hfuel : pubTrades.length < fuel) :
    findPublicTrade PubTrade.mts pubTrades mts fuel =
      some (ReportsFramework.findPublicTrade pubTrades mts) :=
  findLoop_eq_bisect le_rfl (by omega) (by omega) none

/-- The bisection ends after as many steps as there are trades at most.  It returns a trade of the
target time if there is one, and otherwise one with no other trade between it and the target. -/
theorem findPublicTrade_nearest (mts : α → τ) (pubTrades : List α) (target : τ)
    (hne : pubTrades ≠ [])
    (hsorted : pubTrades.Pairwise fun pubTrade pubTrade' => mts pubTrade' ≤ mts pubTrade)
    (fuel : ℕ) (hfuel : pubTrades.length < fuel) :
    ∃ pubTrade ∈ pubTrades,
      findPublicTrade mts pubTrades target fuel = some (some pubTrade) ∧
      ((∃ pubTrade' ∈ pubTrades, mts pubTrade' = target) → mts pubTrade = target) ∧
      ∀ pubTrade' ∈ pubTrades, ¬ (mts pubTrade < mts pubTrade' ∧ mts pubTrade' < target) ∧
        ¬ (target < mts pubTrade' ∧ mts pubTrade' < mts pubTrade) :=
  (Brackets.initial hne).findLoop hsorted (by omega)

/-- A target between two trades, with a repeated time. -/
theorem findPublicTrade_nearest_between :
    ∃ pubTrade ∈ [9, 7, 7, 2], findPublicTrade id [9, 7, 7, 2] 5 5 = some (some pubTrade) ∧
      ((∃ pubTrade' ∈ [9, 7, 7, 2], id pubTrade' = 5) → id pubTrade = 5) ∧
      ∀ pubTrade' ∈ [9, 7, 7, 2], ¬ (id pubTrade < id pubTrade' ∧ id pubTrade' < 5) ∧
        ¬ (5 < id pubTrade' ∧ id pubTrade' < id pubTrade) :=
  findPublicTrade_nearest id [9, 7, 7, 2] 5 (by decide) (by decide) 5 (by decide)

end PublicTrades

end ReportsFramework
