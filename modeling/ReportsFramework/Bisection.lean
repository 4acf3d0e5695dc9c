/-
A bisection of a range of positions that ends at a hit, or else where it has looked last.
-/
import Mathlib.Data.List.Count
import Mathlib.Data.Nat.Basic
import Mathlib.Order.Compare
import Mathlib.Tactic.SplitIfs

namespace Bisection

/-- The positions from `start` up to `stop` are left.  The target is behind a position of
order `gt` and before one of order `lt`. -/
def bisect (order : ℕ → Ordering) : ℕ → ℕ → ℕ → Option ℕ → Option ℕ
  | 0, _, _, last => last
  | fuel + 1, start, stop, last =>
      if start < stop then
        let middle := (start + stop - 1) / 2
        match order middle with
        | .eq => some middle
        | .gt => bisect order fuel (middle + 1) stop (some middle)
        | .lt => bisect order fuel start middle (some middle)
      else last

/-- The bisection of `n` positions. -/
def search (order : ℕ → Ordering) (n : ℕ) : Option ℕ :=
  bisect order n 0 n none

/-- The order of positions of which the first `k` are before the target, and none hits. -/
def gap (k i : ℕ) : Ordering :=
  if i < k then .gt else .lt

/-- Where the search comes to rest among `n` positions if it hits none. -/
def rest (n k : ℕ) : Option ℕ :=
  search (gap k) n

variable {order order' : ℕ → Ordering}

theorem bisect_congr {stop : ℕ} (h : ∀ i, i < stop → order i = order' i) (fuel start : ℕ)
    (last : Option ℕ) : bisect order fuel start stop last = bisect order' fuel start stop last := by
  induction fuel generalizing start stop last with
  | zero => rfl
  | succ fuel ih =>
    simp only [bisect]
    split
    next hlt =>
      have hmiddle : (start + stop - 1) / 2 < stop := by omega
      rw [h _ hmiddle]
      cases order' ((start + stop - 1) / 2) with
      | eq => rfl
      | gt => exact ih h _ _
      | lt => exact ih (fun i hi => h i (hi.trans hmiddle)) _ _
    · rfl

theorem search_congr {n : ℕ} (h : ∀ i, i < n → order i = order' i) :
    search order n = search order' n :=
  bisect_congr h n 0 none

/-- A target that stands among the positions is hit. -/
theorem bisect_hit {first behind : ℕ} (hfirst : first < behind)
    (hgt : ∀ i, i < first → order i = .gt)
    (heq : ∀ i, first ≤ i → i < behind → order i = .eq) {fuel start stop : ℕ}
    (hlt : ∀ i, behind ≤ i → i < stop → order i = .lt) (hfuel : stop - start ≤ fuel)
    (hstart : start ≤ first) (hstop : behind ≤ stop) (last : Option ℕ) :
    ∃ i, bisect order fuel start stop last = some i ∧ first ≤ i ∧ i < behind := by
  induction fuel generalizing start stop last with
  | zero => omega
  | succ fuel ih =>
    have hleft : start < stop := by omega
    simp only [bisect, if_pos hleft]
    generalize hmiddle : (start + stop - 1) / 2 = middle
    rcases Nat.lt_or_ge middle first with hbefore | hge
    · rw [hgt middle hbefore]
      exact ih hlt (by omega) (by omega) hstop _
    · rcases Nat.lt_or_ge middle behind with hhit | hbehind
      · rw [heq middle hge hhit]
        exact ⟨middle, rfl, hge, hhit⟩
      · rw [hlt middle hbehind (by omega)]
        exact ih (fun i hi hi' => hlt i hi (by omega)) (by omega) hstart hbehind _

theorem search_hit {n first behind : ℕ} (hfirst : first < behind) (hbehind : behind ≤ n)
    (hgt : ∀ i, i < first → order i = .gt)
    (heq : ∀ i, first ≤ i → i < behind → order i = .eq)
    (hlt : ∀ i, behind ≤ i → i < n → order i = .lt) :
    ∃ i, search order n = some i ∧ first ≤ i ∧ i < behind :=
  bisect_hit hfirst hgt heq hlt (by omega) (Nat.zero_le _) hbehind none

theorem bisect_lt {n fuel start stop : ℕ} (hfuel : stop - start ≤ fuel) (hstop : stop ≤ n)
    {last : Option ℕ} (hlast : start < stop ∨ ∃ i, last = some i ∧ i < n) :
    ∃ i, bisect order fuel start stop last = some i ∧ i < n := by
  induction fuel generalizing start stop last with
  | zero =>
    rcases hlast with hleft | hlast
    · omega
    · exact hlast
  | succ fuel ih =>
    simp only [bisect]
    split
    next hleft =>
      generalize hmiddle : (start + stop - 1) / 2 = middle
      have hlt : middle < n := by omega
      cases order middle with
      | eq => exact ⟨middle, rfl, hlt⟩
      | gt => exact ih (by omega) hstop (.inr ⟨middle, rfl, hlt⟩)
      | lt => exact ih (by omega) (by omega) (.inr ⟨middle, rfl, hlt⟩)
    next hleft =>
      rcases hlast with hstart | hlast
      · exact absurd hstart hleft
      · exact hlast

/-- The search of some positions ends at one of them. -/
theorem search_lt (order : ℕ → Ordering) {n : ℕ} (hn : 0 < n) :
    ∃ i, search order n = some i ∧ i < n :=
  bisect_lt (by omega) le_rfl (.inl hn)

/-- Without a hit the bisection has looked last at one of the two sides of the gap. -/
theorem bisect_gap {k fuel start stop : ℕ} {last : Option ℕ} (hfuel : stop - start ≤ fuel)
    (hstart : start ≤ k) (hstop : k ≤ stop)
    (hlast : start = stop → last = some k ∨ 0 < k ∧ last = some (k - 1)) :
    bisect (gap k) fuel start stop last = some k ∨
      0 < k ∧ bisect (gap k) fuel start stop last = some (k - 1) := by
  induction fuel generalizing start stop last with
  | zero => exact hlast (by omega)
  | succ fuel ih =>
    simp only [bisect]
    split
    next hleft =>
      generalize hmiddle : (start + stop - 1) / 2 = middle
      rcases Nat.lt_or_ge middle k with hbefore | hge
      · have horder : gap k middle = .gt := if_pos hbefore
        rw [horder]
        apply ih (by omega) hbefore hstop
        intro hempty
        right
        constructor
        · omega
        · congr 1
          omega
      · have horder : gap k middle = .lt := if_neg (by omega)
        rw [horder]
        apply ih (by omega) hstart hge
        intro hempty
        left
        congr 1
        omega
    next hleft => exact hlast (by omega)

theorem rest_cases {n k : ℕ} (hn : 0 < n) (hk : k ≤ n) :
    rest n k = some k ∨ 0 < k ∧ rest n k = some (k - 1) :=
  bisect_gap (by omega) (Nat.zero_le _) hk (by omega)

/-- A target before all the positions. -/
theorem rest_zero {n : ℕ} (hn : 0 < n) : rest n 0 = some 0 := by
  rcases rest_cases hn (Nat.zero_le n) with h | ⟨hpos, -⟩
  · exact h
  · omega

/-- The elements of a list that come before a target are its first ones. -/
theorem lt_countP_iff {α : Type*} {before : α → Bool} {l : List α}
    (hsorted : l.Pairwise fun a b => before b = true → before a = true) {i : ℕ} {a : α}
    (hi : l[i]? = some a) : i < l.countP before ↔ before a = true := by
  induction l generalizing i with
  | nil => cases hi
  | cons head rest ih =>
    obtain ⟨hhead, hrest⟩ := List.pairwise_cons.mp hsorted
    rw [List.countP_cons]
    by_cases hbefore : before head = true
    · rw [if_pos hbefore]
      cases i with
      | zero =>
        obtain rfl : head = a := Option.some.inj hi
        simp [hbefore]
      | succ i =>
        rw [← ih hrest hi]
        omega
    · have hzero : rest.countP before = 0 :=
        List.countP_eq_zero.mpr fun b hb hb' => hbefore (hhead b hb hb')
      have ha : ¬before a = true := by
        rcases List.mem_cons.mp (List.mem_of_getElem? hi) with rfl | hmem
        · exact hbefore
        · exact fun ha => hbefore (hhead a hmem ha)
      simp [hbefore, hzero, ha]

end Bisection
