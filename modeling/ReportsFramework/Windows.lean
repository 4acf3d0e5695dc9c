/-
Lists of dated elements, newest first, and their windows: the elements dated after one
time and not after another.
-/
import Mathlib.Data.List.Basic
import Mathlib.Data.List.Nodup
import Mathlib.Order.Nat

namespace Windows

variable {ρ : Type*} {date : ρ → ℤ} {l : List ρ} {a b c : ℤ}

/-- The dates never go up. -/
def NewestFirst (date : ρ → ℤ) (l : List ρ) : Prop :=
  l.Pairwise fun r r' => date r' ≤ date r

/-- The elements dated in `(a, b]`. -/
def window (date : ρ → ℤ) (a b : ℤ) (l : List ρ) : List ρ :=
  l.filter fun r => a < date r ∧ date r ≤ b

theorem mem_window {r : ρ} : r ∈ window date a b l ↔ r ∈ l ∧ a < date r ∧ date r ≤ b := by
  simp [window]

theorem NewestFirst.filter (h : NewestFirst date l) (p : ρ → Bool) :
    NewestFirst date (l.filter p) :=
  List.Pairwise.filter p h

theorem window_eq_nil : window date a b l = [] ↔ ∀ r ∈ l, a < date r → ¬ date r ≤ b := by
  simp [window, List.filter_eq_nil_iff]

theorem length_filter_le {p q : ρ → Bool} (h : ∀ r ∈ l, p r = true → q r = true) :
    (l.filter p).length ≤ (l.filter q).length := by
  rw [← List.countP_eq_length_filter, ← List.countP_eq_length_filter]
  exact List.countP_mono_left h

/-- A window is two windows, one after the other. -/
theorem NewestFirst.window_append (h : NewestFirst date l) (hab : a ≤ b) (hbc : b ≤ c) :
    window date a c l = window date b c l ++ window date a b l := by
  induction l with
  | nil => rfl
  | cons r rest ih =>
      obtain ⟨hr, hrest⟩ := List.pairwise_cons.mp h
      have htail := ih hrest
      unfold window at htail ⊢
      by_cases hnew : b < date r
      · simp only [List.filter_cons, htail]
        by_cases hin : date r ≤ c <;> grind
      · -- the rest is no newer
        have hnone : rest.filter (fun r => b < date r ∧ date r ≤ c) = [] := by
          apply List.filter_eq_nil_iff.mpr
          intro r' hr'
          have hle := hr r' hr'
          grind
        simp only [List.filter_cons, htail, hnone]
        grind

/-- The last element is the oldest. -/
theorem NewestFirst.getLast_le (h : NewestFirst date l) {last : ρ} (hlast : l.getLast? = some last)
    {r : ρ} (hr : r ∈ l) : date last ≤ date r := by
  induction l with
  | nil => cases hr
  | cons head rest ih =>
      obtain ⟨hhead, hrest⟩ := List.pairwise_cons.mp h
      cases rest with
      | nil =>
          obtain rfl := Option.some.inj hlast
          obtain rfl := List.mem_singleton.mp hr
          exact Int.le_refl _
      | cons next rest =>
          rw [List.getLast?_cons_cons] at hlast
          have hmem : last ∈ next :: rest := List.mem_of_getLast? hlast
          rcases List.mem_cons.mp hr with rfl | hr
          · exact hhead last hmem
          · exact ih hrest hlast hr

/-- A longer front part has an element more. -/
theorem exists_mem_take (h : l.Nodup) {i j : ℕ} (hi : i < l.length) (hij : i < j) :
    ∃ r ∈ l.take j, r ∉ l.take i := by
  refine ⟨l[i], List.mem_take_iff_getElem.mpr ⟨i, by omega, rfl⟩, ?_⟩
  intro hmem
  obtain ⟨k, hk, heq⟩ := List.mem_take_iff_getElem.mp hmem
  have hki := h.getElem_inj_iff.mp heq
  omega

end Windows
