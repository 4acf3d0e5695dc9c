/-
Comparators that return a sign, the lexicographic one of two, and the stable sort by one that is
consistent on a list.
-/
import Mathlib.Data.Int.Order.Basic
import Mathlib.Data.List.Sort
import Mathlib.Tactic.SplitIfs

namespace Comparator

variable {α : Type*}

/-- A total preorder on the elements of a list. -/
structure IsConsistent (cmp : α → α → ℤ) (l : List α) : Prop where
  antisymm : ∀ a ∈ l, ∀ b ∈ l, cmp a b < 0 ↔ 0 < cmp b a
  trans : ∀ a ∈ l, ∀ b ∈ l, ∀ c ∈ l, cmp a b ≤ 0 → cmp b c ≤ 0 → cmp a c ≤ 0

/-- The first comparator, and the second one where it finds no difference. -/
def lex (cmp cmp' : α → α → ℤ) (a b : α) : ℤ :=
  if cmp a b ≠ 0 then cmp a b else cmp' a b

/-- The stable sort; an element moves before another one if it is less. -/
def sort (cmp : α → α → ℤ) (l : List α) : List α :=
  l.insertionSort fun a b => ¬ cmp b a < 0

variable {cmp cmp' : α → α → ℤ} {l : List α}

namespace IsConsistent

theorem congr (h : IsConsistent cmp l) (hcmp : ∀ a ∈ l, ∀ b ∈ l, cmp a b = cmp' a b) :
    IsConsistent cmp' l where
  antisymm a ha b hb := by
    rw [← hcmp a ha b hb, ← hcmp b hb a ha]
    exact h.antisymm a ha b hb
  trans a ha b hb c hc := by
    rw [← hcmp a ha b hb, ← hcmp b hb c hc, ← hcmp a ha c hc]
    exact h.trans a ha b hb c hc

theorem not_lt_iff (h : IsConsistent cmp l) {a b : α} (ha : a ∈ l) (hb : b ∈ l) :
    ¬ cmp b a < 0 ↔ cmp a b ≤ 0 := by
  rw [h.antisymm b hb a ha, not_lt]

theorem eq_zero_comm (h : IsConsistent cmp l) {a b : α} (ha : a ∈ l) (hb : b ∈ l) :
    cmp a b = 0 ↔ cmp b a = 0 := by
  have hab := h.antisymm a ha b hb
  have hba := h.antisymm b hb a ha
  omega

/-- The lexicographic comparator of consistent ones is consistent. -/
theorem lex (h : IsConsistent cmp l) (h' : IsConsistent cmp' l) :
    IsConsistent (lex cmp cmp') l where
  antisymm a ha b hb := by
    have hab := h.antisymm a ha b hb
    have hba := h.antisymm b hb a ha
    have hab' := h'.antisymm a ha b hb
    unfold Comparator.lex
    split_ifs <;> omega
  trans a ha b hb c hc := by
    have hab := h.antisymm a ha b hb
    have hbc := h.antisymm b hb c hc
    have hac := h.antisymm a ha c hc
    have htrans := h.trans a ha b hb c hc
    -- a tie of the outer two ties the one between them with both
    have htie := h.trans b hb c hc a ha
    have htie' := h.trans c hc a ha b hb
    have htrans' := h'.trans a ha b hb c hc
    unfold Comparator.lex
    split_ifs <;> omega

end IsConsistent

theorem sort_perm (cmp : α → α → ℤ) (l : List α) : (sort cmp l).Perm l :=
  List.perm_insertionSort _ l

/-- The sort compares the elements of the list only. -/
theorem sort_congr (hcmp : ∀ a ∈ l, ∀ b ∈ l, cmp a b = cmp' a b) : sort cmp l = sort cmp' l := by
  have hmap := List.map_insertionSort (fun a b => ¬ cmp b a < 0) (fun a b => ¬ cmp' b a < 0) id l
    (by
      intro a ha b hb
      rw [id, id, hcmp b hb a ha])
  rwa [List.map_id, List.map_id] at hmap

namespace IsConsistent

/-- The result is in the order of the comparator. -/
theorem pairwise_sort (h : IsConsistent cmp l) : (sort cmp l).Pairwise fun a b => cmp a b ≤ 0 := by
  let r : { a // a ∈ l } → { a // a ∈ l } → Prop := fun a b => ¬ cmp b.1 a.1 < 0
  have hrel : ∀ a b : { a // a ∈ l }, r a b ↔ cmp a.1 b.1 ≤ 0 := by
    intro a b
    exact h.not_lt_iff a.2 b.2
  have : Std.Total r := by
    constructor
    intro a b
    rw [hrel, hrel]
    have hab := h.antisymm a.1 a.2 b.1 b.2
    omega
  have : IsTrans { a // a ∈ l } r := by
    constructor
    intro a b c
    rw [hrel, hrel, hrel]
    exact h.trans a.1 a.2 b.1 b.2 c.1 c.2
  have hmap : (l.attach.insertionSort r).map Subtype.val = sort cmp l := by
    rw [sort]
    conv_rhs => rw [← List.attach_map_subtype_val l]
    apply List.map_insertionSort
    intro a _ b _
    rfl
  rw [← hmap, List.pairwise_map]
  apply (List.pairwise_insertionSort r l.attach).imp
  intro a b hab
  exact (hrel a b).mp hab

/-- Elements that are equal keep their order. -/
theorem filter_sort (h : IsConsistent cmp l) {a : α} (ha : a ∈ l) :
    (sort cmp l).filter (fun b => cmp a b = 0) = l.filter fun b => cmp a b = 0 := by
  have hequal : (l.filter fun b => cmp a b = 0).Pairwise fun b c => ¬ cmp c b < 0 := by
    rw [List.pairwise_iff_forall_sublist]
    intro b c hsub
    have hb := List.mem_filter.mp (hsub.subset (by simp : b ∈ [b, c]))
    have hc := List.mem_filter.mp (hsub.subset (by simp : c ∈ [b, c]))
    simp only [decide_eq_true_eq] at hb hc
    have hba := (h.eq_zero_comm ha hb.1).mp hb.2
    exact (h.not_lt_iff hb.1 hc.1).mpr
      (h.trans b hb.1 a ha c hc.1 (le_of_eq hba) (le_of_eq hc.2))
  have hsub : (l.filter fun b => cmp a b = 0).Sublist (sort cmp l) :=
    List.sublist_insertionSort hequal List.filter_sublist
  have hfilter := hsub.filter fun b => cmp a b = 0
  rw [List.filter_filter] at hfilter
  simp only [Bool.and_self] at hfilter
  exact (hfilter.eq_of_length ((sort_perm cmp l).filter _).length_eq.symm).symm

end IsConsistent

end Comparator
