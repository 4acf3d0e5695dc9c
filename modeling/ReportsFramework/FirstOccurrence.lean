/-
The first element with each key of a list, collected one after the other.
-/
import Mathlib.Data.List.Nodup

namespace Occurrence

variable {α κ : Type*} [DecidableEq κ]

/-- The first element of the list with its key. -/
def IsFirst (key : α → κ) (data : List α) (c : α) : Prop :=
  data.find? (fun d => key d = key c) = some c

/-- `curr` is added if it is wanted and none with its key was added before. -/
def addFirst (key : α → κ) (wanted : α → Bool) (accum : List α) (curr : α) : List α :=
  if wanted curr && accum.all fun a => key a ≠ key curr then accum ++ [curr] else accum

variable {key : α → κ} {wanted : α → Bool} {data : List α}

theorem IsFirst.mem {c : α} (hfirst : IsFirst key data c) : c ∈ data :=
  List.mem_of_find?_eq_some hfirst

theorem IsFirst.eq {c c' : α} (hfirst : IsFirst key data c) (hfirst' : IsFirst key data c')
    (hkey : key c = key c') : c = c' := by
  unfold IsFirst at hfirst hfirst'
  rw [hkey, hfirst'] at hfirst
  exact (Option.some.inj hfirst).symm

theorem exists_isFirst (key : α → κ) {d : α} (hd : d ∈ data) :
    ∃ c, IsFirst key data c ∧ key c = key d := by
  have hsome : (data.find? fun c => key c = key d).isSome = true := by
    rw [List.find?_isSome]
    exact ⟨d, hd, by simp⟩
  obtain ⟨c, hc⟩ := Option.isSome_iff_exists.mp hsome
  have hkey : key c = key d := by simpa using List.find?_some hc
  refine ⟨c, ?_, hkey⟩
  rw [IsFirst, hkey]
  exact hc

theorem mem_addFirst {accum : List α} {curr c : α} :
    c ∈ addFirst key wanted accum curr ↔
      c ∈ accum ∨ wanted curr = true ∧ (∀ a ∈ accum, key a ≠ key curr) ∧ c = curr := by
  unfold addFirst
  by_cases hadd : wanted curr = true ∧ ∀ a ∈ accum, key a ≠ key curr
  · rw [if_pos (by simpa using hadd), List.mem_append, List.mem_singleton]
    simp only [hadd.1, true_and, iff_true_intro hadd.2]
  · rw [if_neg (by simpa using hadd)]
    simp only [← and_assoc, hadd, false_and, or_false]

/-- What is collected are the first ones of those that are wanted, which is decided by the key. -/
theorem mem_foldl_addFirst (key : α → κ) (wanted : α → Bool) (data : List α)
    (hwanted : ∀ a b, key a = key b → wanted a = wanted b)
    (accum : List α) (c : α) :
    c ∈ data.foldl (addFirst key wanted) accum ↔
      c ∈ accum ∨ wanted c = true ∧ (∀ a ∈ accum, key a ≠ key c) ∧ IsFirst key data c := by
  unfold IsFirst
  induction data generalizing accum with
  | nil => simp
  | cons d data ih =>
      rw [List.foldl_cons, ih, mem_addFirst]
      by_cases hkey : key d = key c
      · rw [List.find?_cons_of_pos (by simpa using hkey)]
        have hd := hwanted d c hkey
        constructor
        · rintro ((hc | ⟨hw, hfresh, rfl⟩) | ⟨hw, hfresh, hfind⟩)
          · exact .inl hc
          · exact .inr ⟨hw, hfresh, rfl⟩
          · refine absurd hkey (hfresh d ?_)
            rw [mem_addFirst]
            refine .inr ⟨hd.trans hw, ?_, rfl⟩
            intro a ha
            rw [hkey]
            exact hfresh a (mem_addFirst.mpr (.inl ha))
        · rintro (hc | ⟨hw, hfresh, hdc⟩)
          · exact .inl (.inl hc)
          · obtain rfl : d = c := Option.some.inj hdc
            exact .inl (.inr ⟨hw, hfresh, rfl⟩)
      · rw [List.find?_cons_of_neg (by simpa using hkey)]
        constructor
        · rintro ((hc | ⟨_, _, rfl⟩) | ⟨hw, hfresh, hfind⟩)
          · exact .inl hc
          · exact absurd rfl hkey
          · exact .inr ⟨hw, fun a ha => hfresh a (mem_addFirst.mpr (.inl ha)), hfind⟩
        · rintro (hc | ⟨hw, hfresh, hfind⟩)
          · exact .inl (.inl hc)
          · refine .inr ⟨hw, ?_, hfind⟩
            intro a ha
            rcases mem_addFirst.mp ha with ha | ⟨_, _, rfl⟩
            · exact hfresh a ha
            · exact hkey

theorem nodup_foldl_addFirst (key : α → κ) (wanted : α → Bool) (data : List α) {accum : List α}
    (hnodup : (accum.map key).Nodup) :
    ((data.foldl (addFirst key wanted) accum).map key).Nodup := by
  induction data generalizing accum with
  | nil => exact hnodup
  | cons d data ih =>
      rw [List.foldl_cons]
      apply ih
      unfold addFirst
      split_ifs with hadd
      · simp only [Bool.and_eq_true, List.all_eq_true, decide_eq_true_eq] at hadd
        rw [List.map_append, List.map_singleton]
        apply List.nodup_append.mpr
        refine ⟨hnodup, List.nodup_singleton _, ?_⟩
        intro x hx y hy
        obtain ⟨a, ha, rfl⟩ := List.mem_map.mp hx
        rw [List.mem_singleton.mp hy]
        exact hadd.2 a ha
      · exact hnodup

end Occurrence
