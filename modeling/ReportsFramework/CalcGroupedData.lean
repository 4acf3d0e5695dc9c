/-
Report series merged by timestamp, and the fold of a report over the merged items,
from the oldest on.
-/
import Mathlib.Data.Int.Order.Basic
import Mathlib.Data.List.Induction
import Mathlib.Data.List.Nodup
import Mathlib.Logic.Function.Basic
import ReportsFramework.FrameGroups

namespace ReportsFramework

variable {κ : Type*} [DecidableEq κ] {V : κ → Type*}

/-- The vals of each series at a timestamp. -/
structure MergedItem (V : κ → Type*) where
  mts : ℤ
  vals : ∀ key, Option (V key)

/-- No series has vals. -/
def noVals : ∀ key, Option (V key) := fun _ => none

def MergedItem.assign (item : MergedItem V) (key : κ) (vals : V key) : MergedItem V :=
  { item with vals := Function.update item.vals key (some vals) }

/-- The scan from the last item back; `next` is the timestamp behind the item. -/
def placeBack (key : κ) (new : GroupItem (V key)) :
    Option ℤ → List (MergedItem V) → List (MergedItem V)
  | _, [] => []
  | next, item :: rest =>
      if item.mts = new.mts then item.assign key new.vals :: rest
      else if next.any (· < new.mts) && item.mts > new.mts then
        MergedItem.assign ⟨new.mts, noVals⟩ key new.vals :: item :: rest
      else item :: placeBack key new (some item.mts) rest

/-- One item of a series, put where its timestamp belongs. -/
def place (key : κ) (new : GroupItem (V key)) (res : List (MergedItem V)) :
    List (MergedItem V) :=
  if res.head?.any (·.mts < new.mts) then MergedItem.assign ⟨new.mts, noVals⟩ key new.vals :: res
  else if res = [] ∨ res.getLast?.any (·.mts > new.mts) then
    res ++ [MergedItem.assign ⟨new.mts, noVals⟩ key new.vals]
  else (placeBack key new none res.reverse).reverse

/-- `_mergeData`: the first items of all the series, then the second, and so on. -/
def mergeData (keys : List κ) (data : ∀ key, List (GroupItem (V key))) : List (MergedItem V) :=
  let maxLength := (keys.map fun key => (data key).length).max?.getD 0
  let items := (List.range maxLength).flatMap fun i =>
    keys.filterMap fun key => (data key)[i]?.map (Sigma.mk key)
  items.foldl (fun res item => place item.1 item.2 res) []

/-- `reduceRight` of a list that is given from the newest on, where every item has a
result; the results are in the order of the items. -/
def reduceRight {α β σ : Type*} (calcDataItem : σ → α → β × σ) (state : σ) (data : List α) :
    List β :=
  (data.foldr (fun item (res : List β × σ) =>
    let (vals, state) := calcDataItem res.2 item
    (vals :: res.1, state)) ([], state)).1

section Place

variable {key : κ} {new : GroupItem (V key)} {hi lo l res : List (MergedItem V)}
  {item : MergedItem V}

/-- Items before the timestamp are passed by. -/
theorem placeBack_append (new : GroupItem (V key)) (hlo : ∀ item ∈ lo, item.mts < new.mts)
    (hne : lo ≠ [])
    (next : Option ℤ) : ∃ next', next' < new.mts ∧
      placeBack key new next (lo ++ l) = lo ++ placeBack key new (some next') l := by
  induction lo generalizing next with
  | nil => exact absurd rfl hne
  | cons item lo ih =>
    obtain ⟨hitem, hlo⟩ := List.forall_mem_cons.mp hlo
    rw [List.cons_append, placeBack, if_neg hitem.ne, if_neg (by simp; omega)]
    cases lo with
    | nil => exact ⟨item.mts, hitem, rfl⟩
    | cons item' lo =>
      obtain ⟨next', hnext, heq⟩ := ih hlo (by simp) (some item.mts)
      exact ⟨next', hnext, by rw [heq]; rfl⟩

omit [DecidableEq κ] in
theorem not_getLast_gt {l : List (MergedItem V)} (m : ℤ) (h : ∀ item ∈ l, ¬ item.mts > m) :
    ¬ (l.getLast?.any (·.mts > m)) = true := by
  cases hlast : l.getLast? with
  | none => simp
  | some item => simpa using h item (List.mem_of_getLast? hlast)

/-- An item of the timestamp gets the vals. -/
theorem place_of_eq (hhi : ∀ item ∈ hi, new.mts < item.mts) (hitem : item.mts = new.mts)
    (hlo : ∀ item ∈ lo, item.mts < new.mts) :
    place key new (hi ++ item :: lo) = hi ++ item.assign key new.vals :: lo := by
  have hhead : ¬ ((hi ++ item :: lo).head?.any (·.mts < new.mts)) = true := by
    cases hi with
    | nil => simp [hitem]
    | cons first hi =>
      have := hhi first List.mem_cons_self
      simp only [List.cons_append, List.head?_cons, Option.any_some, decide_eq_true_eq]
      omega
  have hlast : ¬ ((hi ++ item :: lo).getLast?.any (·.mts > new.mts)) = true := by
    rw [List.getLast?_append_cons]
    apply not_getLast_gt
    intro item' hitem'
    rcases List.mem_cons.mp hitem' with rfl | hlo'
    · omega
    · have := hlo item' hlo'
      omega
  have hboth : ¬ (hi ++ item :: lo = [] ∨ (hi ++ item :: lo).getLast?.any (·.mts > new.mts)) := by
    rintro (hnil | hgt)
    · simp at hnil
    · exact hlast hgt
  rw [place, if_neg hhead, if_neg hboth]
  have hback : ∀ next, placeBack key new next (lo.reverse ++ item :: hi.reverse) =
      lo.reverse ++ item.assign key new.vals :: hi.reverse := by
    intro next
    by_cases hnil : lo = []
    · rw [hnil, List.reverse_nil, List.nil_append, placeBack, if_pos hitem, List.nil_append]
    · obtain ⟨next', _, heq⟩ := placeBack_append new (l := item :: hi.reverse)
        (fun item hitem => hlo item (List.mem_reverse.mp hitem))
        (by simpa using hnil) next
      rw [heq, placeBack, if_pos hitem]
  rw [List.reverse_append, List.reverse_cons, List.append_assoc, List.singleton_append, hback]
  simp

/-- A timestamp without an item gets one. -/
theorem place_of_between (hhi : ∀ item ∈ hi, new.mts < item.mts)
    (hlo : ∀ item ∈ lo, item.mts < new.mts) :
    place key new (hi ++ lo) =
      hi ++ MergedItem.assign ⟨new.mts, noVals⟩ key new.vals :: lo := by
  rcases List.eq_nil_or_concat' hi with rfl | ⟨init, last, rfl⟩
  · cases lo with
    | nil => simp [place]
    | cons first lo =>
      have := hlo first List.mem_cons_self
      rw [place, if_pos (by simpa using this)]
      rfl
  · have hhead : ¬ ((init ++ [last] ++ lo).head?.any (·.mts < new.mts)) = true := by
      cases init with
      | nil =>
        have := hhi last (by simp)
        simp only [List.nil_append, List.cons_append, List.head?_cons, Option.any_some,
          decide_eq_true_eq]
        omega
      | cons first init =>
        have := hhi first (by simp)
        simp only [List.cons_append, List.head?_cons, Option.any_some, decide_eq_true_eq]
        omega
    have hlast := hhi last (by simp)
    rw [place, if_neg hhead]
    by_cases hnil : lo = []
    · rw [hnil, if_pos]
      · simp
      · right
        simp [hlast]
    · rw [if_neg]
      · obtain ⟨next, hnext, heq⟩ := placeBack_append new
          (l := last :: init.reverse) (fun item hitem => hlo item (List.mem_reverse.mp hitem))
          (by simpa using hnil) none
        have hrev : (init ++ [last] ++ lo).reverse = lo.reverse ++ last :: init.reverse := by simp
        rw [hrev, heq, placeBack, if_neg hlast.ne', if_pos (by simp; omega)]
        simp
      · rintro (hnil' | hgt)
        · simp at hnil'
        · rw [List.getLast?_append_of_ne_nil _ hnil] at hgt
          refine not_getLast_gt new.mts ?_ hgt
          intro item hitem
          have := hlo item hitem
          omega

omit [DecidableEq κ] in
/-- A strictly decreasing list around a timestamp. -/
theorem exists_split (hres : res.Pairwise fun item item' => item.mts > item'.mts) (m : ℤ) :
    ∃ hi lo, (∀ item ∈ hi, m < item.mts) ∧ (∀ item ∈ lo, item.mts < m) ∧
      (res = hi ++ lo ∨ ∃ item, item.mts = m ∧ res = hi ++ item :: lo) := by
  induction res with
  | nil => exact ⟨[], [], by simp, by simp, .inl rfl⟩
  | cons first rest ih =>
    obtain ⟨hfirst, hrest⟩ := List.pairwise_cons.mp hres
    rcases lt_trichotomy first.mts m with hlt | heq | hgt
    · refine ⟨[], first :: rest, by simp, ?_, .inl rfl⟩
      intro item hitem
      rcases List.mem_cons.mp hitem with rfl | hitem
      · exact hlt
      · exact (hfirst item hitem).trans hlt
    · exact ⟨[], rest, by simp, fun item hitem => heq ▸ hfirst item hitem,
        .inr ⟨first, heq, rfl⟩⟩
    · obtain ⟨hi, lo, hhi, hlo, hcases⟩ := ih hrest
      refine ⟨first :: hi, lo, List.forall_mem_cons.mpr ⟨hgt, hhi⟩, hlo, ?_⟩
      rcases hcases with rfl | ⟨item, hitem, rfl⟩
      · exact .inl rfl
      · exact .inr ⟨item, hitem, rfl⟩

end Place

section Merge

variable {items : List (Σ key, GroupItem (V key))} {res : List (MergedItem V)}

/-- What a merged list holds of the items placed so far. -/
structure Merged (items : List (Σ key, GroupItem (V key))) (res : List (MergedItem V)) : Prop where
  pairwise : res.Pairwise fun item item' => item.mts > item'.mts
  mem_mts : ∀ m, m ∈ res.map MergedItem.mts ↔ ∃ item ∈ items, item.2.mts = m
  vals_eq : ∀ item ∈ res, ∀ key vals, item.vals key = some vals ↔ ⟨key, item.mts, vals⟩ ∈ items

/-- The item of the timestamp gets the vals, whether it was there or is new. -/
theorem merged_assign {new : Σ key, GroupItem (V key)} {hi lo : List (MergedItem V)}
    {base : MergedItem V} (hhi : ∀ item ∈ hi, new.2.mts < item.mts)
    (hlo : ∀ item ∈ lo, item.mts < new.2.mts) (hbase : base.mts = new.2.mts)
    (hpairwise : (hi ++ lo).Pairwise fun item item' => item.mts > item'.mts)
    (hmts : ∀ m, m ≠ new.2.mts →
      (m ∈ (hi ++ lo).map MergedItem.mts ↔ ∃ item ∈ items, item.2.mts = m))
    (hvals : ∀ item ∈ hi ++ base :: lo, ∀ key vals,
      item.vals key = some vals ↔ ⟨key, item.mts, vals⟩ ∈ items)
    (hunique : ∀ vals, ⟨new.1, new.2.mts, vals⟩ ∈ items → vals = new.2.vals) :
    Merged (items ++ [new]) (hi ++ base.assign new.1 new.2.vals :: lo) := by
  obtain ⟨hhiPairwise, hloPairwise, hboth⟩ := List.pairwise_append.mp hpairwise
  refine ⟨?_, ?_, ?_⟩
  · refine List.pairwise_append.mpr ⟨hhiPairwise, List.pairwise_cons.mpr ⟨?_, hloPairwise⟩, ?_⟩
    · intro item hitem
      exact hbase ▸ hlo item hitem
    · intro item hitem item' hitem'
      rcases List.mem_cons.mp hitem' with rfl | hitem'
      · exact hbase ▸ hhi item hitem
      · exact hboth item hitem item' hitem'
  · intro m
    by_cases hm : m = new.2.mts
    · refine iff_of_true ?_ ⟨new, by simp, hm.symm⟩
      simp [MergedItem.assign, hbase, hm]
    · have := hmts m hm
      simp only [List.map_append, List.mem_append, List.map_cons, List.mem_cons,
        MergedItem.assign, hbase, hm, false_or, List.not_mem_nil, or_false] at this ⊢
      rw [this]
      constructor
      · rintro ⟨item, hitem, rfl⟩
        exact ⟨item, .inl hitem, rfl⟩
      · rintro ⟨item, hitem | rfl, heq⟩
        · exact ⟨item, hitem, heq⟩
        · exact absurd heq.symm hm
  · have hother : ∀ item ∈ hi ++ base :: lo, item.mts ≠ new.2.mts → ∀ key vals,
        item.vals key = some vals ↔ ⟨key, item.mts, vals⟩ ∈ items ++ [new] := by
      intro item hitem hne key vals
      rw [hvals item hitem, List.mem_append, List.mem_singleton]
      refine ⟨.inl, ?_⟩
      rintro (hmem | heq)
      · exact hmem
      · exact absurd (congrArg (fun item => item.2.mts) heq) hne
    intro item hitem key vals
    simp only [List.mem_append, List.mem_cons] at hitem
    rcases hitem with hitem | rfl | hitem
    · exact hother item (by simp [hitem]) (hhi item hitem).ne' key vals
    · rw [List.mem_append, List.mem_singleton]
      have hold := hvals base (by simp) key vals
      obtain ⟨newKey, newMts, newVals⟩ := new
      dsimp only [MergedItem.assign] at hold hbase hunique ⊢
      by_cases hkey : key = newKey
      · subst hkey
        rw [Function.update_self, hbase]
        constructor
        · intro heq
          exact .inr (by rw [Option.some.inj heq])
        · rintro (hmem | heq)
          · rw [hunique vals hmem]
          · cases heq
            rfl
      · rw [Function.update_of_ne hkey, hold]
        refine ⟨.inl, ?_⟩
        rintro (hmem | heq)
        · exact hmem
        · cases heq
          exact absurd rfl hkey
    · exact hother item (by simp [hitem]) (hlo item hitem).ne key vals

/-- One more item. -/
theorem Merged.place (h : Merged items res) (new : Σ key, GroupItem (V key))
    (hunique : ∀ vals, ⟨new.1, new.2.mts, vals⟩ ∈ items → vals = new.2.vals) :
    Merged (items ++ [new]) (place new.1 new.2 res) := by
  obtain ⟨hi, lo, hhi, hlo, rfl | ⟨item, hitem, rfl⟩⟩ := exists_split h.pairwise new.2.mts
  · rw [place_of_between hhi hlo]
    refine merged_assign hhi hlo rfl h.pairwise (fun m _ => h.mem_mts m) ?_ hunique
    intro item hitem key vals
    simp only [List.mem_append, List.mem_cons] at hitem
    rcases hitem with hitem | rfl | hitem
    · exact h.vals_eq item (List.mem_append_left _ hitem) key vals
    · refine iff_of_false (by simp [noVals]) ?_
      intro hmem
      obtain ⟨item, hitem, heq⟩ := List.mem_map.mp ((h.mem_mts new.2.mts).mpr ⟨_, hmem, rfl⟩)
      rcases List.mem_append.mp hitem with hitem | hitem
      · exact (hhi item hitem).ne' heq
      · exact (hlo item hitem).ne heq
    · exact h.vals_eq item (List.mem_append_right _ hitem) key vals
  · rw [place_of_eq hhi hitem hlo]
    refine merged_assign hhi hlo hitem ?_ ?_ h.vals_eq hunique
    · exact h.pairwise.sublist ((List.sublist_cons_self item lo).append_left hi)
    · intro m hm
      rw [← h.mem_mts m]
      simp [hitem, hm]

omit [DecidableEq κ] in
theorem merged_nil : Merged ([] : List (Σ key, GroupItem (V key))) [] where
  pairwise := .nil
  mem_mts := by simp
  vals_eq := by simp

theorem merged_foldl (items : List (Σ key, GroupItem (V key))) (hunique : ∀ key mts vals vals',
    (⟨key, mts, vals⟩ : Σ key, GroupItem (V key)) ∈ items → ⟨key, mts, vals'⟩ ∈ items →
      vals = vals') :
    Merged items (items.foldl (fun res item => place item.1 item.2 res) []) := by
  induction items using List.reverseRecOn with
  | nil => exact merged_nil
  | append_singleton items new ih =>
    rw [List.foldl_append, List.foldl_cons, List.foldl_nil]
    apply Merged.place
    · apply ih
      intro key mts vals vals' hvals hvals'
      exact hunique key mts vals vals' (List.mem_append_left _ hvals)
        (List.mem_append_left _ hvals')
    · intro vals hvals
      exact hunique new.1 new.2.mts vals new.2.vals (List.mem_append_left _ hvals)
        (List.mem_append_right _ (List.mem_singleton_self new))

/-- The merged list of series without repeated timestamps. -/
theorem mergeData_spec (keys : List κ) (data : ∀ key, List (GroupItem (V key)))
    (hdata : ∀ key ∈ keys, (data key).Pairwise fun item item' => item.mts > item'.mts) :
    ((mergeData keys data).Pairwise fun item item' => item.mts > item'.mts) ∧
      (∀ m, m ∈ (mergeData keys data).map MergedItem.mts ↔
        ∃ key ∈ keys, m ∈ (data key).map GroupItem.mts) ∧
      ∀ item ∈ mergeData keys data, ∀ key vals,
        item.vals key = some vals ↔ key ∈ keys ∧ ⟨item.mts, vals⟩ ∈ data key := by
  have hitems : ∀ key item, (⟨key, item⟩ : Σ key, GroupItem (V key)) ∈
      (List.range ((keys.map fun key => (data key).length).max?.getD 0)).flatMap (fun i =>
        keys.filterMap fun key => (data key)[i]?.map (Sigma.mk key)) ↔
      key ∈ keys ∧ item ∈ data key := by
    intro key item
    simp only [List.mem_flatMap, List.mem_filterMap, List.mem_range, Option.map_eq_some_iff]
    constructor
    · rintro ⟨i, _, key', hkey, item', hget, heq⟩
      cases heq
      exact ⟨hkey, List.mem_of_getElem? hget⟩
    · rintro ⟨hkey, hitem⟩
      obtain ⟨i, hi, rfl⟩ := List.getElem_of_mem hitem
      refine ⟨i, ?_, key, hkey, _, List.getElem?_eq_getElem hi, rfl⟩
      exact Nat.lt_of_lt_of_le hi (List.le_max?_getD_of_mem (List.mem_map_of_mem hkey))
  have hmerged := merged_foldl ((List.range ((keys.map fun key =>
      (data key).length).max?.getD 0)).flatMap (fun i =>
        keys.filterMap fun key => (data key)[i]?.map (Sigma.mk key))) ?_
  · refine ⟨hmerged.pairwise, ?_, ?_⟩
    · intro m
      refine (hmerged.mem_mts m).trans ?_
      constructor
      · rintro ⟨⟨key, item⟩, hitem, rfl⟩
        obtain ⟨hkey, hitem⟩ := (hitems key item).mp hitem
        exact ⟨key, hkey, List.mem_map_of_mem hitem⟩
      · rintro ⟨key, hkey, hm⟩
        obtain ⟨item, hitem, rfl⟩ := List.mem_map.mp hm
        exact ⟨⟨key, item⟩, (hitems key item).mpr ⟨hkey, hitem⟩, rfl⟩
    · intro item hitem key vals
      exact (hmerged.vals_eq item hitem key vals).trans (hitems key _)
  · intro key mts vals vals' hvals hvals'
    obtain ⟨hkey, hvals⟩ := (hitems key _).mp hvals
    have hvals' := ((hitems key _).mp hvals').2
    have hnodup : ((data key).map GroupItem.mts).Nodup :=
      List.pairwise_map.mpr ((hdata key hkey).imp fun hgt => hgt.ne')
    have heq := List.inj_on_of_nodup_map hnodup hvals hvals' rfl
    exact congrArg GroupItem.vals heq

end Merge

end ReportsFramework
