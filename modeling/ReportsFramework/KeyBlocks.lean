/-
A list that is sorted by a key, cut into the blocks of one key each.
-/
import Mathlib.Data.List.Basic
import Mathlib.Order.Lattice

variable {α κ : Type*}

namespace KeyBlocks

section Blocks

variable [DecidableEq κ] (key : α → κ)

/-- The blocks in the order of the list, the items of a block in reverse. -/
def blocks : List α → List (κ × List α)
  | [] => []
  | item :: rest =>
      match blocks rest with
      | [] => [(key item, [item])]
      | (k, data) :: others =>
          if k = key item then (k, data ++ [item]) :: others
          else (key item, [item]) :: (k, data) :: others

/-- Add items that come before all others to the first block. -/
def addItems (items : List α) : List (κ × List α) → List (κ × List α)
  | [] => []
  | (k, data) :: others => (k, data ++ items) :: others

omit [DecidableEq κ] in
@[simp] theorem addItems_nil (bs : List (κ × List α)) : addItems [] bs = bs := by
  cases bs <;> simp [addItems]

omit [DecidableEq κ] in
theorem addItems_addItems (items items' : List α) (bs : List (κ × List α)) :
    addItems items' (addItems items bs) = addItems (items ++ items') bs := by
  cases bs <;> simp [addItems]

variable {key} {item next : α} {rest : List α}

/-- The first block is the one of the first item. -/
theorem exists_blocks_cons (key : α → κ) (item : α) (rest : List α) : ∃ data others,
    blocks key (item :: rest) = (key item, data) :: others := by
  rw [blocks]
  split
  · exact ⟨_, _, rfl⟩
  · split_ifs with hkey
    · exact ⟨_, _, by rw [hkey]⟩
    · exact ⟨_, _, rfl⟩

theorem blocks_singleton (item : α) : blocks key [item] = [(key item, [item])] := rfl

theorem blocks_cons_of_eq (h : key next = key item) :
    blocks key (item :: next :: rest) = addItems [item] (blocks key (next :: rest)) := by
  obtain ⟨data, others, heq⟩ := exists_blocks_cons key next rest
  rw [blocks, heq]
  simp [h, addItems]

theorem blocks_cons_of_ne (h : key next ≠ key item) :
    blocks key (item :: next :: rest) = (key item, [item]) :: blocks key (next :: rest) := by
  obtain ⟨data, others, heq⟩ := exists_blocks_cons key next rest
  rw [blocks, heq]
  simp [h]

omit [DecidableEq κ] in
@[simp] theorem map_fst_addItems (items : List α) (bs : List (κ × List α)) :
    (addItems items bs).map Prod.fst = bs.map Prod.fst := by
  cases bs <;> rfl

theorem mem_keys {l : List α} {k : κ} :
    k ∈ (blocks key l).map Prod.fst ↔ ∃ item ∈ l, key item = k := by
  induction l with
  | nil => simp [blocks]
  | cons item rest ih =>
    cases rest with
    | nil => simp [blocks_singleton, eq_comm]
    | cons next rest =>
      by_cases hkey : key next = key item
      · rw [blocks_cons_of_eq hkey, map_fst_addItems, ih]
        simp [hkey]
      · rw [blocks_cons_of_ne hkey, List.map_cons, List.mem_cons, ih]
        simp [eq_comm]

theorem data_ne_nil {l : List α} {b : κ × List α} (hb : b ∈ blocks key l) : b.2 ≠ [] := by
  induction l with
  | nil => cases hb
  | cons item rest ih =>
    cases rest with
    | nil => simp [List.mem_singleton.mp hb]
    | cons next rest =>
      by_cases hkey : key next = key item
      · obtain ⟨data, others, heq⟩ := exists_blocks_cons key next rest
        rw [heq] at ih
        rw [blocks_cons_of_eq hkey, heq, addItems] at hb
        rcases List.mem_cons.mp hb with rfl | hb
        · simp
        · exact ih (List.mem_cons_of_mem _ hb)
      · rw [blocks_cons_of_ne hkey] at hb
        rcases List.mem_cons.mp hb with rfl | hb
        · simp
        · exact ih hb

/-- Some of the blocks, laid end to end, hold the items of their keys. -/
theorem flatMap_reverse_filter_blocks (key : α → κ) (l : List α) (p : κ → Bool) :
    ((blocks key l).filter fun b => p b.1).reverse.flatMap Prod.snd =
      (l.filter fun item => p (key item)).reverse := by
  induction l with
  | nil => rfl
  | cons item rest ih =>
    cases rest with
    | nil =>
      rw [blocks_singleton]
      cases hp : p (key item) <;> simp [hp]
    | cons next rest =>
      by_cases hkey : key next = key item
      · obtain ⟨data, others, heq⟩ := exists_blocks_cons key next rest
        rw [heq, hkey] at ih
        rw [blocks_cons_of_eq hkey, heq, addItems, hkey]
        by_cases hp : p (key item) = true
        · rw [List.filter_cons_of_pos (l := next :: rest) hp, List.reverse_cons, ← ih]
          simp [hp]
        · rw [List.filter_cons_of_neg (l := next :: rest) hp, ← ih]
          simp [hp]
      · rw [blocks_cons_of_ne hkey]
        by_cases hp : p (key item) = true
        · rw [List.filter_cons_of_pos (l := next :: rest) hp, List.reverse_cons, ← ih]
          simp [hp]
        · rw [List.filter_cons_of_neg (l := next :: rest) hp, ← ih]
          simp [hp]

end Blocks

section Sorted

variable [LinearOrder κ] {key : α → κ} {l : List α}

theorem pairwise_keys (h : l.Pairwise fun item item' => key item ≤ key item') :
    ((blocks key l).map Prod.fst).Pairwise (· < ·) := by
  induction l with
  | nil => exact .nil
  | cons item rest ih =>
    obtain ⟨hitem, hrest⟩ := List.pairwise_cons.mp h
    cases rest with
    | nil => exact List.pairwise_singleton _ _
    | cons next rest =>
      by_cases hkey : key next = key item
      · rw [blocks_cons_of_eq hkey, map_fst_addItems]
        exact ih hrest
      · rw [blocks_cons_of_ne hkey, List.map_cons]
        refine List.pairwise_cons.mpr ⟨?_, ih hrest⟩
        intro k hk
        obtain ⟨item', hitem', rfl⟩ := mem_keys.mp hk
        have hnext : key next ≤ key item' := by
          rcases List.mem_cons.mp hitem' with rfl | hitem'
          · exact le_refl _
          · exact (List.pairwise_cons.mp hrest).1 item' hitem'
        exact lt_of_lt_of_le (lt_of_le_of_ne (hitem next List.mem_cons_self) (Ne.symm hkey)) hnext

/-- A block holds everything that has its key. -/
theorem data_eq (h : l.Pairwise fun item item' => key item ≤ key item') {b : κ × List α}
    (hb : b ∈ blocks key l) : b.2 = (l.filter fun item => key item = b.1).reverse := by
  induction l generalizing b with
  | nil => simp [blocks] at hb
  | cons item rest ih =>
    obtain ⟨hitem, hrest⟩ := List.pairwise_cons.mp h
    cases rest with
    | nil =>
      rw [blocks_singleton, List.mem_singleton] at hb
      simp [hb]
    | cons next rest =>
      have hkeys := pairwise_keys h
      by_cases hkey : key next = key item
      · obtain ⟨data, others, heq⟩ := exists_blocks_cons key next rest
        rw [blocks_cons_of_eq hkey, heq, addItems] at hb hkeys
        rcases List.mem_cons.mp hb with rfl | hb
        · have hdata := ih hrest (b := (key next, data)) (by rw [heq]; exact List.mem_cons_self)
          dsimp only at hdata ⊢
          rw [hdata, List.filter_cons_of_pos (l := next :: rest) (by simp [hkey]),
            List.reverse_cons]
        · have hlt := (List.pairwise_cons.mp hkeys).1 b.1 (List.mem_map_of_mem hb)
          rw [List.filter_cons_of_neg (by simpa [← hkey] using hlt.ne)]
          exact ih hrest (by rw [heq]; exact List.mem_cons_of_mem _ hb)
      · rw [blocks_cons_of_ne hkey] at hb hkeys
        rcases List.mem_cons.mp hb with rfl | hb
        · have hnone : (next :: rest).filter (fun item' => key item' = key item) = [] := by
            apply List.filter_eq_nil_iff.mpr
            intro item' hitem'
            have hlt := (List.pairwise_cons.mp hkeys).1 (key item')
              (mem_keys.mpr ⟨item', hitem', rfl⟩)
            simpa using hlt.ne'
          rw [List.filter_cons_of_pos (by simp), hnone]
          rfl
        · have hlt := (List.pairwise_cons.mp hkeys).1 b.1 (List.mem_map_of_mem hb)
          rw [List.filter_cons_of_neg (by simpa using hlt.ne)]
          exact ih hrest hb

end Sorted

end KeyBlocks
