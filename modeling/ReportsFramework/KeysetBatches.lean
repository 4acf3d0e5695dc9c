/-
A table that is walked in batches behind a cursor.  A batch is the next rows behind the cursor
that are due, up to a limit; they are changed, and the cursor goes to the last of them, so that a
row is met once even if it remains due.
-/
import Mathlib.Data.List.Nodup
import Mathlib.Order.Nat

namespace KeysetBatches

variable {ρ : Type*} (isDue : ρ → Bool) (change : ρ → ρ) (limit : ℕ)

/-- The rows behind a cursor that are due. -/
def dueBehind (cursor : ℕ) (rows : List (ℕ × ρ)) : List (ℕ × ρ) :=
  rows.filter fun e => cursor < e.1 && isDue e.2

/-- The rows with the ids of a batch are changed. -/
def changeAt (ids : List ℕ) (rows : List (ℕ × ρ)) : List (ℕ × ρ) :=
  rows.map fun e => if e.1 ∈ ids then (e.1, change e.2) else e

/-- Elements are written into the rows with their ids, one after the other. -/
def updateEach (write : ρ → ρ → ρ) (rows elems : List (ℕ × ρ)) : List (ℕ × ρ) :=
  elems.foldl
    (fun rows elem => rows.map fun e => if e.1 = elem.1 then (e.1, write e.2 elem.2) else e)
    rows

/-- The walk, for at most `n` batches. -/
def walk : ℕ → ℕ → List (ℕ × ρ) → List (ℕ × ρ)
  | 0, _, rows => rows
  | n + 1, cursor, rows =>
      let batch := (dueBehind isDue cursor rows).take limit
      match batch.getLast? with
      | none => rows
      | some last => walk n last.1 (changeAt change (batch.map Prod.fst) rows)

/-- The rows that are met by a walk of `n` batches. -/
def met (n cursor : ℕ) (rows : List (ℕ × ρ)) : List (ℕ × ρ) :=
  (dueBehind isDue cursor rows).take (n * limit)

variable {isDue change limit} {rows : List (ℕ × ρ)}

theorem mem_dueBehind {cursor : ℕ} {e : ℕ × ρ} :
    e ∈ dueBehind isDue cursor rows ↔ e ∈ rows ∧ cursor < e.1 ∧ isDue e.2 = true := by
  simp [dueBehind]

/-- The rows are in the order of their ids. -/
def Ascending (rows : List (ℕ × ρ)) : Prop := rows.Pairwise fun e e' => e.1 < e'.1

theorem Ascending.dueBehind (h : Ascending rows) (cursor : ℕ) :
    Ascending (dueBehind isDue cursor rows) :=
  h.filter _

/-- A row is known by its id. -/
theorem Ascending.eq_of_id (h : Ascending rows) {e e' : ℕ × ρ} (he : e ∈ rows) (he' : e' ∈ rows)
    (hid : e.1 = e'.1) : e = e' := by
  have hnodup : (rows.map Prod.fst).Nodup :=
    List.pairwise_map.mpr (h.imp fun hlt => Nat.ne_of_lt hlt)
  exact List.inj_on_of_nodup_map hnodup he he' hid

theorem ascending_changeAt (h : Ascending rows) (ids : List ℕ) :
    Ascending (changeAt change ids rows) := by
  apply List.pairwise_map.mpr
  apply h.imp
  intro e e' hlt
  split_ifs <;> exact hlt

/-- Changes at different ids are one change. -/
theorem changeAt_changeAt {ids ids' : List ℕ} (h : ∀ id ∈ ids, id ∉ ids') :
    changeAt change ids' (changeAt change ids rows) = changeAt change (ids ++ ids') rows := by
  unfold changeAt
  rw [List.map_map]
  apply List.map_congr_left
  intro e _
  rw [Function.comp_apply]
  by_cases hid : e.1 ∈ ids
  · simp [hid, h e.1 hid]
  · simp [hid]

/-- Changed rows that are written back one after the other are all changed. -/
theorem updateEach_eq_changeAt {write : ρ → ρ → ρ} (hwrite : ∀ r, write r (change r) = change r)
    (h : Ascending rows) {batch : List (ℕ × ρ)} (hbatch : Ascending batch)
    (hrows : ∀ e ∈ batch, e ∈ rows) :
    updateEach write rows (batch.map fun e => (e.1, change e.2)) =
      changeAt change (batch.map Prod.fst) rows := by
  induction batch generalizing rows with
  | nil => simp [updateEach, changeAt]
  | cons first rest ih =>
      obtain ⟨hfirst, hrest⟩ := List.pairwise_cons.mp hbatch
      have hone : (rows.map fun e =>
          if e.1 = first.1 then (e.1, write e.2 (change first.2)) else e) =
          changeAt change [first.1] rows := by
        apply List.map_congr_left
        intro e he
        simp only [List.mem_singleton]
        split_ifs with hid
        · rw [h.eq_of_id he (hrows first List.mem_cons_self) hid, hwrite]
        · rfl
      have hleft : ∀ e ∈ rest, e ∈ changeAt change [first.1] rows := by
        intro e he
        refine List.mem_map.mpr ⟨e, hrows e (List.mem_cons_of_mem _ he), if_neg ?_⟩
        rw [List.mem_singleton]
        exact Nat.ne_of_gt (hfirst e he)
      calc updateEach write rows ((first :: rest).map fun e => (e.1, change e.2))
          = updateEach write (changeAt change [first.1] rows)
              (rest.map fun e => (e.1, change e.2)) := by
            rw [← hone]
            rfl
        _ = changeAt change (rest.map Prod.fst) (changeAt change [first.1] rows) :=
            ih (ascending_changeAt h _) hrest hleft
        _ = changeAt change ((first :: rest).map Prod.fst) rows := by
            apply changeAt_changeAt
            intro id hid hlater
            rw [List.mem_singleton] at hid
            obtain ⟨e, he, rfl⟩ := List.mem_map.mp hlater
            exact Nat.ne_of_gt (hfirst e he) hid

/-- Behind the ids that are changed the same rows are due. -/
theorem dueBehind_changeAt {ids : List ℕ} {cursor : ℕ} (h : ∀ id ∈ ids, id ≤ cursor) :
    dueBehind isDue cursor (changeAt change ids rows) = dueBehind isDue cursor rows := by
  have hsame {e : ℕ × ρ} (he : cursor < e.1) :
      (if e.1 ∈ ids then (e.1, change e.2) else e) = e := by
    rw [if_neg]
    intro hid
    exact Nat.not_lt.mpr (h e.1 hid) he
  unfold dueBehind changeAt
  rw [List.filter_map]
  have hfilter : rows.filter ((fun e : ℕ × ρ => cursor < e.1 && isDue e.2) ∘
      fun e => if e.1 ∈ ids then (e.1, change e.2) else e) =
      rows.filter fun e => cursor < e.1 && isDue e.2 := by
    apply List.filter_congr
    intro e _
    rw [Function.comp_apply]
    by_cases he : cursor < e.1
    · rw [hsame he]
    · split_ifs <;> simp [he]
  rw [hfilter]
  calc _ = (rows.filter fun e => cursor < e.1 && isDue e.2).map id := by
        apply List.map_congr_left
        intro e he
        have hcursor : cursor < e.1 := (mem_dueBehind.mp he).2.1
        exact hsame hcursor
    _ = _ := List.map_id _

/-- The last row has the greatest id. -/
theorem Ascending.le_getLast (h : Ascending rows) {last e : ℕ × ρ}
    (hlast : rows.getLast? = some last) (he : e ∈ rows) : e.1 ≤ last.1 := by
  obtain ⟨front, rfl⟩ := List.getLast?_eq_some_iff.mp hlast
  rcases List.mem_append.mp he with hfront | hsingle
  · exact Nat.le_of_lt
      ((List.pairwise_append.mp h).2.2 e hfront last (List.mem_singleton_self _))
  · rw [List.mem_singleton.mp hsingle]

/-- Behind the last row of a batch are the due rows that the batch leaves. -/
theorem dueBehind_last (h : Ascending rows) {cursor : ℕ} {last : ℕ × ρ}
    (hlast : ((dueBehind isDue cursor rows).take limit).getLast? = some last) :
    dueBehind isDue last.1 rows = (dueBehind isDue cursor rows).drop limit := by
  have hmem : last ∈ (dueBehind isDue cursor rows).take limit := List.mem_of_getLast? hlast
  have hcursor : cursor < last.1 := (mem_dueBehind.mp (List.mem_of_mem_take hmem)).2.1
  have hdue : Ascending (dueBehind isDue cursor rows) := h.dueBehind cursor
  have htake : Ascending ((dueBehind isDue cursor rows).take limit) :=
    hdue.sublist (List.take_sublist _ _)
  calc dueBehind isDue last.1 rows
      = (dueBehind isDue cursor rows).filter fun e => last.1 < e.1 := by
        unfold dueBehind
        rw [List.filter_filter]
        apply List.filter_congr
        intro e _
        by_cases he : last.1 < e.1
        · simp [he, hcursor.trans he]
        · simp [he]
    _ = ((dueBehind isDue cursor rows).take limit ++
          (dueBehind isDue cursor rows).drop limit).filter fun e => last.1 < e.1 := by
        rw [List.take_append_drop]
    _ = (dueBehind isDue cursor rows).drop limit := by
        rw [List.filter_append, List.filter_eq_nil_iff.mpr, List.nil_append,
          List.filter_eq_self.mpr]
        · intro e he
          exact decide_eq_true (hdue.rel_of_mem_take_of_mem_drop hmem he)
        · intro e he
          simp only [decide_eq_true_eq, Nat.not_lt]
          exact htake.le_getLast hlast he

/-- The batches are one change of all the rows that the walk meets. -/
theorem walk_eq_changeAt (hlimit : 0 < limit) (h : Ascending rows) (n cursor : ℕ) :
    walk isDue change limit n cursor rows =
      changeAt change ((met isDue limit n cursor rows).map Prod.fst) rows := by
  induction n generalizing cursor rows with
  | zero => simp [walk, met, changeAt]
  | succ n ih =>
      have hmet : met isDue limit (n + 1) cursor rows =
          (dueBehind isDue cursor rows).take limit ++
            ((dueBehind isDue cursor rows).drop limit).take (n * limit) := by
        rw [met, Nat.succ_mul, Nat.add_comm, List.take_add]
      rw [walk]
      cases hlast : ((dueBehind isDue cursor rows).take limit).getLast? with
      | none =>
          have hnone : dueBehind isDue cursor rows = [] := by
            rw [List.getLast?_eq_none_iff, List.take_eq_nil_iff] at hlast
            exact hlast.resolve_left hlimit.ne'
          simp [met, hnone, changeAt]
      | some last =>
          have htake : Ascending ((dueBehind isDue cursor rows).take limit) :=
            (h.dueBehind cursor).sublist (List.take_sublist _ _)
          have hids : ∀ id ∈ ((dueBehind isDue cursor rows).take limit).map Prod.fst,
              id ≤ last.1 := by
            intro id hid
            obtain ⟨e, he, rfl⟩ := List.mem_map.mp hid
            exact htake.le_getLast hlast he
          simp only
          rw [ih (ascending_changeAt h _), changeAt_changeAt, hmet, List.map_append]
          · congr 3
            rw [met, dueBehind_changeAt hids, dueBehind_last h hlast]
          · intro id hid hlater
            rw [met, dueBehind_changeAt hids] at hlater
            obtain ⟨e, he, rfl⟩ := List.mem_map.mp hlater
            have hlt : last.1 < e.1 := (mem_dueBehind.mp (List.mem_of_mem_take he)).2.1
            exact Nat.not_le.mpr hlt (hids _ hid)

/-- The first elements of an ascending list are those with few elements before them. -/
theorem Ascending.mem_take_iff (h : Ascending rows) {e : ℕ × ρ} (he : e ∈ rows) (n : ℕ) :
    e ∈ rows.take n ↔ (rows.filter fun e' => e'.1 < e.1).length < n := by
  induction rows generalizing n with
  | nil => cases he
  | cons first rest ih =>
      obtain ⟨hfirst, hrest⟩ := List.pairwise_cons.mp h
      cases n with
      | zero => simp
      | succ n =>
          rw [List.take_succ_cons, List.mem_cons]
          rcases List.mem_cons.mp he with rfl | hmem
          · have hnone : (rest.filter fun e' => decide (e'.1 < e.1)) = [] := by
              apply List.filter_eq_nil_iff.mpr
              intro e' he'
              simpa using Nat.le_of_lt (hfirst e' he')
            simp [hnone]
          · have hlt : first.1 < e.1 := hfirst e hmem
            have hne : e ≠ first := by
              rintro rfl
              exact Nat.lt_irrefl _ hlt
            rw [List.filter_cons_of_pos (by simpa using hlt), List.length_cons,
              Nat.succ_lt_succ_iff, ← ih hrest hmem n]
            simp [hne]

/-- The walk changes the rows that are due, each once, as far as its batches reach. -/
theorem walk_eq_map (hlimit : 0 < limit) (h : Ascending rows) (n cursor : ℕ) :
    walk isDue change limit n cursor rows = rows.map fun e =>
      if (cursor < e.1 ∧ isDue e.2 = true) ∧
        ((dueBehind isDue cursor rows).filter fun e' => e'.1 < e.1).length < n * limit
      then (e.1, change e.2) else e := by
  rw [walk_eq_changeAt hlimit h, changeAt]
  apply List.map_congr_left
  intro e he
  have hmet : e.1 ∈ (met isDue limit n cursor rows).map Prod.fst ↔
      (cursor < e.1 ∧ isDue e.2 = true) ∧
        ((dueBehind isDue cursor rows).filter fun e' => e'.1 < e.1).length < n * limit := by
    constructor
    · intro hid
      obtain ⟨e', he', hid'⟩ := List.mem_map.mp hid
      have hmem : e' ∈ dueBehind isDue cursor rows := List.mem_of_mem_take he'
      obtain rfl := h.eq_of_id (mem_dueBehind.mp hmem).1 he hid'
      exact ⟨(mem_dueBehind.mp hmem).2, ((h.dueBehind cursor).mem_take_iff hmem _).mp he'⟩
    · rintro ⟨hdue, hfew⟩
      have hmem : e ∈ dueBehind isDue cursor rows := mem_dueBehind.mpr ⟨he, hdue⟩
      exact List.mem_map_of_mem (((h.dueBehind cursor).mem_take_iff hmem _).mpr hfew)
  simp only [hmet]

end KeysetBatches
