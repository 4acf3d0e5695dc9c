/-
Copying a temporary table into the main one.  `moveTempTableDataToMain` copies in
chunks that are delimited by bounds on `_id`: a chunk starts at the first id that is
left, and ends `chunkLength - 1` above it, whatever ids lie between.
-/
import Mathlib.Data.List.Sort
import Mathlib.Tactic.Linarith
import ReportsFramework.SqlTable

namespace ReportsFramework

open Sql

variable {ρ κ : Type*} {key : ρ → Option κ} [DecidableEq κ]

/-- The rows of a temporary table, as `ORDER BY _id ASC` lists them. -/
structure TempRows (ρ : Type*) where
  rows : List (ℤ × ρ)
  ascending : rows.Pairwise fun e e' => e.1 < e'.1

namespace TempRows

variable (temp : TempRows ρ)

/-- `SELECT _id FROM temp ORDER BY _id ASC`, of which one row is read. -/
def firstId : Option ℤ :=
  temp.rows.head?.map Prod.fst

/-- `SELECT _id FROM temp WHERE _id >= startId ORDER BY _id ASC`, of which one row
is read. -/
def firstIdFrom (startId : ℤ) : Option ℤ :=
  (temp.rows.find? fun e => startId ≤ e.1).map Prod.fst

/-- `SELECT … FROM temp WHERE _id >= startId AND _id <= endId ORDER BY _id ASC`. -/
def between (startId endId : ℤ) : List (ℤ × ρ) :=
  temp.rows.filter fun e => startId ≤ e.1 ∧ e.1 ≤ endId

/-- The rows in front of an id. -/
def below (id : ℤ) : List (ℤ × ρ) :=
  temp.rows.filter fun e => e.1 < id

/-- The rows from an id on. -/
def above (id : ℤ) : List (ℤ × ρ) :=
  temp.rows.filter fun e => id ≤ e.1

end TempRows

/-- The rows of a table that is only read. -/
def TempRows.ofTable (t : Table key) : TempRows ρ where
  rows := t.rows.map fun e => ((e.1 : ℤ), e.2)
  ascending := by
    apply List.pairwise_map.mpr
    exact t.ascending.imp Int.ofNat_lt.mpr

/-- The main table, and the rows that the statements so far have selected. -/
structure Copy (key : ρ → Option κ) where
  main : Table key
  copied : List (ℤ × ρ)

/-- One `INSERT OR REPLACE INTO main SELECT …`, for the rows it selects. -/
def Copy.insertSelected (copy : Copy key) (selected : List (ℤ × ρ)) : Copy key where
  main := copy.main.insertAll (selected.map Prod.snd)
  copied := copy.copied ++ selected

/-- The loop of the chunks.  Without a start id it ends. -/
def chunkLoop (temp : TempRows ρ) (chunkLength : ℕ) :
    ℕ → Option ℤ → Copy key → Option (Copy key)
  | 0, _, _ => none
  | _ + 1, none, copy => some copy
  | fuel + 1, some startId, copy =>
      let endId := startId + chunkLength - 1
      chunkLoop temp chunkLength fuel (temp.firstIdFrom (endId + 1))
        (copy.insertSelected (temp.between startId endId))

/-- The copy of one table: the main table is cleared first if it is to be equal. -/
def moveInChunks (isCleared : Bool) (chunkLength fuel : ℕ) (temp : TempRows ρ)
    (main : Table key) : Option (Copy key) :=
  chunkLoop temp chunkLength fuel temp.firstId
    ⟨if isCleared then main.deleteAll else main, []⟩

/-- One `INSERT OR REPLACE INTO main SELECT … FROM temp ORDER BY _id ASC`. -/
def copyWhole (isCleared : Bool) (temp : TempRows ρ) (main : Table key) : Table key :=
  (if isCleared then main.deleteAll else main).insertAll (temp.rows.map Prod.snd)

namespace TempRows

variable {temp : TempRows ρ}

theorem mem_of_firstIdFrom {startId id : ℤ} (h : temp.firstIdFrom startId = some id) :
    startId ≤ id ∧ ∃ r, (id, r) ∈ temp.rows := by
  obtain ⟨e, hfound, rfl⟩ := Option.map_eq_some_iff.mp h
  constructor
  · have hle := List.find?_some hfound
    exact of_decide_eq_true hle
  · exact ⟨e.2, List.mem_of_find?_eq_some hfound⟩

/-- Nothing lies between the bound and the first id from it on. -/
theorem below_firstIdFrom {startId id : ℤ} (h : temp.firstIdFrom startId = some id) :
    temp.below id = temp.below startId := by
  obtain ⟨e, hfound, rfl⟩ := Option.map_eq_some_iff.mp h
  obtain ⟨hle, front, back, hsplit, hfront⟩ := List.find?_eq_some_iff_append.mp hfound
  have hle : startId ≤ e.1 := of_decide_eq_true hle
  have hback : ∀ e' ∈ back, e.1 < e'.1 := by
    have hascending := hsplit ▸ temp.ascending
    exact (List.pairwise_cons.mp (List.pairwise_append.mp hascending).2.1).1
  unfold below
  apply List.filter_congr
  intro e' hmem
  rw [hsplit, List.mem_append, List.mem_cons] at hmem
  apply decide_eq_decide.mpr
  rcases hmem with hin | rfl | hin
  · have hlt : e'.1 < startId := by simpa using hfront e' hin
    omega
  · omega
  · have hlt := hback e' hin
    omega

theorem below_of_firstIdFrom_eq_none {startId : ℤ} (h : temp.firstIdFrom startId = none) :
    temp.below startId = temp.rows := by
  have hnone : ∀ e ∈ temp.rows, ¬ startId ≤ e.1 := by
    simpa [firstIdFrom] using h
  apply List.filter_eq_self.mpr
  intro e he
  exact decide_eq_true (not_le.mp (hnone e he))

theorem firstId_eq : temp.firstId = none ∧ temp.rows = [] ∨
    ∃ e rest, temp.rows = e :: rest ∧ temp.firstId = some e.1 := by
  unfold firstId
  cases hrows : temp.rows with
  | nil => exact .inl ⟨rfl, rfl⟩
  | cons e rest => exact .inr ⟨e, rest, rfl, rfl⟩

/-- Nothing lies in front of the first id. -/
theorem below_firstId {id : ℤ} (h : temp.firstId = some id) : temp.below id = [] := by
  rcases temp.firstId_eq with ⟨hnone, _⟩ | ⟨e, rest, hrows, hfirst⟩
  · rw [hnone] at h
    cases h
  · rw [hfirst] at h
    cases h
    have hrest := (List.pairwise_cons.mp (hrows ▸ temp.ascending)).1
    apply List.filter_eq_nil_iff.mpr
    intro e' hmem
    rw [hrows, List.mem_cons] at hmem
    simp only [decide_eq_true_eq, not_lt]
    rcases hmem with rfl | hin
    · exact le_rfl
    · exact (hrest e' hin).le

/-- A chunk continues the rows in front of it. -/
theorem below_append_between {startId endId : ℤ} (h : startId ≤ endId + 1) :
    temp.below startId ++ temp.between startId endId = temp.below (endId + 1) := by
  have hascending := temp.ascending
  unfold below between
  generalize temp.rows = rows at hascending
  induction rows with
  | nil => rfl
  | cons e rest ih =>
      obtain ⟨hfirst, hrest⟩ := List.pairwise_cons.mp hascending
      by_cases hbelow : e.1 < startId
      · rw [List.filter_cons_of_pos (by simpa using hbelow),
          List.filter_cons_of_neg (by simp; omega),
          List.filter_cons_of_pos (by simp; omega), List.cons_append, ih hrest]
      · -- from here on all ids are above, so the front is empty
        have hnil : (e :: rest).filter (fun e => decide (e.1 < startId)) = [] := by
          apply List.filter_eq_nil_iff.mpr
          intro e' hmem
          simp only [decide_eq_true_eq, not_lt]
          rcases List.mem_cons.mp hmem with rfl | hin
          · omega
          · have hlt := hfirst e' hin
            omega
        rw [hnil, List.nil_append]
        apply List.filter_congr
        intro e' hmem
        apply decide_eq_decide.mpr
        rcases List.mem_cons.mp hmem with rfl | hin
        · omega
        · have hlt := hfirst e' hin
          omega

/-- Behind a chunk fewer rows are left than before it. -/
theorem length_above_lt {startId id : ℤ} (hmem : ∃ r, (startId, r) ∈ temp.rows)
    (hlt : startId < id) : (temp.above id).length < (temp.above startId).length := by
  obtain ⟨r, hmem⟩ := hmem
  have hsub : (temp.above id).Sublist (temp.above startId) := by
    unfold above
    apply List.monotone_filter_right
    intro e he
    simp only [decide_eq_true_eq] at he ⊢
    omega
  rcases Nat.lt_or_ge (temp.above id).length (temp.above startId).length with hlen | hlen
  · exact hlen
  · have heq := hsub.eq_of_length_le hlen
    have hin : (startId, r) ∈ temp.above id := by
      rw [heq]
      exact List.mem_filter.mpr ⟨hmem, by simp⟩
    have hle : id ≤ startId := by simpa using (List.mem_filter.mp hin).2
    omega

end TempRows

/-- A chunk at the first id that is left leaves the rows in front of the next one
copied, in order. -/
theorem insertSelected_between (temp : TempRows ρ) (main : Table key) {startId endId : ℤ}
    (h : startId ≤ endId + 1) :
    (Copy.insertSelected ⟨main, []⟩ (temp.below startId)).insertSelected
        (temp.between startId endId) =
      Copy.insertSelected ⟨main, []⟩ (temp.below (endId + 1)) := by
  rw [← temp.below_append_between h]
  unfold Copy.insertSelected Table.insertAll
  simp [List.foldl_append]

/-- From a first id that is left, the loop copies the rest. -/
theorem chunkLoop_eq (temp : TempRows ρ) (main : Table key) {chunkLength : ℕ}
    (hlength : 0 < chunkLength) {fuel : ℕ} {startId : ℤ}
    (hmem : ∃ r, (startId, r) ∈ temp.rows) (hfuel : (temp.above startId).length < fuel) :
    chunkLoop temp chunkLength fuel (some startId)
        (Copy.insertSelected ⟨main, []⟩ (temp.below startId)) =
      some (Copy.insertSelected ⟨main, []⟩ temp.rows) := by
  induction fuel generalizing startId with
  | zero => omega
  | succ fuel ih =>
      rw [chunkLoop, insertSelected_between temp main (by omega)]
      cases hnext : temp.firstIdFrom (startId + chunkLength - 1 + 1) with
      | none =>
          -- the last chunk: what is left of the fuel is enough for the exit
          have hpos : 0 < (temp.above startId).length := by
            obtain ⟨r, hmem⟩ := hmem
            apply List.length_pos_of_mem (a := (startId, r))
            exact List.mem_filter.mpr ⟨hmem, by simp⟩
          obtain ⟨rest, rfl⟩ : ∃ rest, fuel = rest + 1 := ⟨fuel - 1, by omega⟩
          rw [chunkLoop, TempRows.below_of_firstIdFrom_eq_none hnext]
      | some next =>
          obtain ⟨hle, hin⟩ := TempRows.mem_of_firstIdFrom hnext
          rw [← TempRows.below_firstIdFrom hnext]
          apply ih hin
          have hlt := TempRows.length_above_lt hmem (show startId < next by omega)
          omega

/-- Copying in chunks is copying the whole table with one statement: the loop ends,
its statements select every row once and in the order of the ids, and the main table
is left as the one statement leaves it. -/
theorem moveInChunks_eq (temp : TempRows ρ) (main : Table key) (isCleared : Bool)
    {chunkLength : ℕ} (hlength : 0 < chunkLength) {fuel : ℕ}
    (hfuel : temp.rows.length < fuel) :
    ∃ copy, moveInChunks isCleared chunkLength fuel temp main = some copy ∧
      copy.copied = temp.rows ∧ copy.main = copyWhole isCleared temp main := by
  refine ⟨⟨copyWhole isCleared temp main, temp.rows⟩, ?_, rfl, rfl⟩
  unfold moveInChunks
  rcases temp.firstId_eq with ⟨hnone, hrows⟩ | ⟨e, rest, hrows, hfirst⟩
  · obtain ⟨fuel, rfl⟩ : ∃ n, fuel = n + 1 := ⟨fuel - 1, by omega⟩
    rw [hnone, chunkLoop, copyWhole, hrows]
    rfl
  · have hstart := TempRows.below_firstId hfirst
    have hmem : ∃ r, (e.1, r) ∈ temp.rows := ⟨e.2, by rw [hrows]; exact .head _⟩
    have hbound : (temp.above e.1).length < fuel :=
      (List.length_filter_le _ _).trans_lt hfuel
    have hloop := chunkLoop_eq temp (if isCleared then main.deleteAll else main)
      hlength hmem hbound
    rw [hstart] at hloop
    rw [hfirst]
    exact hloop

namespace ChunkedCopyWitness

/-- Ids with gaps; the rows are a key and a value. -/
def temp : TempRows (ℕ × ℕ) where
  rows := [(1, (7, 0)), (2, (8, 0)), (5, (7, 1)), (6, (9, 0))]
  ascending := by decide

def main : Table (fun r : ℕ × ℕ => some r.1) := Table.empty.insertOrReplace (8, 5)

theorem moveInChunks_eq_gaps :
    0 < 2 ∧ temp.rows.length < 5 ∧
      ∃ copy, moveInChunks false 2 5 temp main = some copy ∧
        copy.copied = temp.rows ∧ copy.main = copyWhole false temp main :=
  ⟨by decide, by decide, moveInChunks_eq temp main false (by decide) (by decide)⟩

end ChunkedCopyWitness

end ReportsFramework
