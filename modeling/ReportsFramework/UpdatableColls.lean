/-
Public collections that are synchronised as a whole: what the API returns goes to
the temporary table of the sync job, and from there to the main table once the job
is through with all its collections.
-/
import ReportsFramework.ChunkedCopy

namespace ReportsFramework

open Sql

variable {Coll ρ κ : Type*}

/-- The collections of the sync schema: their unique index, and which of them are
of an updatable type. -/
structure CollSchema (Coll ρ κ : Type*) where
  key : Coll → ρ → Option κ
  isUpdatable : Coll → Bool

/-- The main tables, and the temporary tables of one sync queue id. -/
structure SyncTables (S : CollSchema Coll ρ κ) where
  main (coll : Coll) : Table (S.key coll)
  temp (coll : Coll) : Option (Table (S.key coll))

namespace SyncTables

variable {S : CollSchema Coll ρ κ} {key : ρ → Option κ}

/-- `SELECT _id FROM t WHERE _id >= id ORDER BY _id ASC`, the first row. -/
def firstIdFrom (t : Table key) (id : ℕ) : Option ℕ :=
  (t.rows.find? fun e => id ≤ e.1).map Prod.fst

/-- `SELECT … FROM t WHERE _id >= startId AND _id <= endId ORDER BY _id ASC`. -/
def rowsBetween (t : Table key) (startId endId : ℕ) : List ρ :=
  (t.rows.filter fun e => startId ≤ e.1 ∧ e.1 ≤ endId).map Prod.snd

theorem ofTable_firstIdFrom (t : Table key) (id : ℕ) :
    (TempRows.ofTable t).firstIdFrom id = (firstIdFrom t id).map Nat.cast := by
  unfold TempRows.firstIdFrom TempRows.ofTable firstIdFrom
  rw [List.find?_map, Option.map_map, Option.map_map]
  simp only [Function.comp_def, Nat.cast_le]

theorem ofTable_firstId (t : Table key) :
    (TempRows.ofTable t).firstId = (firstIdFrom t 0).map Nat.cast := by
  simp only [TempRows.firstId, TempRows.ofTable, firstIdFrom, List.head?_map]
  cases t.rows with
  | nil => rfl
  | cons e rest => simp

theorem ofTable_between (t : Table key) (startId endId : ℕ) :
    ((TempRows.ofTable t).between startId endId).map Prod.snd = rowsBetween t startId endId := by
  unfold TempRows.between TempRows.ofTable rowsBetween
  rw [List.filter_map, List.map_map]
  simp only [Function.comp_def, Nat.cast_le]

variable [DecidableEq Coll] [DecidableEq κ]

def setTemp (db : SyncTables S) (coll : Coll) (t : Table (S.key coll)) : SyncTables S :=
  { db with temp := Function.update db.temp coll (some t) }

/-- A temporary table that is there already stays as it is. -/
def createTempDBStructureForCurrSync (db : SyncTables S) (colls : List Coll) : SyncTables S :=
  { db with temp := fun coll =>
      if coll ∈ colls then some ((db.temp coll).getD .empty) else db.temp coll }

/-- Insert or replace into a temporary table, emptied before if `isStrictEqual`. -/
def insertElemsToDb (t : Table (S.key coll)) (rows : List ρ) (isStrictEqual : Bool) :
    Table (S.key coll) :=
  (if isStrictEqual then t.deleteAll else t).insertAll rows

/-- The chunks from `startId` on, at most `n` of them. -/
def copyChunks (chunkLength : ℕ) (temp : Table key) :
    ℕ → Option ℕ → Table key → Table key
  | n + 1, some startId, main =>
      let endId := startId + chunkLength - 1
      copyChunks chunkLength temp n (firstIdFrom temp (endId + 1))
        (main.insertAll (rowsBetween temp startId endId))
  | _, _, main => main

def chunkLength : ℕ := 10000

/-- What the move does to one main table: an updatable collection is emptied, whatever
its temporary table holds. -/
def moveTable (isUpdatable : Bool) (main temp : Table key) : Table key :=
  copyChunks chunkLength temp temp.rows.length (firstIdFrom temp 0)
    (if isUpdatable then main.deleteAll else main)

def moveTempTableDataToMain (db : SyncTables S) : SyncTables S :=
  { db with main := fun coll =>
      match db.temp coll with
      | none => db.main coll
      | some temp => moveTable (S.isUpdatable coll) (db.main coll) temp }

def removeTempDBStructureForCurrSync (db : SyncTables S) : SyncTables S :=
  { db with temp := fun _ => none }

/-- What comes of a request to the API. -/
inductive ApiRes (ρ : Type*)
  | elems (rows : List ρ)
  | isInterrupted
  | error

/-- One request after the other; `false` if one of them ends the run. -/
def requestAll (db : SyncTables S) : List (Coll × ApiRes ρ) → SyncTables S × Bool
  | [] => (db, true)
  | (coll, .elems rows) :: rest =>
      if rows = [] then db.requestAll rest
      else match db.temp coll with
        | some temp =>
            (db.setTemp coll (insertElemsToDb temp rows (S.isUpdatable coll))).requestAll rest
        -- there is no such table
        | none => (db, false)
  | (_, .isInterrupted) :: _ | (_, .error) :: _ => (db, false)

/-- A run over the public collections: those to update get a temporary table, the
requests are made, and the data is moved if none of them fails, the run is not
interrupted and its last transaction goes through. -/
def insertNewPublicDataToDb (db : SyncTables S) (methodCollMap : List Coll)
    (requests : List (Coll × ApiRes ρ)) (isMoved : Bool) : SyncTables S × Bool :=
  let filled := (db.createTempDBStructureForCurrSync methodCollMap).requestAll requests
  if filled.2 && isMoved then
    (filled.1.moveTempTableDataToMain.removeTempDBStructureForCurrSync, true)
  else (filled.1, false)

/-- The answers of the API for one collection, but for the empty ones. -/
def answers (coll : Coll) : List (Coll × ApiRes ρ) → List (List ρ)
  | [] => []
  | (coll', .elems (r :: rows)) :: rest =>
      if coll' = coll then (r :: rows) :: answers coll rest else answers coll rest
  | _ :: rest => answers coll rest

/-- The main table of the collection holds what the API returned in a run that moved
the data, if it returned anything, and is unchanged in every other run. -/
def ReplacesSafely (db : SyncTables S) (methodCollMap : List Coll)
    (requests : List (Coll × ApiRes ρ)) (isMoved : Bool) (coll : Coll) : Prop :=
  let after := db.insertNewPublicDataToDb methodCollMap requests isMoved
  (after.2 = true → answers coll requests ≠ [] → (after.1.main coll).contents.Perm
      (Table.latest (S.key coll) (answers coll requests).flatten)) ∧
    (after.2 = true → answers coll requests = [] →
      (after.1.main coll).contents.Perm (db.main coll).contents) ∧
    (after.2 = false → after.1.main coll = db.main coll)

/-- The requests are all answered, and none brings rows for a collection without a
temporary table. -/
def AllAnswered (db : SyncTables S) (methodCollMap : List Coll)
    (requests : List (Coll × ApiRes ρ)) : Prop :=
  ∀ request ∈ requests, ∃ rows, request.2 = .elems rows ∧
    (rows = [] ∨ request.1 ∈ methodCollMap ∨ (db.temp request.1).isSome)

/-- The last answer for the collection has a row for every key answered before it.
Without any answer no temporary table exists, or the one left by an earlier attempt
of the job holds the rows of the main table; a new one is empty. -/
def CoversMain (db : SyncTables S) (methodCollMap : List Coll)
    (requests : List (Coll × ApiRes ρ)) (coll : Coll) : Prop :=
  match (answers coll requests).getLast? with
  | some last => ∀ r ∈ (answers coll requests).dropLast.flatten,
      ∃ r' ∈ last, Conflicts (S.key coll) r r'
  | none => (coll ∉ methodCollMap ∧ db.temp coll = none) ∨
      ((db.temp coll).getD .empty).contents.Perm (db.main coll).contents

/-- What the loop over the chunks leaves once it ends. -/
theorem copyChunks_of_chunkLoop {len n : ℕ} {temp : Table key} (hlen : 0 < len)
    {start : Option ℕ} {copy copy' : Copy key}
    (h : chunkLoop (TempRows.ofTable temp) len (n + 1) (start.map Nat.cast) copy = some copy') :
    copyChunks len temp n start copy.main = copy'.main := by
  induction n generalizing start copy with
  | zero =>
      cases start with
      | none =>
          cases h
          rfl
      | some startId => cases h
  | succ n ih =>
      cases start with
      | none =>
          cases h
          rfl
      | some startId =>
          have hend : (startId : ℤ) + len - 1 = ((startId + len - 1 : ℕ) : ℤ) := by omega
          rw [Option.map_some, chunkLoop, hend] at h
          rw [copyChunks, ← ofTable_between]
          rw [show ((startId + len - 1 : ℕ) : ℤ) + 1 = ((startId + len - 1 + 1 : ℕ) : ℤ) by omega,
            ofTable_firstIdFrom] at h
          exact ih h

theorem moveTable_eq_copyWhole (isUpdatable : Bool) (main temp : Table key) :
    moveTable isUpdatable main temp = copyWhole isUpdatable (TempRows.ofTable temp) main := by
  have hloop : chunkLoop (TempRows.ofTable temp) chunkLength (temp.rows.length + 1)
      (TempRows.ofTable temp).firstId ⟨if isUpdatable then main.deleteAll else main, []⟩ =
        some ⟨copyWhole isUpdatable (TempRows.ofTable temp) main,
          (TempRows.ofTable temp).rows⟩ := by
    rcases (TempRows.ofTable temp).firstId_eq with ⟨hnone, hrows⟩ | ⟨e, rest, hrows, hfirst⟩
    · rw [hnone, chunkLoop, copyWhole, hrows]
      rfl
    · have hmem : ∃ r, (e.1, r) ∈ (TempRows.ofTable temp).rows :=
        ⟨e.2, by rw [hrows]; exact .head _⟩
      have hle : ((TempRows.ofTable temp).above e.1).length ≤ temp.rows.length := by
        apply (List.length_filter_le _ _).trans
        simp [TempRows.ofTable]
      have hloop := chunkLoop_eq (TempRows.ofTable temp)
        (if isUpdatable then main.deleteAll else main) (show 0 < chunkLength by decide) hmem
        (Nat.lt_succ_of_le hle)
      rw [TempRows.below_firstId hfirst] at hloop
      rw [hfirst]
      exact hloop
  rw [ofTable_firstId] at hloop
  exact copyChunks_of_chunkLoop (by decide) hloop

theorem contents_moveTable (main temp : Table key) :
    (moveTable true main temp).contents = temp.contents := by
  have hrows : (TempRows.ofTable temp).rows.map Prod.snd = temp.contents := by
    simp [TempRows.ofTable, Table.contents]
  rw [moveTable_eq_copyWhole, copyWhole, if_pos rfl, hrows]
  exact Table.contents_insertAll_contents rfl

omit [DecidableEq Coll] in
/-- What the moved main table of an updatable collection holds. -/
theorem contents_moveTempTableDataToMain (db : SyncTables S) {coll : Coll}
    (hcoll : S.isUpdatable coll = true) :
    (db.moveTempTableDataToMain.main coll).contents =
      ((db.temp coll).map Table.contents).getD (db.main coll).contents := by
  unfold moveTempTableDataToMain
  rcases htemp : db.temp coll with _ | temp
  · simp [htemp]
  · simp [htemp, hcoll, contents_moveTable]

theorem main_requestAll (db : SyncTables S) (requests : List (Coll × ApiRes ρ)) :
    (db.requestAll requests).1.main = db.main := by
  induction requests generalizing db with
  | nil => rfl
  | cons request rest ih =>
      obtain ⟨coll, rows | _ | _⟩ := request
      · rw [requestAll]
        split_ifs with hrows
        · exact ih db
        · rcases db.temp coll with _ | temp
          · rfl
          · exact ih _
      · rfl
      · rfl

theorem requestAll_done (db : SyncTables S) (requests : List (Coll × ApiRes ρ)) :
    (db.requestAll requests).2 = true ↔ ∀ request ∈ requests, ∃ rows,
      request.2 = .elems rows ∧ (rows = [] ∨ (db.temp request.1).isSome) := by
  induction requests generalizing db with
  | nil => simp [requestAll]
  | cons request rest ih =>
      obtain ⟨coll, rows | _ | _⟩ := request
      · rw [requestAll, List.forall_mem_cons]
        split_ifs with hrows
        · simp [ih, hrows]
        · rcases htemp : db.temp coll with _ | temp
          · simp [hrows]
          · simp only [ih, Option.isSome_some, or_true, and_true]
            have hsome : ∀ coll', ((db.setTemp coll (insertElemsToDb temp rows
                (S.isUpdatable coll))).temp coll').isSome = (db.temp coll').isSome := by
              intro coll'
              by_cases hcoll : coll' = coll
              · subst hcoll
                simp [setTemp, htemp]
              · simp [setTemp, hcoll]
            simp [hsome]
      · simp [requestAll]
      · simp [requestAll]

theorem answers_elems (coll coll' : Coll) {rows : List ρ} (h : rows ≠ [])
    (rest : List (Coll × ApiRes ρ)) :
    answers coll ((coll', .elems rows) :: rest) =
      if coll' = coll then rows :: answers coll rest else answers coll rest := by
  obtain ⟨r, rows, rfl⟩ := List.exists_cons_of_ne_nil h
  rfl

/-- The temporary table of an updatable collection holds its last answer, or what it
held before. -/
theorem temp_requestAll (db : SyncTables S) (requests : List (Coll × ApiRes ρ)) {coll : Coll}
    (hcoll : S.isUpdatable coll = true) (h : (db.requestAll requests).2 = true) :
    ((db.requestAll requests).1.temp coll).map Table.contents =
      match (answers coll requests).getLast? with
      | some last => some (Table.latest (S.key coll) last)
      | none => (db.temp coll).map Table.contents := by
  induction requests generalizing db with
  | nil => rfl
  | cons request rest ih =>
      obtain ⟨coll', rows | _ | _⟩ := request
      · rw [requestAll] at h ⊢
        by_cases hrows : rows = []
        · subst hrows
          rw [if_pos rfl] at h ⊢
          exact ih db h
        · rw [if_neg hrows] at h ⊢
          rw [answers_elems coll coll' hrows]
          rcases htemp : db.temp coll' with _ | temp
          · simp [htemp] at h
          · simp only [htemp] at h ⊢
            rw [ih _ h]
            by_cases hsame : coll' = coll
            · subst hsame
              rw [if_pos rfl, List.getLast?_cons]
              rcases (answers coll' rest).getLast? with _ | last
              · simp [setTemp, insertElemsToDb, hcoll, Table.contents_insertAll]
              · rfl
            · rw [if_neg hsame]
              simp [setTemp, Ne.symm hsame]
      · simp [requestAll] at h
      · simp [requestAll] at h

theorem allAnswered_iff (db : SyncTables S) (methodCollMap : List Coll)
    (requests : List (Coll × ApiRes ρ)) :
    ((db.createTempDBStructureForCurrSync methodCollMap).requestAll requests).2 = true ↔
      AllAnswered db methodCollMap requests := by
  rw [requestAll_done]
  have hsome : ∀ coll, ((db.createTempDBStructureForCurrSync methodCollMap).temp coll).isSome ↔
      coll ∈ methodCollMap ∨ (db.temp coll).isSome := by
    intro coll
    by_cases hcoll : coll ∈ methodCollMap <;> simp [createTempDBStructureForCurrSync, hcoll]
  simp only [hsome, AllAnswered]

/-- A run that does not get to the move leaves every main table alone. -/
theorem insertNewPublicDataToDb_of_not {db : SyncTables S} {methodCollMap : List Coll}
    {requests : List (Coll × ApiRes ρ)} {isMoved : Bool}
    (h : ¬ (AllAnswered db methodCollMap requests ∧ isMoved = true)) :
    (db.insertNewPublicDataToDb methodCollMap requests isMoved).2 = false ∧
      (db.insertNewPublicDataToDb methodCollMap requests isMoved).1.main = db.main := by
  rw [← allAnswered_iff, ← Bool.and_eq_true] at h
  simp only [insertNewPublicDataToDb, if_neg h]
  exact ⟨trivial, main_requestAll _ _⟩

theorem insertNewPublicDataToDb_of_moved {db : SyncTables S} {methodCollMap : List Coll}
    {requests : List (Coll × ApiRes ρ)} {isMoved : Bool}
    (hdone : AllAnswered db methodCollMap requests) (hmoved : isMoved = true) :
    db.insertNewPublicDataToDb methodCollMap requests isMoved =
      ((((db.createTempDBStructureForCurrSync methodCollMap).requestAll
        requests).1.moveTempTableDataToMain).removeTempDBStructureForCurrSync, true) := by
  have hfilled := (allAnswered_iff db methodCollMap requests).mpr hdone
  simp [insertNewPublicDataToDb, hfilled, hmoved]

/-- What the main table of an updatable collection holds after the move: the last
answer, or else what the temporary table held, if there was one. -/
theorem contents_of_moved {db : SyncTables S} {methodCollMap : List Coll}
    {requests : List (Coll × ApiRes ρ)} {coll : Coll} (hcoll : S.isUpdatable coll = true)
    (hdone : AllAnswered db methodCollMap requests) :
    ((db.insertNewPublicDataToDb methodCollMap requests true).1.main coll).contents =
      match (answers coll requests).getLast? with
      | some last => Table.latest (S.key coll) last
      | none => (((db.createTempDBStructureForCurrSync methodCollMap).temp coll).map
          Table.contents).getD (db.main coll).contents := by
  have htemp := temp_requestAll (db.createTempDBStructureForCurrSync methodCollMap)
    requests hcoll ((allAnswered_iff db methodCollMap requests).mpr hdone)
  have hmain := contents_moveTempTableDataToMain
    ((db.createTempDBStructureForCurrSync methodCollMap).requestAll requests).1 hcoll
  rw [htemp, main_requestAll] at hmain
  rw [insertNewPublicDataToDb_of_moved hdone rfl]
  simp only [removeTempDBStructureForCurrSync, hmain]
  cases (answers coll requests).getLast? with
  | none => rfl
  | some last => rfl

omit [DecidableEq κ] in
theorem flatten_of_getLast? {rows : List (List ρ)} {last : List ρ}
    (h : rows.getLast? = some last) : rows.flatten = rows.dropLast.flatten ++ last := by
  conv_lhs => rw [← List.dropLast_append_getLast? last h]
  simp

/-- An updatable collection is replaced safely exactly if the run does not get to the
move, or the temporary table covers what the main table is to hold. -/
theorem updatable_replaced_iff (db : SyncTables S) (methodCollMap : List Coll)
    (requests : List (Coll × ApiRes ρ)) (isMoved : Bool) {coll : Coll}
    (hcoll : S.isUpdatable coll = true) :
    ReplacesSafely db methodCollMap requests isMoved coll ↔
      (AllAnswered db methodCollMap requests → isMoved = true →
        CoversMain db methodCollMap requests coll) := by
  by_cases hrun : AllAnswered db methodCollMap requests ∧ isMoved = true
  · obtain ⟨hdone, rfl⟩ := hrun
    have hmain := contents_of_moved hcoll hdone
    have hmoved := congrArg Prod.snd (insertNewPublicDataToDb_of_moved hdone rfl)
    simp only [ReplacesSafely, hmoved, hdone, forall_const, Bool.true_eq_false, false_implies,
      and_true, hmain, CoversMain]
    rcases hlast : (answers coll requests).getLast? with _ | last
    · have hnil := List.getLast?_eq_none_iff.mp hlast
      simp only [hnil, ne_eq, not_true_eq_false, false_implies, forall_const, true_and]
      by_cases hdue : coll ∈ methodCollMap
      · simp [createTempDBStructureForCurrSync, hdue]
      · rcases hold : db.temp coll with _ | temp <;>
          simp [createTempDBStructureForCurrSync, hdue, hold]
    · have hne : answers coll requests ≠ [] := by
        intro hnil
        simp [hnil] at hlast
      simp only [hne, ne_eq, not_false_eq_true, forall_const, false_implies, and_true,
        flatten_of_getLast? hlast]
      rw [List.perm_comm]
      exact Table.latest_append_perm
  · obtain ⟨hend, hmain⟩ := insertNewPublicDataToDb_of_not hrun
    have hleft : ReplacesSafely db methodCollMap requests isMoved coll := by
      simp only [ReplacesSafely, hend, hmain]
      simp
    exact iff_of_true hleft fun hdone hmoved => absurd ⟨hdone, hmoved⟩ hrun

namespace EmptyAnswerWitness

/-- Status messages by their symbol, and currencies by their id. -/
inductive Name
  | statusMessages
  | currencies
deriving DecidableEq

def schema : CollSchema Name String String where
  key _ row := some row
  isUpdatable _ := true

def stored : SyncTables schema where
  main _ := Table.empty.insertAll ["BTC", "ETH"]
  temp _ := none

/-- The API returns no currencies, and the stored ones are gone; two symbols are
asked for their status messages, and the ones of the first are lost. -/
theorem emptied_by_no_answer :
    ¬ ReplacesSafely stored [.currencies] [(.currencies, .elems [])] true .currencies ∧
      ¬ ReplacesSafely stored [.statusMessages]
        [(.statusMessages, .elems ["BTC"]), (.statusMessages, .elems ["ETH"])] true
        .statusMessages := by
  constructor
  · intro h
    have hlength := (h.2.1 (by decide) (by decide)).length_eq
    revert hlength
    decide
  · intro h
    have hlength := (h.1 (by decide) (by decide)).length_eq
    revert hlength
    decide

/-- The second of two answers has a row for every key of the first. -/
theorem updatable_replaced_iff_of_stored :
    ReplacesSafely stored [.currencies]
      [(.currencies, .elems ["BTC"]), (.currencies, .elems ["BTC", "UST"])] true .currencies :=
  (updatable_replaced_iff stored _ _ _ rfl).mpr fun _ _ => by
    have hcovers : ∀ r ∈ ["BTC"], ∃ r' ∈ ["BTC", "UST"],
        Conflicts (schema.key .currencies) r r' := by
      decide
    exact hcovers

end EmptyAnswerWitness

end SyncTables

end ReportsFramework
