/-
The synchronisation of a private collection of a user, run after run.  A run loads the
windows of its steps into the temporary table and moves it to the main table at the end;
one that is interrupted leaves the temporary table and the stored step as they are, and
the next run goes on from there.
-/
import ReportsFramework.InterruptedLoads
import ReportsFramework.Machine
import ReportsFramework.SyncUserSteps
import ReportsFramework.UpdatableColls

namespace ReportsFramework.SyncSteps

open DataChecker SyncUserStepManager

variable {ρ κ : Type*} [DecidableEq κ]

/-- What is stored of a collection of a user: the sync step, the main table, and the
temporary table of the sync queue id, empty if there is none. -/
structure CollDb (src : PageSource ρ κ) where
  row : Option SyncUserStep
  main : Sql.Table src.key
  temp : Sql.Table src.key

/-- Where a step is interrupted: before anything is written for it, while its base or its
current window is loaded. -/
inductive Interruption
  | atFirst
  | inBase
  | inCurr
deriving DecidableEq

/-- How a run ends: interrupted in the step with an index, after the last step, or not. -/
inductive RunEnd
  | interrupted (index : ℕ) (interruption : Interruption)
  | interruptedAfterInserts
  | finished
deriving DecidableEq

/-- A run: the time it is checked at, the time the last synchronisation is asked for at,
the time it ends, and the number of writes before it is interrupted. -/
structure SyncRun where
  currMts : ℤ
  infoMts : ℤ
  syncedAt : ℤ
  writes : ℕ

/-- A step as `insertApiData` leaves it. -/
def marked (d : SyncUserStepData) : SyncUserStepData :=
  { d with
    wasBaseStepsBeSynced := d.wasBaseStepsBeSynced || shouldBaseStepBeSynced d .none
    wasCurrStepsBeSynced := d.wasCurrStepsBeSynced || shouldCurrStepBeSynced d .none }

namespace DataInserter

variable {src : PageSource ρ κ}

/-- The limit of a load. -/
def limit : ℕ := 10000000

/-- `_insertApiDataArrObjTypeToDb` into the temporary table, if the step is to be loaded.
The number of the writes left is `none` if the load is interrupted. -/
def insertApiDataArrObjTypeToDb (shouldBeSynced : Bool) (start stop : Option ℤ) (writes : ℕ)
    (temp : Sql.Table src.key) : Sql.Table src.key × Option ℕ :=
  if shouldBeSynced then
    let (loop, left) := src.loopFor (start.getD 0) limit writes ⟨stop.getD 0, 0, 0, 0, temp⟩
    (loop.table, left)
  else (temp, some writes)

/-- `_insertApiData`: the step as it is left, and the number of the writes left. -/
def insertApiData (db : CollDb src) (d : SyncUserStepData) :
    ℕ → CollDb src × Except Interruption (SyncUserStepData × ℕ)
  | 0 => (db, .error .atFirst)
  | writes + 1 =>
      let shouldBase := shouldBaseStepBeSynced d .none
      let shouldCurr := shouldCurrStepBeSynced d .none
      let row := some (updateSyncInfo db.row d)
      match insertApiDataArrObjTypeToDb shouldBase d.baseStart d.baseEnd writes db.temp with
      | (temp, none) => (⟨row, db.main, temp⟩, .error .inBase)
      | (temp, some writes) =>
          match insertApiDataArrObjTypeToDb shouldCurr d.currStart d.currEnd writes temp with
          | (temp, none) => (⟨row, db.main, temp⟩, .error .inCurr)
          | (temp, some writes) =>
              let left :=
                { d with
                  wasBaseStepsBeSynced := d.wasBaseStepsBeSynced || shouldBase
                  wasCurrStepsBeSynced := d.wasCurrStepsBeSynced || shouldCurr }
              (⟨row, db.main, temp⟩, .ok (left, writes))

/-- The loop over `START` behind the steps `done`. -/
def insertSteps (db : CollDb src) (done : List SyncUserStepData) :
    List SyncUserStepData → ℕ → CollDb src × Except (ℕ × Interruption) (List SyncUserStepData × ℕ)
  | [], writes => (db, .ok (done, writes))
  | d :: rest, writes =>
      match insertApiData db d writes with
      | (db', .error interruption) => (db', .error (done.length, interruption))
      | (db', .ok (left, writes)) => insertSteps db' (done ++ [left]) rest writes

/-- `_updateSyncInfo`: the temporary table is moved, the steps that were synchronised are
marked, and the temporary table is dropped. -/
def updateSyncInfo (db : CollDb src) (start : List SyncUserStepData) (syncedAt : ℤ) :
    CollDb src where
  row := if start.isEmpty then db.row else some (setSynced db.row syncedAt start .none)
  main := SyncTables.moveTable false db.main db.temp
  temp := .empty

/-- The date of the oldest and that of the newest record of a table. -/
def tableDates (t : Sql.Table src.key) : TableDates where
  first := (t.contents.map src.date).min?
  last := (t.contents.map src.date).max?

/-- `START` of a run. -/
def stepsOf (minStartMts : ℤ) (db : CollDb src) (run : SyncRun) : List SyncUserStepData :=
  checkItemNewDataArrObjType minStartMts db.row (tableDates db.main) (tableDates db.temp)
    run.currMts run.infoMts

/-- A run for the collection. -/
def runSync (minStartMts : ℤ) (db : CollDb src) (run : SyncRun) : CollDb src × RunEnd :=
  match insertSteps db [] (stepsOf minStartMts db run) run.writes with
  | (db', .error (index, interruption)) => (db', .interrupted index interruption)
  | (db', .ok (_, 0)) => (db', .interruptedAfterInserts)
  | (db', .ok (start, _ + 1)) => (updateSyncInfo db' start run.syncedAt, .finished)

/-- One run after the other, from empty tables on, on a clock that is past the default
start. -/
def machine (src : PageSource ρ κ) (minStartMts : ℤ) : Machine (CollDb src) SyncRun where
  init db := db = ⟨none, .empty, .empty⟩
  step db run :=
    if minStartMts < run.currMts ∧ minStartMts < run.infoMts then
      some (runSync minStartMts db run).1
    else none

end DataInserter

end ReportsFramework.SyncSteps
