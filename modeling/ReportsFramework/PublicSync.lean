/-
The synchronisation of a configurable public collection, run after run.  Its symbols are
configured with a start each, and may be edited between the runs.  The windows of a run are
found symbol by symbol, but from a step that is stored once for the whole collection.
-/
import ReportsFramework.PrivateSync

namespace ReportsFramework.SyncSteps

open DataChecker SyncUserStepManager

variable {ρ κ : Type*} [DecidableEq κ]

/-- A symbol, with a time frame for the candles. -/
structure ConfKey where
  symbol : String
  timeframe : Option String
deriving DecidableEq

namespace DataChecker

/-- `_wasStartPointChanged`, with the allowed difference of five minutes. -/
def wasStartPointChanged (d : SyncUserStepData) (startMts : ℤ) : Bool :=
  let baseStart := if d.isBaseStepReady && d.hasBaseStep then d.baseStart.getD 0 else 0
  decide (5 < diffMinutes baseStart startMts)

/-- What is known of the last synchronisation of a configured symbol. -/
def lastSyncedOfConf (minStartMts : ℤ) (row : Option SyncUserStep) (main temp : TableDates)
    (conf : ConfKey × ℤ) (currMts : ℤ) : SyncUserStepData × Option ℤ :=
  getLastSyncedInfoForCurrColl minStartMts false row main temp
    ⟨some conf.1.symbol, conf.1.timeframe, some conf.2, some currMts⟩

/-- The turn of `_checkNewConfigurablePublicData` for a configured symbol: the steps that it
pushes to `START`. -/
def checkConf (minStartMts : ℤ) (row : Option SyncUserStep) (main temp : TableDates)
    (conf : ConfKey × ℤ) (currMts : ℤ) : List SyncUserStepData :=
  let (syncUserStepData, lastElemMtsFromTables) :=
    lastSyncedOfConf minStartMts row main temp conf currMts
  let wasChanged := wasStartPointChanged syncUserStepData conf.2
  let shouldFresh := shouldFreshSyncBeAdded syncUserStepData currMts allowedDiff
  let ready := { syncUserStepData.ofParams with isBaseStepReady := true, isCurrStepReady := true }
  let moved :=
    if wasChanged then
      { ready with
        baseStart := some conf.2
        baseEnd := syncUserStepData.baseStart
        isBaseStepReady := false }
    else ready
  let fresh :=
    if shouldFresh then
      { moved with
        currStart := lastElemMtsFromTables
        currEnd := some currMts
        isCurrStepReady := false }
    else moved
  (if !syncUserStepData.isBaseStepReady || !syncUserStepData.isCurrStepReady then
      [syncUserStepData]
    else []) ++
  (if wasChanged || shouldFresh then [fresh] else [])

/-- `_checkNewConfigurablePublicData`, one step after the other with its symbol. -/
def checkNewConfigurablePublicData (minStartMts : ℤ) (row : Option SyncUserStep)
    (main temp : ConfKey → TableDates) (publicCollsConf : List (ConfKey × ℤ)) (currMts : ℤ) :
    List (ConfKey × SyncUserStepData) :=
  publicCollsConf.flatMap fun conf =>
    (checkConf minStartMts row (main conf.1) (temp conf.1) conf currMts).map (conf.1, ·)

end DataChecker

/-- What is stored of a configurable collection: the step that its symbols share, and for
each of them the rows of the main and of the temporary table. -/
structure PublicDb (src : ConfKey → PageSource ρ κ) where
  row : Option SyncUserStep
  main (key : ConfKey) : Sql.Table (src key).key
  temp (key : ConfKey) : Sql.Table (src key).key

/-- A run: the configuration with the least start of each symbol, as the query groups it, the
steps of the currency converter that are in `START` of the candles before, which are loaded
to other symbols, the time it is checked at, the time it ends, and the number of writes it
may do. -/
structure PublicRun where
  publicCollsConf : List (ConfKey × ℤ)
  converterSteps : List SyncUserStepData
  currMts : ℤ
  syncedAt : ℤ
  writes : ℕ

namespace PublicDb

variable {src : ConfKey → PageSource ρ κ}

/-- The collection as it is for one symbol. -/
def coll (db : PublicDb src) (key : ConfKey) : CollDb (src key) :=
  ⟨db.row, db.main key, db.temp key⟩

def put (db : PublicDb src) (key : ConfKey) (coll : CollDb (src key)) : PublicDb src where
  row := coll.row
  main := Function.update db.main key coll.main
  temp := Function.update db.temp key coll.temp

end PublicDb

namespace PublicInserter

variable {src : ConfKey → PageSource ρ κ}

/-- The loop over `START` behind the steps `done`, `none` if it is interrupted. -/
def insertSteps (db : PublicDb src) (done : List SyncUserStepData) :
    List (ConfKey × SyncUserStepData) → ℕ → Option (PublicDb src × List SyncUserStepData × ℕ)
  | [], writes => some (db, done, writes)
  | (key, d) :: rest, writes =>
      match DataInserter.insertApiData (db.coll key) d writes with
      | (_, .error _) => none
      | (coll, .ok (left, writes)) => insertSteps (db.put key coll) (done ++ [left]) rest writes

/-- `_updateSyncInfo` for the collection; the steps of the converter have stored steps of
their own. -/
def updateSyncInfo (db : PublicDb src) (startWithAuth startWithoutAuth : List SyncUserStepData)
    (syncedAt : ℤ) : PublicDb src where
  row :=
    if startWithoutAuth.isEmpty then db.row
    else some (setSynced db.row syncedAt (startWithAuth ++ startWithoutAuth) .none)
  main key := SyncTables.moveTable false (db.main key) (db.temp key)
  temp _ := .empty

/-- `START` of a run. -/
def stepsOf (minStartMts : ℤ) (db : PublicDb src) (run : PublicRun) :
    List (ConfKey × SyncUserStepData) :=
  DataChecker.checkNewConfigurablePublicData minStartMts db.row
    (fun key => DataInserter.tableDates (db.main key))
    (fun key => DataInserter.tableDates (db.temp key)) run.publicCollsConf run.currMts

/-- A run for the collection, `none` if it is interrupted. -/
def runSync (minStartMts : ℤ) (db : PublicDb src) (run : PublicRun) : Option (PublicDb src) :=
  match insertSteps db [] (stepsOf minStartMts db run) run.writes with
  | some (db', start, _ + 1) =>
      some (updateSyncInfo db' (run.converterSteps.map marked) start run.syncedAt)
  | _ => none

/-- What is known of a configured symbol when a run checks it. -/
def lastSynced (minStartMts : ℤ) (db : PublicDb src) (run : PublicRun) (conf : ConfKey × ℤ) :
    SyncUserStepData × Option ℤ :=
  lastSyncedOfConf minStartMts db.row (DataInserter.tableDates (db.main conf.1))
    (DataInserter.tableDates (db.temp conf.1)) conf run.currMts

end PublicInserter

/-- The tables, and for each symbol the date that its table was loaded from. -/
structure PublicState (src : ConfKey → PageSource ρ κ) where
  db : PublicDb src
  since : ConfKey → ℤ

namespace PublicState

variable {src : ConfKey → PageSource ρ κ}

/-- The base window that the start was moved back for reaches what was loaded before. -/
def movesBack (minStartMts : ℤ) (s : PublicState src) (run : PublicRun) (conf : ConfKey × ℤ) :
    Bool :=
  wasStartPointChanged (PublicInserter.lastSynced minStartMts s.db run conf).1 conf.2 &&
    (PublicInserter.lastSynced minStartMts s.db run conf).1.baseStart.any (s.since conf.1 ≤ ·)

/-- The date that the table of a configured symbol is loaded from, after a run. -/
def sinceAfter (minStartMts : ℤ) (s : PublicState src) (run : PublicRun) (conf : ConfKey × ℤ) :
    ℤ :=
  if (s.db.main conf.1).contents.isEmpty || s.movesBack minStartMts run conf then
    max minStartMts conf.2
  else s.since conf.1

/-- The state after a run, with what it stores. -/
def next (minStartMts : ℤ) (s : PublicState src) (run : PublicRun) (db : PublicDb src) :
    PublicState src where
  db := db
  since key :=
    match run.publicCollsConf.find? (·.1 = key) with
    | some conf => s.sinceAfter minStartMts run conf
    | none => s.since key

end PublicState

namespace PublicInserter

/-- Completed runs, one after the other, each with a configuration of its own. -/
def machine (src : ConfKey → PageSource ρ κ) (minStartMts : ℤ) :
    Machine (PublicState src) PublicRun where
  init s := s.db = ⟨none, fun _ => .empty, fun _ => .empty⟩
  step s run :=
    if (run.publicCollsConf.map Prod.fst).Nodup ∧ minStartMts < run.currMts then
      (runSync minStartMts s.db run).map (s.next minStartMts run)
    else none

end PublicInserter

end ReportsFramework.SyncSteps
