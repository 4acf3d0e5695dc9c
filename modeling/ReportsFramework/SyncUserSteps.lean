/-
The sync steps of a collection: what is known of the last synchronisation, which windows
of time are still to be loaded, and which of the two steps a run may mark as ready.
-/
import Mathlib.Data.List.ReduceOption
import ReportsFramework.Timeframes

namespace ReportsFramework.SyncSteps

/-- A sync step; `none` stands for `null`. -/
structure SyncUserStepData where
  syncedAt : Option ℤ
  symbol : Option String
  timeframe : Option String
  baseStart : Option ℤ
  baseEnd : Option ℤ
  currStart : Option ℤ
  currEnd : Option ℤ
  isBaseStepReady : Bool
  isCurrStepReady : Bool
  wasBaseStepsBeSynced : Bool
  wasCurrStepsBeSynced : Bool
deriving DecidableEq

/-- The stored step of a collection of a user. -/
structure SyncUserStep where
  syncedAt : Option ℤ
  baseStart : Option ℤ
  baseEnd : Option ℤ
  currStart : Option ℤ
  currEnd : Option ℤ
  isBaseStepReady : Bool
  isCurrStepReady : Bool
deriving DecidableEq

/-- What is read of a row that is not there. -/
def SyncUserStep.missing : SyncUserStep :=
  ⟨none, none, none, none, none, false, false⟩

namespace SyncUserStepData

/-- What `syncUserStepDataFactory` starts from. -/
def new : SyncUserStepData :=
  ⟨none, none, none, none, none, none, none, false, false, false, false⟩

def hasBaseStep (d : SyncUserStepData) : Bool :=
  d.baseStart.any fun start => d.baseEnd.any (start < ·)

def hasBaseStart (d : SyncUserStepData) : Bool := d.baseStart.isSome

def hasCurrStep (d : SyncUserStepData) : Bool :=
  d.currStart.any fun start => d.currEnd.any (start < ·)

def hasCurrStart (d : SyncUserStepData) : Bool := d.currStart.isSome

/-- A step made of `getParams()` of another one, with what is set beside. -/
def ofParams (d : SyncUserStepData) : SyncUserStepData :=
  { d with
    syncedAt := none
    wasBaseStepsBeSynced := false
    wasCurrStepsBeSynced := false }

end SyncUserStepData

/-- The options of `shouldBaseStepBeSynced` and its like. -/
structure CheckOpts where
  shouldNotMtsBeChecked : Bool
  shouldStartMtsBeChecked : Bool

/-- No options. -/
def CheckOpts.none : CheckOpts := ⟨false, false⟩

namespace SyncUserStepManager

def shouldBaseStepBeSynced (d : SyncUserStepData) (opts : CheckOpts) : Bool :=
  !d.isBaseStepReady && (opts.shouldNotMtsBeChecked || d.hasBaseStep) &&
    (!opts.shouldStartMtsBeChecked || d.hasBaseStart)

def shouldCurrStepBeSynced (d : SyncUserStepData) (opts : CheckOpts) : Bool :=
  !d.isCurrStepReady && (opts.shouldNotMtsBeChecked || d.hasCurrStep) &&
    (!opts.shouldStartMtsBeChecked || d.hasCurrStart)

/-- `_wereBaseStepsSynced` and `_wereCurrStepsSynced`: there are steps to be synchronised,
and all of them were. -/
def wereSynced (shouldBeSynced wasSynced : SyncUserStepData → Bool)
    (syncUserStepsData : List SyncUserStepData) : Bool :=
  let filtered := syncUserStepsData.filter shouldBeSynced
  !filtered.isEmpty && filtered.all wasSynced

def wereBaseStepsSynced (syncUserStepsData : List SyncUserStepData) (opts : CheckOpts) : Bool :=
  wereSynced (shouldBaseStepBeSynced · opts) (·.wasBaseStepsBeSynced) syncUserStepsData

def wereCurrStepsSynced (syncUserStepsData : List SyncUserStepData) (opts : CheckOpts) : Bool :=
  wereSynced (shouldCurrStepBeSynced · opts) (·.wasCurrStepsBeSynced) syncUserStepsData

/-- `updateOrInsertSyncInfoForCurrColl` with the parameters of a step. -/
def updateSyncInfo (row : Option SyncUserStep) (d : SyncUserStepData) : SyncUserStep where
  syncedAt := (row.getD .missing).syncedAt
  baseStart := d.baseStart
  baseEnd := d.baseEnd
  currStart := d.currStart
  currEnd := d.currEnd
  isBaseStepReady := d.isBaseStepReady
  isCurrStepReady := d.isCurrStepReady

/-- `updateOrInsertSyncInfoForCurrColl` with the time of the synchronisation and with
`wereStepsSynced`, of which only what is true is set. -/
def setSynced (row : Option SyncUserStep) (syncedAt : ℤ) (start : List SyncUserStepData)
    (opts : CheckOpts) : SyncUserStep :=
  let stored := row.getD .missing
  { stored with
    syncedAt := some syncedAt
    isBaseStepReady := stored.isBaseStepReady || wereBaseStepsSynced start opts
    isCurrStepReady := stored.isCurrStepReady || wereCurrStepsSynced start opts }

/-- `min` of an array; what is missing is passed by. -/
def minMts (mts : List (Option ℤ)) : Option ℤ := mts.reduceOption.min?

/-- `max` of an array; what is missing is passed by. -/
def maxMts (mts : List (Option ℤ)) : Option ℤ := mts.reduceOption.max?

/-- The dates of the first and the last element of a table, `none` if it is empty. -/
structure TableDates where
  first : Option ℤ
  last : Option ℤ
deriving DecidableEq

/-- What the last synchronisation is asked for with; `none` stands for `null`. -/
structure SyncedInfoParams where
  symbol : Option String
  timeframe : Option String
  defaultStart : Option ℤ
  currMts : Option ℤ

/-- `_getMinStart`. -/
def getMinStart (minStartMts : ℤ) (start : Option ℤ) : Option ℤ :=
  start.map fun mts => if mts < minStartMts then minStartMts else mts

/-- The step that is left from the last synchronisation, and the date of the last element
of the tables. -/
def getLastSyncedInfoForCurrColl (minStartMts : ℤ) (isUpdatable : Bool)
    (row : Option SyncUserStep) (main temp : TableDates) (params : SyncedInfoParams) :
    SyncUserStepData × Option ℤ :=
  let defaultStart := getMinStart minStartMts params.defaultStart
  let stored := row.getD .missing
  let baseStart := getMinStart minStartMts stored.baseStart
  let lastElemMtsFromTables := (maxMts [temp.last, main.last]).or defaultStart
  let new : SyncUserStepData :=
    { SyncUserStepData.new with
      syncedAt := stored.syncedAt
      symbol := params.symbol
      timeframe := params.timeframe
      isBaseStepReady := stored.isBaseStepReady }
  if !stored.isBaseStepReady && main.last.isNone && temp.last.isNone then
    ({ new with
        baseStart := baseStart.or defaultStart
        baseEnd := stored.baseEnd.or params.currMts },
      lastElemMtsFromTables)
  else
    let left :=
      { new with
        baseStart := baseStart
        baseEnd := stored.baseEnd
        currStart := stored.currStart
        currEnd := stored.currEnd
        isCurrStepReady := stored.isCurrStepReady }
    let withCurr :=
      if left.isCurrStepReady then left
      else if isUpdatable then
        { left with currStart := defaultStart, currEnd := params.currMts }
      else
        { left with
          currStart := (minMts [left.currStart, main.last]).or defaultStart
          currEnd := ((minMts [left.currEnd, temp.first]).or main.last).or params.currMts }
    let withBase :=
      if left.isBaseStepReady then withCurr
      else
        let based :=
          if isUpdatable then
            { withCurr with baseStart := defaultStart, baseEnd := params.currMts }
          else
            { withCurr with
              baseStart := (minMts [baseStart, main.first]).or defaultStart
              baseEnd := ((minMts [left.baseEnd, temp.first]).or main.last).or params.currMts }
        { based with isBaseStepReady := based.baseStart == based.baseEnd }
    (withBase, lastElemMtsFromTables)

end SyncUserStepManager

/-- `allowedDiff`, in minutes. -/
structure AllowedDiff where
  allowedTimeDiff : ℤ
  dayOfYear : Option ℤ

namespace DataChecker

open SyncUserStepManager

/-- `diff` of two moments in minutes. -/
def diffMinutes (mts mts' : ℤ) : ℤ := (mts - mts').tdiv 60000

def allowedDiff : AllowedDiff := ⟨60, none⟩

def shouldFreshSyncBeAdded (d : SyncUserStepData) (currMts : ℤ) (diff : AllowedDiff) : Bool :=
  let baseEnd := if !d.isBaseStepReady && d.hasBaseStep then d.baseEnd.getD 0 else 0
  let currEnd := if !d.isCurrStepReady && d.hasCurrStep then d.currEnd.getD 0 else 0
  let syncedAt := d.syncedAt.getD 0
  let yearsDiff := Moment.year currMts - Moment.year syncedAt
  let dayOfYearDiff := Moment.dayOfYear currMts - Moment.dayOfYear syncedAt
  diff.allowedTimeDiff < diffMinutes currMts (max baseEnd currEnd) &&
    diff.dayOfYear.all fun dayOfYear => 1 ≤ yearsDiff || dayOfYear ≤ dayOfYearDiff

/-- `_checkItemNewDataArrObjType`: the steps that it pushes to `START`.  The clock is read
here, and once more for the last synchronisation. -/
def checkItemNewDataArrObjType (minStartMts : ℤ) (row : Option SyncUserStep)
    (main temp : TableDates) (currMts infoMts : ℤ) : List SyncUserStepData :=
  let (syncUserStepData, lastElemMtsFromTables) :=
    getLastSyncedInfoForCurrColl minStartMts false row main temp
      ⟨none, none, some minStartMts, some infoMts⟩
  (if !syncUserStepData.isBaseStepReady || !syncUserStepData.isCurrStepReady then
      [syncUserStepData]
    else []) ++
  (if shouldFreshSyncBeAdded syncUserStepData currMts allowedDiff then
      [{ syncUserStepData.ofParams with
          currStart := lastElemMtsFromTables
          currEnd := some currMts
          isCurrStepReady := false }]
    else [])

end DataChecker

end ReportsFramework.SyncSteps
