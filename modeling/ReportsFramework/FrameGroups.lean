/-
Grouping of rows by timeframe, and the list of all the frames of a range.  Both move
the first and the last timestamp to the end and the start of the range.
-/
import ReportsFramework.Timeframes

namespace ReportsFramework

variable {ρ V σ : Type*}

/-- An item of a report series. -/
structure GroupItem (V : Type*) where
  mts : ℤ
  vals : V
deriving DecidableEq

/-- `calcDataFn`, which may keep a state from group to group; `none` stands for no vals,
or for an object without keys. -/
abbrev CalcDataFn (ρ V σ : Type*) := σ → List ρ → Option ℤ → Option V × σ

/-- `setMtsToStartingAndEndingFrames` is called with a timeframe or without. -/
def getMtsIfInTimeframe (nativeMts mts : ℤ) (timeframe : Option Timeframe) : ℤ :=
  match timeframe with
  | none => mts
  | some timeframe =>
      if getStartMtsByTimeframe mts timeframe = getStartMtsByTimeframe nativeMts timeframe then
        mts
      else nativeMts

def GroupItem.moveTo (mts : ℤ) (timeframe : Option Timeframe) (item : GroupItem V) :
    GroupItem V :=
  { item with mts := getMtsIfInTimeframe item.mts mts timeframe }

def modifyLast (f : ρ → ρ) : List ρ → List ρ
  | [] => []
  | [item] => [f item]
  | item :: rest => item :: modifyLast f rest

/-- The first item is the latest. -/
def setMtsToStartingAndEndingFrames (data : List (GroupItem V)) (start stop : ℤ)
    (timeframe : Option Timeframe) : List (GroupItem V) :=
  match data with
  | [] => []
  | endingFrame :: rest =>
      endingFrame.moveTo stop timeframe :: modifyLast (GroupItem.moveTo start timeframe) rest

/-- The loop from `currMoment` on, for at most `fuel` frames. -/
def getMtsLoop (startMoment endMoment : ℤ) (timeframe : Timeframe) :
    ℕ → ℤ → List (GroupItem ℤ) → List (GroupItem ℤ)
  | 0, _, res => res
  | fuel + 1, currMoment, res =>
      if Moment.isValid currMoment = true ∧ startMoment ≤ currMoment ∧ currMoment ≤ endMoment then
        getMtsLoop startMoment endMoment timeframe fuel (nextFrame currMoment timeframe)
          (⟨currMoment, currMoment⟩ :: res)
      else res

/-- A frame is a day at least, which bounds the loop. -/
def getMtsGroupedByTimeframe (start stop : ℤ) (timeframe : Timeframe)
    (isSetMtsToStartingAndEndingFrames : Bool) : List (GroupItem ℤ) :=
  let startMoment := getStartMtsByTimeframe start timeframe
  let endMoment := getStartMtsByTimeframe stop timeframe
  let fuel := ((endMoment - startMoment) / Moment.msPerDay).toNat + 2
  let res := getMtsLoop startMoment endMoment timeframe fuel startMoment []
  if isSetMtsToStartingAndEndingFrames then
    setMtsToStartingAndEndingFrames res start stop none
  else res

section GroupByTimeframe

variable (date : ρ → Option ℤ) (calcDataFn : CalcDataFn ρ V σ) (timeframe : Timeframe)

/-- `data` is the next item, or none, and the items of the group. -/
def checkTimeframe (data : List (Option ρ)) (isLastIter : Bool) : Bool :=
  let first := data.head?.join.bind date
  let last := data.getLast?.join.bind date
  (match first, last with
    | some first, some last =>
        getStartMtsByTimeframe first timeframe > getStartMtsByTimeframe last timeframe
    | _, _ => false) || isLastIter

def getGroupItem (state : σ) (data : List ρ) : Option (GroupItem V) × σ :=
  let mts := (data.getLast?.bind date).map (getStartMtsByTimeframe · timeframe)
  let (vals, state) := calcDataFn state data mts
  (mts.bind fun mts => vals.map fun vals => ⟨mts, vals⟩, state)

/-- The items are taken from the oldest on. -/
def groupLoop (state : σ) (subRes : List ρ) : List ρ → List (GroupItem V) → List (GroupItem V)
  | [], res => res
  | item :: rest, res =>
      let subRes := if (date item).isSome then item :: subRes else subRes
      if checkTimeframe date timeframe (rest.head? :: subRes.map some) rest.isEmpty then
        let (groupItem, state) := getGroupItem date calcDataFn timeframe state subRes
        groupLoop state [] rest (groupItem.toList ++ res)
      else groupLoop state subRes rest res

/-- The rows are given from the newest on. -/
def groupByTimeframe (state : σ) (data : List ρ) (start stop : ℤ) : List (GroupItem V) :=
  setMtsToStartingAndEndingFrames
    (groupLoop date calcDataFn timeframe state [] data.reverse []) start stop (some timeframe)

end GroupByTimeframe

end ReportsFramework
