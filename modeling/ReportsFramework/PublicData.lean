/-
`getPublicData`: what is configured is asked of the database, what is not of the API, and their
pages are merged and cut to the limit.
-/
import ReportsFramework.MergedPages
import ReportsFramework.Newest
import ReportsFramework.PublicCollsConf

namespace ReportsFramework

open MergedPages

namespace PublicCollsConfAccessors

def isStatusMessagesConfs (confName : ConfName) : Bool :=
  confName = .statusMessagesConf

/-- The parameter `symbol`. -/
inductive SymbolParam
  | one (symbol : String)
  | many (symbols : List String)
deriving DecidableEq, Repr

def SymbolParam.list : SymbolParam → List String
  | one symbol => [symbol]
  | many symbols => symbols

/-- What the API or the database is asked with, but for the end. -/
structure Args where
  symbol : SymbolParam
  timeframe : Option String
  start : Option ℤ
  limit : Option ℕ
  notThrowError : Bool
  notCheckNextPage : Bool
deriving DecidableEq, Repr

/-- The parameters of a request; candles are asked for with one time frame. -/
structure PublicParams (confName : ConfName) where
  symbol : List String
  timeframe : Option String
  start : Option ℤ
  limit : Option ℕ
  notThrowError : Bool
  notCheckNextPage : Bool
  limit_pos : ∀ l ∈ limit, 0 < l
  oneTimeframe : isCandlesConfs confName = true → ∃ t, timeframe = some t ∧ t ≠ ""

namespace PublicParams

variable {confName : ConfName} (params : PublicParams confName)

/-- The time frame, which is omitted but for candles. -/
def timeframe? : Option String :=
  if isCandlesConfs confName then params.timeframe else none

/-- The arguments with a symbol and a time frame of their own. -/
def args (symbol : SymbolParam) (timeframe : Option String) : Args where
  symbol := symbol
  timeframe := timeframe
  start := params.start
  limit := params.limit
  notThrowError := params.notThrowError
  notCheckNextPage := params.notCheckNextPage

def limitOrDefault : ℕ := params.limit.getD 10000

theorem limitOrDefault_pos : 0 < params.limitOrDefault := by
  unfold limitOrDefault
  cases hlimit : params.limit with
  | none => decide
  | some l => exact params.limit_pos l (by rw [hlimit]; rfl)

end PublicParams

def getStart (confs : List Conf) (start : Option ℤ) : ℤ :=
  let minConfStart := confs.foldl (fun accum conf =>
    if accum.all fun minStart => conf.start < minStart then some conf.start else accum) none
  let start := start.getD 0
  minConfStart.elim start fun minStart => if start < minStart then minStart else start

def getSymbol (confs : List Conf) : List String :=
  confs.map Conf.symbol

def getTimeframe (confs : List Conf) : List (Option String) :=
  confs.map Conf.timeframe

section Data

variable {confName : ConfName} (params : PublicParams confName)

/-- What the database is asked with. -/
def getArgs (confs : List Conf) : Args :=
  let args := params.args (.many (getSymbol confs)) params.timeframe?
  if isStatusMessagesConfs confName then args
  else if isCandlesConfs confName then
    { args with
      start := some (getStart confs params.start)
      timeframe := (getTimeframe confs).head?.getD params.timeframe? }
  else { args with start := some (getStart confs params.start) }

/-- What the API is asked with: a symbol that no configuration has. -/
def getArgsArrForNotSyncedParams (confs : List Conf) : List Args :=
  let filteredSymbols := params.symbol.filter fun symb => symb ≠ ""
  let filteredTimeframes := params.timeframe?.toList.filter fun timeframe => timeframe ≠ ""
  filteredSymbols.flatMap fun symb =>
    if (confs.find? fun conf => conf.symbol = symb).isNone && filteredTimeframes.isEmpty then
      [params.args (.one symb) none]
    else
      (filteredTimeframes.filter fun tFrame =>
        (confs.find? fun conf => conf.symbol = symb ∧ conf.timeframe = some tFrame).isNone).map
          fun tFrame => params.args (.one symb) (some tFrame)

/-- The configurations of what is requested. -/
def requestedConfs (user_id : ℤ) (table : ConfTable) : List Conf :=
  getPublicCollsConf confName user_id params.symbol params.timeframe? table

variable {ρ : Type*}

/-- Whether the limited records are of more than one date. -/
def isNotContainedSameMts (date : ρ → ℤ) : List ρ → Bool
  | [] => false
  | firstElem :: rest => rest.any fun item => date item ≠ date firstElem

/-- The answer for an end. -/
def getPublicData (method : Args → ℤ → Answer ρ) (findInCollBy : Args → ℤ → List ρ)
    (prepareResponse : List ρ → ℕ → Bool → Bool → Answer ρ) (date : ρ → ℤ) (user_id : ℤ)
    (table : ConfTable) (e : ℤ) : Answer ρ :=
  let confs := requestedConfs params user_id table
  if confs.isEmpty then method (params.args (.many params.symbol) params.timeframe?) e
  else
    let _dbRes := findInCollBy (getArgs params confs) e
    let apiResArr := (getArgsArrForNotSyncedParams params confs).map fun args => method args e
    let mergedRes := apiResArr.foldl (fun accum curr => accum ++ curr.res) _dbRes
    let orderedRes := latestFirst (fun r r' => date r ≤ date r') mergedRes
    let limitedRes := orderedRes.take params.limitOrDefault
    let res := if isNotContainedSameMts date limitedRes then limitedRes else orderedRes
    prepareResponse res params.limitOrDefault params.notThrowError params.notCheckNextPage

/-- What is asked for an answer. -/
inductive Request
  | db (args : Args)
  | api (args : Args)
deriving DecidableEq, Repr

def Request.args : Request → Args
  | db args => args
  | api args => args

def requests (confs : List Conf) : List Request :=
  if confs.isEmpty then [.api (params.args (.many params.symbol) params.timeframe?)]
  else .db (getArgs params confs) :: (getArgsArrForNotSyncedParams params confs).map .api

end Data

/-- The database and the API as sources of pages; what they hold is of the symbols asked for. -/
structure Sources (ρ : Type*) where
  date : ρ → ℤ
  symbolOf : ρ → String
  db : Args → Source date
  api : Args → PagedSource date
  db_symbol : ∀ args, ∀ r ∈ (db args).records, symbolOf r ∈ args.symbol.list
  api_symbol : ∀ args, ∀ r ∈ (api args).records, symbolOf r ∈ args.symbol.list

namespace Sources

variable {ρ : Type*} (sources : Sources ρ)

def source : Request → Source sources.date
  | .db args => sources.db args
  | .api args => (sources.api args).toSource

/-- `getPublicData` on these sources. -/
def answer (prepareResponse : List ρ → ℕ → Bool → Bool → Answer ρ) {confName : ConfName}
    (params : PublicParams confName) (user_id : ℤ) (table : ConfTable) (e : ℤ) : Answer ρ :=
  getPublicData params (fun args e => (sources.api args).answer e)
    (fun args e => (sources.db args).page e) prepareResponse sources.date user_id table e

end Sources

end PublicCollsConfAccessors

end ReportsFramework
