/-
Balance history: wallet rows of the ledgers grouped by timeframe, carried forward from
the first wallets and valued in USD at the end of each frame.
-/
import Mathlib.Data.Rat.Defs
import ReportsFramework.CalcGroupedData

namespace ReportsFramework

/-- A wallet row of the ledgers, or a first wallet; balances are finite numbers. -/
structure WalletRow where
  type : String
  currency : String
  balance : ℚ
  mtsUpdate : ℤ
deriving DecidableEq

/-- An object from currencies to numbers. -/
abbrev Balances := List (String × ℚ)

/-- `accum[symb]` is increased, or set if it is not there. -/
def addTo (symb : String) (balance : ℚ) : Balances → Balances
  | [] => [(symb, balance)]
  | (symb', sum) :: rest =>
      if symb' = symb then (symb', sum + balance) :: rest
      else (symb', sum) :: addTo symb balance rest

def groupWalletsByCurrency (wallets : List WalletRow) : Balances :=
  wallets.foldl (fun accum wallet => addTo wallet.currency wallet.balance accum) []

/-- The wallets that are not in the data. -/
def missingWallets (wallets data : List WalletRow) : List WalletRow :=
  wallets.filter fun wallet => data.all fun row =>
    wallet.type ≠ row.type || wallet.currency ≠ row.currency

/-- The state is the wallets of the frames so far. -/
def calcWalletsInTimeframe : CalcDataFn WalletRow Balances (List WalletRow) :=
  fun wallets data _ =>
    let wallets := data ++ missingWallets wallets data
    let vals := groupWalletsByCurrency wallets
    (if vals = [] then none else some vals, wallets)

/-- A date in the week of the first of January, but for a week that begins with it. -/
def isAtTurnOfYear (mts : ℤ) : Bool :=
  let month := Moment.month mts
  let dates := Moment.date mts
  let weekday := Moment.isoWeekday mts
  (month = 0 && dates < 7 && weekday - dates > 0) ||
    (month = 11 && dates > 25 && dates + 7 - weekday > 31)

/-- The rows have no field `wallet`, so that they are compared by the currency alone. -/
def isInUnicGroup (unicGroup : List WalletRow) (item : WalletRow) : Bool :=
  unicGroup.any fun w => w.currency = item.currency

def reGroupLoop (unicGroup accum : List WalletRow) : List WalletRow → List WalletRow
  | [] => accum
  | item :: rest =>
      if isAtTurnOfYear item.mtsUpdate then
        if isInUnicGroup unicGroup item then reGroupLoop unicGroup accum rest
        else if rest.isEmpty then reGroupLoop [] (accum ++ (unicGroup ++ [item])) rest
        else reGroupLoop (unicGroup ++ [item]) accum rest
      else reGroupLoop [] (accum ++ unicGroup ++ [item]) rest

def reGroupWeeklyDataGroups (data : List WalletRow) : List WalletRow :=
  reGroupLoop [] [] data

inductive Series
  | walletsGroupedByTimeframe
  | mtsGroupedByTimeframe
  | plGroupedByTimeframe
deriving DecidableEq

/-- The profit and loss may have no number for USD. -/
abbrev SeriesVals : Series → Type
  | .walletsGroupedByTimeframe => Balances
  | .mtsGroupedByTimeframe => ℤ
  | .plGroupedByTimeframe => Option ℚ

/-- The series that are merged, by their keys. -/
def seriesData (walletsGroupedByTimeframe : List (GroupItem Balances))
    (mtsGroupedByTimeframe : List (GroupItem ℤ))
    (plGroupedByTimeframe : List (GroupItem (Option ℚ))) :
    ∀ key, List (GroupItem (SeriesVals key))
  | .walletsGroupedByTimeframe => walletsGroupedByTimeframe
  | .mtsGroupedByTimeframe => mtsGroupedByTimeframe
  | .plGroupedByTimeframe => plGroupedByTimeframe

section Prices

variable (getPriceFromData : String → ℤ → Option ℚ) (forexSymbs : List String)
  (timeframe : Timeframe)

/-- The price of a pair at the last millisecond of the frame, if it is a finite number. -/
def getCandlesClosePrice (mts : ℤ) (symb : String) : Option ℚ :=
  let symbSeparator := if symb.length > 3 then ":" else ""
  getPriceFromData ("t" ++ symb ++ symbSeparator ++ "USD") (nextFrame mts timeframe - 1)

def convertForexToUsd (obj : Balances) (mts : ℤ) : ℚ :=
  obj.foldl (fun accum entry =>
    if entry.1 = "USD" then accum + entry.2
    else (getCandlesClosePrice getPriceFromData timeframe mts entry.1).elim accum fun price =>
      accum + entry.2 * price) 0

/-- The function of `_getWalletsByTimeframe`, whose state is `prevRes`.  A moment of no
timestamp is `now`. -/
def walletsByTimeframe (now : ℤ) (prevRes : Balances) (item : MergedItem SeriesVals) :
    (ℤ × ℚ) × Balances :=
  let wallets := (item.vals .walletsGroupedByTimeframe).getD []
  let mts := (item.vals .mtsGroupedByTimeframe).getD now
  let isReturnedPrevRes := wallets = [] ∧ prevRes ≠ []
  let walletsArr := if isReturnedPrevRes then prevRes else wallets
  let res := walletsArr.foldl (fun accum entry =>
    if entry.1 ∈ forexSymbs then addTo entry.1 entry.2 accum
    else (getCandlesClosePrice getPriceFromData timeframe mts entry.1).elim accum fun price =>
      addTo "USD" (entry.2 * price) accum) []
  let usdPL := ((item.vals .plGroupedByTimeframe).bind id).getD 0
  let usdRes := convertForexToUsd getPriceFromData timeframe res mts
  ((item.mts, usdRes + usdPL), if isReturnedPrevRes then prevRes else wallets)

/-- From the first wallets, the wallet rows and the profit and loss, each series from
the latest timestamp on; the timestamps of the frames with the balance in USD. -/
def getBalanceHistory (firstWallets rows : List WalletRow)
    (plGroupedByTimeframe : List (GroupItem (Option ℚ))) (start stop now : ℤ) : List (ℤ × ℚ) :=
  let wallets := if timeframe = .week then reGroupWeeklyDataGroups rows else rows
  let walletsGroupedByTimeframe := groupByTimeframe (fun row => some row.mtsUpdate)
    calcWalletsInTimeframe timeframe firstWallets wallets start stop
  let mtsGroupedByTimeframe := getMtsGroupedByTimeframe start stop timeframe true
  reduceRight (walletsByTimeframe getPriceFromData forexSymbs timeframe now)
    (groupWalletsByCurrency firstWallets)
    (mergeData [.walletsGroupedByTimeframe, .mtsGroupedByTimeframe, .plGroupedByTimeframe]
      (seriesData walletsGroupedByTimeframe mtsGroupedByTimeframe plGroupedByTimeframe))

end Prices

end ReportsFramework
