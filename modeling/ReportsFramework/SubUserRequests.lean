/-
`fetchDataFormApi`: the requests of the sub-users one after another, and what is returned or thrown
when some of them fail.
-/
import Mathlib.Data.List.DropRight
import ReportsFramework.OrderBy

namespace ReportsFramework

open Js OrderBy

namespace SubAccountApiData

/-- The options of a fetch; a limit is `none` where it is no integer, and is not negative. -/
structure FetchOpts where
  limit : Option ℕ := some 10000
  notThrowError : Bool := false
  notCheckNextPage : Bool := false
  datePropName : String
  isThrownErrIfAllFail : Bool := false
  isNotPreparedResponse : Bool := false

/-- A list of records has no next page. -/
structure Response where
  res : List Js.Val
  nextPage : Option Js.Val := none

section Fetch

variable {ε ε' : Type*}

/-- Whether the limited records are of more than one date. -/
def isNotContainedSameMts (datePropName : String) (limitedRes : List Js.Val) : Bool :=
  let mts := match limitedRes with
    | [] => .undefined
    | firstElem :: _ => prop firstElem datePropName
  limitedRes.any fun item => !strictEq (prop item datePropName) mts

variable (prepareResponse : List Js.Val → FetchOpts → Except ε' Response)

end Fetch

section Answer

variable {ε ε' : Type*}

end Answer

section Response

variable {records : List Js.Val} {datePropName : String}

variable {ε ε' : Type*} {prepareResponse : List Js.Val → FetchOpts → Except ε' Response}

end Response

section Loop

variable {ε : Type*}

variable {ε' : Type*} {prepareResponse : List Js.Val → FetchOpts → Except ε' Response}
  {outcomes : List (Except ε Js.Val)} {opts : FetchOpts}

end Loop

namespace RequestsWitness

/-- The records up to the last one that has not the date `mts`. -/
def withoutDate (datePropName : String) (mts : Js.Val) (records : List Js.Val) : List Js.Val :=
  records.rdropWhile fun record => strictEq (prop record datePropName) mts

/-- A full page comes without the records of its last date, which is where the next page starts; if
all are of one date, a greater limit is needed. -/
def prepareResponse (records : List Js.Val) (opts : FetchOpts) : Except String Response :=
  match records.getLast? with
  | none => .ok { res := records }
  | some last =>
      if opts.limit = some records.length ∧ opts.notCheckNextPage = false then
        let mts := prop last opts.datePropName
        let res := withoutDate opts.datePropName mts records
        if res = [] ∧ opts.notThrowError = false then
          .error "A greater limit is needed as to show the data correctly"
        else .ok { res, nextPage := some mts }
      else .ok { res := records }

def record (mts : ℚ) : Js.Val := .obj [("mtsUpdate", .num mts)]

def opts : FetchOpts :=
  { datePropName := "mtsUpdate", limit := some 2, isThrownErrIfAllFail := true }

end RequestsWitness

end SubAccountApiData

end ReportsFramework
