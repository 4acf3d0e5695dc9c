/-
The query of `findInCollBy` and whose rows it returns.
-/
import Mathlib.Algebra.Order.Ring.Rat
import ReportsFramework.WhereQuery

namespace ReportsFramework

open Js Sql

section FindInColl

/-- What the query of a collection reads of its method. -/
structure MethodColl where
  name : String
  isInsertableArrObj : Bool
  dateFieldName : String
  modelFieldNames : List String
  symbolFieldName : String
  timeframeFieldName : String
  additionalFilteringProps : Obj
  subQueryFilter : Obj

structure QueryAuth where
  _id : Js.Val
  isSubAccount : Bool

variable (texts : JsTexts) (now : ℚ)

/-- A value, or a default for one that is undefined. -/
def getOr (o : Obj) (key : String) (default : Js.Val) : Js.Val :=
  match o.get key with
  | .undefined => default
  | val => val

def getSymbolFilter (symbol : Js.Val) (symbolFieldName : String) : Obj :=
  match symbol with
  | .str s => [(symbolFieldName, .str s)]
  | .arr [item] => [(symbolFieldName, item)]
  | .arr items => [(symbolFieldName, .arr items)]
  | _ => []

def isStr : Js.Val → Bool
  | .str _ => true
  | _ => false

def getTimeframeFilter (timeframe : Js.Val) (timeframeFieldName : String) : Obj :=
  if timeframeFieldName = "" then []
  else match timeframe with
    | .str s => [(FilterCondition.eq.name, .obj [(timeframeFieldName, .str s)])]
    | .arr [] => []
    | .arr [item] =>
        if isStr item then [(FilterCondition.eq.name, .obj [(timeframeFieldName, item)])] else []
    | .arr items =>
        if items.all isStr then
          [(FilterCondition.isIn.name, .obj [(timeframeFieldName, .arr items)])]
        else []
    | _ => []

def getFieldsFilters (fieldNames : List String) (params : Obj) (modelFieldNames : List String) :
    Obj :=
  fieldNames.foldl (fun accum fieldName =>
    if modelFieldNames.contains ("_" ++ fieldName) then
      match params.get fieldName with
      | .bool b => accum.set ("_" ++ fieldName) (.num (if b then 1 else 0))
      | .num x => accum.set ("_" ++ fieldName) (.num x)
      | _ => accum
    else accum) []

def getInsertableArrayObjectsFilter (coll : MethodColl) (params : Obj) : Obj :=
  if coll.isInsertableArrObj then
    Obj.merge [(getOr params "filter" (.obj [])).entries,
      [("_dateFieldName", .str coll.dateFieldName),
        ("start", getOr params "start" (.num 0)), ("end", getOr params "end" (.num now))],
      coll.additionalFilteringProps,
      getSymbolFilter (params.get "symbol") coll.symbolFieldName,
      getTimeframeFilter (params.get "timeframe") coll.timeframeFieldName,
      getFieldsFilters
        ["isMarginFundingPayment", "isAffiliateRebate", "isStakingPayments", "category"] params
        coll.modelFieldNames]
  else []

def getStatusMessagesFilter (coll : MethodColl) (params : Obj) : Obj :=
  if coll.name = "statusMessages" then
    Obj.merge [(getOr params "filter" (.obj [])).entries, [("_type", params.get "type")],
      coll.additionalFilteringProps, getSymbolFilter (params.get "symbol") coll.symbolFieldName]
  else []

/-- `getFilterParams` of a private collection; without an integer `_id` it throws. -/
def getFilterParams (coll : MethodColl) (auth : QueryAuth) (params : Obj) : Option Obj :=
  match auth._id with
  | .num _id =>
      if _id.isInt then
        let filter : Obj := Obj.merge [getInsertableArrayObjectsFilter now coll params,
          getStatusMessagesFilter coll params]
        let filter : Obj := if coll.name = "ledgers" ∧ auth.isSubAccount = true then
          filter.set "_isBalanceRecalced" (.num 1) else filter
        some (filter.set "user_id" (.num _id))
      else none
  | _ => none

/-- What is selected from the sub-query, and the values of the placeholders of both. -/
structure SelectQuery where
  clause : Clause
  tableAlias : String
  subClause : Clause
  sqlParams : Obj

def getLimitVal (limit : Js.Val) : Obj :=
  match limit with
  | .num x => if x.isInt then [("_limit", .num x)] else []
  | _ => []

/-- `getQuery` for a private collection: its conditions.  The projection, the order and the limit
make no row of another one. -/
def getQuery (coll : MethodColl) (auth : QueryAuth) (params : Obj) : Option SelectQuery := do
  let filter ← getFilterParams now coll auth params
  let query ← getWhereQuery texts { requestedFilter := params.get "filter" } filter
  let subQuery ← getWhereQuery texts { tableAlias := coll.name ++ "_sub_q" } coll.subQueryFilter
  some {
    clause := query.clause
    tableAlias := coll.name ++ "_sub_q"
    subClause := subQuery.clause
    sqlParams := (Obj.spread query.values subQuery.values).spread
      (getLimitVal (params.get "limit")) }

/-- The column behind an alias. -/
def unaliased (tableAlias column : String) : String :=
  String.ofList (column.toList.drop (tableAlias.length + 1))

/-- The rows of the collection that the query takes. -/
def SelectQuery.selects (engine : Engine) (query : SelectQuery) (row : Row) : Bool :=
  query.subClause.selects engine (bindings {} query.sqlParams)
      (fun column => row (unaliased query.tableAlias column)) &&
    query.clause.selects engine (bindings {} query.sqlParams) row

end FindInColl

section Isolation

variable (texts : JsTexts) (now : ℚ) (engine : Engine) (coll : MethodColl) (auth : QueryAuth)
  (params : Obj)

/-- Every row of the query is one of the user, and a ledger of a sub-account has its balance. -/
def IsIsolated : Prop :=
  ∀ query, getQuery texts now coll auth params = some query →
    ∀ row, query.selects engine row = true →
      (∃ _id, auth._id = .num _id ∧ row "user_id" = .num _id) ∧
        (coll.name = "ledgers" → auth.isSubAccount = true → row "_isBalanceRecalced" = .num 1)

/-- The filter has an `$or`, whose conditions are then the only ones. -/
def HasOr : Prop :=
  ∃ filter, getFilterParams now coll auth params = some filter ∧ isOrOp filter = true

/-- No condition of the query is on the owner of a row. -/
structure SelectQuery.NamesNoOwner (query : SelectQuery) : Prop where
  clause : ∀ condition ∈ query.clause.conditions, condition.column ≠ "user_id"
  subClause : ∀ condition ∈ query.subClause.conditions,
    unaliased query.tableAlias condition.column ≠ "user_id"

end Isolation

section Proof

variable {texts : JsTexts} {now : ℚ} {engine : Engine} {coll : MethodColl} {auth : QueryAuth}
  {params : Obj} {query : SelectQuery}

theorem getQuery_eq_some (h : getQuery texts now coll auth params = some query) :
    ∃ filter main sub, getFilterParams now coll auth params = some filter ∧
      getWhereQuery texts { requestedFilter := params.get "filter" } filter = some main ∧
      getWhereQuery texts { tableAlias := coll.name ++ "_sub_q" } coll.subQueryFilter = some sub ∧
      query = ⟨main.clause, coll.name ++ "_sub_q", sub.clause,
        (Obj.spread main.values sub.values).spread (getLimitVal (params.get "limit"))⟩ := by
  obtain ⟨filter, hfilter, h⟩ := Option.bind_eq_some_iff.mp h
  obtain ⟨main, hmain, h⟩ := Option.bind_eq_some_iff.mp h
  obtain ⟨sub, hsub, h⟩ := Option.bind_eq_some_iff.mp h
  exact ⟨filter, main, sub, hfilter, hmain, hsub, (Option.some.inj h).symm⟩

/-- The keys that are merged into a filter last. -/
theorem getFilterParams_eq_some {filter : Obj}
    (h : getFilterParams now coll auth params = some filter) :
    ∃ _id, auth._id = .num _id ∧ filter.get "user_id" = .num _id ∧
      (coll.name = "ledgers" → auth.isSubAccount = true →
        filter.get "_isBalanceRecalced" = .num 1) := by
  unfold getFilterParams at h
  split at h
  next _id hid =>
    split at h
    · cases h
      refine ⟨_id, hid, ?_, ?_⟩
      · rw [Obj.get_set, if_pos rfl]
      · intro hname hsub
        rw [Obj.get_set, if_neg (by decide), if_pos ⟨hname, hsub⟩, Obj.get_set, if_pos rfl]
    · cases h
  · cases h

/-- The values of the sub-query and of the limit have keys of their own. -/
theorem sqlParams_get {main sub : WhereQuery}
    (hsub : getWhereQuery texts { tableAlias := coll.name ++ "_sub_q" } coll.subQueryFilter =
      some sub)
    {field : String} (hq : 'q' ∉ field.toList) (hlimit : field ≠ "_limit") :
    Obj.get ((Obj.spread main.values sub.values).spread (getLimitVal (params.get "limit"))) field =
      main.values.get field := by
  have hlimit : field ∉ Obj.keys (getLimitVal (params.get "limit")) := by
    unfold getLimitVal
    split
    · split
      · simpa [Obj.keys] using hlimit
      · exact List.not_mem_nil
    · exact List.not_mem_nil
  have hsubKeys : field ∉ sub.values.keys := by
    intro hkey
    obtain ⟨inner, operator, pieces, -, hpieces, -, hvalues⟩ := getWhereQuery_eq_some hsub
    rw [hvalues, mem_keys_joinParts] at hkey
    obtain ⟨piece, hpiece, hkey⟩ := hkey
    obtain ⟨⟨curr, i⟩, -, hsource⟩ := source_of_mem_mapM hpieces hpiece
    obtain ⟨condName, hname, -⟩ := keyQuery_keys hsource hkey
    have hne : coll.name ++ "_sub_q" ≠ "" := by
      intro hempty
      have hmem : 'q' ∈ (coll.name ++ "_sub_q").toList := by
        rw [String.toList_append, List.mem_append]
        exact .inr (by decide)
      rw [hempty] at hmem
      exact absurd hmem (by decide)
    apply hq
    unfold IsKeyOf at hname
    simp only [if_neg hne] at hname
    rcases hname with rfl | ⟨j, rfl⟩
    · simp [WhereOpts.queryValKey]
    · simp [WhereOpts.queryValKey]
  rw [Obj.get_spread_of_not_mem hlimit, Obj.get_spread_of_not_mem hsubKeys]

/-- A field that the filter sets to a number has it in every row of the query. -/
theorem selects_own {filter : Obj} (hfilter : getFilterParams now coll auth params = some filter)
    (hor : isOrOp filter = false) (hquery : getQuery texts now coll auth params = some query)
    {field : String} (hown : OwnName field) (hq : 'q' ∉ field.toList) (hlimit : field ≠ "_limit")
    {x : ℚ} (hget : filter.get field = .num x) {row : Row}
    (hrow : query.selects engine row = true) : row field = .num x := by
  obtain ⟨filter', main, sub, hfilter', hmain, hsub, rfl⟩ := getQuery_eq_some hquery
  obtain rfl := Option.some.inj (hfilter.symm.trans hfilter')
  obtain ⟨hand, ⟨part, hpart, noCase, hform⟩, hvalue⟩ :=
    hown.getWhereQuery rfl rfl hor hget hmain
  have hselects := (Bool.and_eq_true_iff.mp hrow).2
  have hholds := Clause.holds_of_selects hand hselects hpart
    (hform ▸ List.mem_singleton_self _)
  have hbound : bindings {} ((Obj.spread main.values sub.values).spread
      (getLimitVal (params.get "limit"))) field = some (.num x) := by
    change bindVal (Obj.get _ field) = _
    rw [sqlParams_get hsub hq hlimit, hvalue]
    rfl
  simp only [Condition.holds, Operand.names, List.all_cons, List.all_nil, Bool.and_true,
    Condition.compares, hbound, Option.any_some] at hholds
  exact engine.eq_num _ _ _ hholds

theorem ownName_user_id : OwnName "user_id" := by
  constructor <;> decide

theorem ownName_isBalanceRecalced : OwnName "_isBalanceRecalced" := by
  constructor <;> decide

theorem isIsolated_of_not_hasOr (hor : ¬ HasOr now coll auth params) :
    IsIsolated texts now engine coll auth params := by
  intro query hquery row hrow
  obtain ⟨filter, main, sub, hfilter, -, -, -⟩ := getQuery_eq_some hquery
  obtain ⟨_id, hid, huser, hledgers⟩ := getFilterParams_eq_some hfilter
  have hfalse : isOrOp filter = false := by
    rw [← Bool.not_eq_true]
    exact fun htrue => hor ⟨filter, hfilter, htrue⟩
  constructor
  · exact ⟨_id, hid, selects_own hfilter hfalse hquery ownName_user_id (by decide) (by decide)
      huser hrow⟩
  · intro hname hsub
    exact selects_own hfilter hfalse hquery ownName_isBalanceRecalced (by decide) (by decide)
      (hledgers hname hsub) hrow

/-- A query without a condition on the owner does not see it. -/
theorem selects_update_user_id (hnames : query.NamesNoOwner) (row : Row) (val : Sql.Val) :
    query.selects engine (Function.update row "user_id" val) = query.selects engine row := by
  unfold SelectQuery.selects
  apply congrArg₂ and
  · apply Clause.selects_congr
    intro condition hcondition
    exact Function.update_of_ne (hnames.subClause condition hcondition) _ _
  · apply Clause.selects_congr
    intro condition hcondition
    exact Function.update_of_ne (hnames.clause condition hcondition) _ _

theorem isIsolated_iff_of_namesNoOwner (hquery : getQuery texts now coll auth params = some query)
    (hnames : query.NamesNoOwner) :
    IsIsolated texts now engine coll auth params ↔ ∀ row, query.selects engine row = false := by
  constructor
  · intro hisolated row
    rw [← Bool.not_eq_true]
    intro hrow
    obtain ⟨⟨_id, hid, -⟩, -⟩ := hisolated query hquery row hrow
    have hforeign :
        query.selects engine (Function.update row "user_id" (.num (_id + 1))) = true := by
      rw [selects_update_user_id hnames, hrow]
    obtain ⟨⟨_id', hid', huser⟩, -⟩ := hisolated query hquery _ hforeign
    rw [hid] at hid'
    rw [Function.update_self] at huser
    cases hid'
    exact (lt_add_one _id).ne' (Sql.Val.num.inj huser)
  · intro hnone query' hquery' row hrow
    obtain rfl := Option.some.inj (hquery.symm.trans hquery')
    rw [hnone row] at hrow
    cases hrow

/-- Without an `$or` the query returns rows of the user only.  With one whose conditions do not
name the owner it does so only if it returns none. -/
theorem tenant_isolation (texts : JsTexts) (now : ℚ) (engine : Engine) (coll : MethodColl)
    (auth : QueryAuth) (params : Obj) :
    (¬ HasOr now coll auth params → IsIsolated texts now engine coll auth params) ∧
      ∀ query, getQuery texts now coll auth params = some query → query.NamesNoOwner →
        (IsIsolated texts now engine coll auth params ↔
          ∀ row, query.selects engine row = false) :=
  ⟨isIsolated_of_not_hasOr, fun _ => isIsolated_iff_of_namesNoOwner⟩

end Proof

namespace TenantWitness

def texts : JsTexts where
  stringify := fun _ => ""
  text := Js.Val.strD
  text_str := Js.Val.strD_str

/-- Numbers are compared as such, and nothing is true of anything else. -/
def engine : Engine where
  compares := fun
    | .gte, _, .num x, .num y => decide (y ≤ x)
    | .lte, _, .num x, .num y => decide (x ≤ y)
    | .eq, _, .num x, .num y => decide (x = y)
    | _, _, _, _ => false
  eq_num := by
    intro noCase val x h
    cases val with
    | num y => simpa using h
    | _ => cases h

def movements : MethodColl where
  name := "movements"
  isInsertableArrObj := true
  dateFieldName := "mtsUpdated"
  modelFieldNames := ["_id", "user_id", "mtsUpdated", "amount"]
  symbolFieldName := "currency"
  timeframeFieldName := ""
  additionalFilteringProps := []
  subQueryFilter := []

/-- A user asks for the own movements of at least 0, with the condition in an `$or`. -/
def params : Obj :=
  [("filter", .obj [("$or", .obj [("$gte", .obj [("amount", .num 0)])])])]

def auth : QueryAuth := ⟨.num 1, false⟩

/-- A movement of another user. -/
def row : Row := fun column =>
  if column = "user_id" then .num 2 else if column = "amount" then .num 5 else .null

theorem foreign_row_selected :
    ((getQuery texts 100 movements auth params).map fun query => query.selects engine row) =
        some true ∧
      row "user_id" ≠ .num 1 ∧ ¬ IsIsolated texts 100 engine movements auth params := by
  have hselects : ((getQuery texts 100 movements auth params).map fun query =>
      query.selects engine row) = some true := by decide +kernel
  refine ⟨hselects, by decide +kernel, fun hisolated => ?_⟩
  obtain ⟨query, hquery, hrow⟩ := Option.map_eq_some_iff.mp hselects
  obtain ⟨⟨_id, hid, huser⟩, -⟩ := hisolated query hquery row hrow
  cases hid
  revert huser
  decide +kernel

end TenantWitness

end ReportsFramework
