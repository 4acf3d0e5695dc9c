/-
The hook behind a synchronisation that values the ledgers and the movements in USD.  It walks a
table in batches by ascending `_id`, of the rows that have none of the values yet, and writes the
values that the latest candles give.
-/
import Mathlib.Logic.Function.Basic
import ReportsFramework.CandlePrices
import ReportsFramework.KeysetBatches

namespace ReportsFramework.ConvertCurrencyHook

open CandleCoverage CandlePrices KeysetBatches

/-- A row by its columns of texts and of numbers; `none` is NULL. -/
@[ext]
structure Row where
  text : String → Option String
  num : String → Option ℚ

def Row.set (row : Row) (fieldName : String) (val : Option ℚ) : Row :=
  { row with num := Function.update row.num fieldName val }

structure ConvField where
  inputField : String
  outputField : List String

structure ConvSchema where
  symbolFieldName : String
  dateFieldName : String
  convFields : List ConvField

inductive CollName where
  | ledgers
  | movements
  deriving DecidableEq

/-- `_getConvSchema`. -/
def getConvSchema : CollName → ConvSchema
  | .ledgers =>
      { symbolFieldName := "currency"
        dateFieldName := "mts"
        convFields :=
          [⟨"amount", ["amountUsd"]⟩, ⟨"_nativeBalance", ["balanceUsd", "_nativeBalanceUsd"]⟩] }
  | .movements =>
      { symbolFieldName := "currency"
        dateFieldName := "mtsUpdated"
        convFields := [⟨"amount", ["amountUsd"]⟩] }

def updatedFieldNames (schema : ConvSchema) : List String :=
  schema.convFields.flatMap ConvField.outputField

/-- The rows of a table by their `_id`, which is the primary key. -/
structure Table where
  rows : List (ℕ × Row)
  ascending : Ascending rows
  positive : ∀ e ∈ rows, 0 < e.1

/-- The tables; those of the sync that the hook belongs to may be missing.  `tempCandles` are the
temporary tables of candles of all syncs. -/
structure Db where
  main : CollName → Table
  temp : CollName → Option Table
  candles : List Candle
  tempCandles : List (List Candle)

section Converter

variable (env : Env) (candles : List Candle) (tempCandles : List (List Candle))

/-- `_getCandleClosedPrice` with the temporary tables: the latest of the candles that the tables
give, one each. -/
def candleOfTables (symbol : String) (stop : ℤ) : Option Candle :=
  (newestFirst ((getElemInCollBy candles symbol stop).toList ++
    tempCandles.filterMap fun table => getElemInCollBy table symbol stop)).head?

/-- The price of the currency of a row; the candles are those of all tables, of which the latest
is the one that `candleOfTables` gives. -/
def price (schema : ConvSchema) (item : Row) : Option ℚ :=
  match item.text schema.symbolFieldName with
  | none => none
  | some currency =>
      if currency = "" then none
      else if getConvertingSymb currency = "USD" then some 1
      else
        -- a date that is no integer has no candle
        (item.num schema.dateFieldName).bind fun mts =>
          if mts.den = 1 then
            priceFromDatabase env (candles ++ tempCandles.flatten) currency mts.num
          else none

/-- What a price gives for one of the fields. -/
def convField (price : ℚ) (item : Row) (field : ConvField) : Row :=
  match item.num field.inputField with
  | none => item
  | some input =>
      field.outputField.foldl (fun item fieldName => item.set fieldName (some (input * price)))
        item

/-- `_convertBy` of one row. -/
def convertByCandles (schema : ConvSchema) (item : Row) : Row :=
  match price env candles tempCandles schema item with
  | none => item
  | some price => schema.convFields.foldl (convField price) item

end Converter

/-- The columns of a row are set to those of an object. -/
def Row.assign (row obj : Row) (upPropNames : List String) : Row :=
  { row with num := fun fieldName =>
      if fieldName ∈ upPropNames then obj.num fieldName else row.num fieldName }

/-- `updateElemsInCollBy` by the `_id`, one statement after the other. -/
def updateElemsInCollBy (rows elems : List (ℕ × Row)) (upPropNames : List String) :
    List (ℕ × Row) :=
  elems.foldl
    (fun rows elem =>
      rows.map fun e => if e.1 = elem.1 then (e.1, e.2.assign elem.2 upPropNames) else e)
    rows

/-- `$isNull` of the updated fields. -/
def isUnconverted (schema : ConvSchema) (row : Row) : Bool :=
  (updatedFieldNames schema).all fun fieldName => (row.num fieldName).isNone

/-- The next batch. -/
def getElemsInCollBy (schema : ConvSchema) (limit _id : ℕ) (rows : List (ℕ × Row)) :
    List (ℕ × Row) :=
  (rows.filter fun e => _id < e.1 && isUnconverted schema e.2).take limit

/-- The number of batches after which the hook gives up. -/
def maxCount : ℕ := 1000

/-- The number of rows in a batch. -/
def batchLimit : ℕ := 10000

section Batches

variable (convert : Row → Row)

/-- What is written of a row: ledgers are to be recalculated besides. -/
def convElem : CollName → Row → Row
  | .ledgers, row => (convert row).set "_isBalanceRecalced" none
  | .movements, row => convert row

def upPropNames : CollName → List String
  | .ledgers => updatedFieldNames (getConvSchema .ledgers) ++ ["_isBalanceRecalced"]
  | .movements => updatedFieldNames (getConvSchema .movements)

/-- The loop over the batches, with the number of batches that are left. -/
def convertBatches (collName : CollName) : ℕ → ℕ → List (ℕ × Row) → List (ℕ × Row)
  | 0, _, rows => rows
  | count + 1, _id, rows =>
      let elems := getElemsInCollBy (getConvSchema collName) batchLimit _id rows
      match elems.getLast? with
      | none => rows
      | some last =>
          convertBatches collName count last.1
            (updateElemsInCollBy rows (elems.map fun e => (e.1, convElem convert collName e.2))
              (upPropNames collName))

variable {convert}

/-- The statements of a batch write nothing but what is converted. -/
theorem updateElemsInCollBy_eq {collName : CollName} {rows elems : List (ℕ × Row)}
    (hconvert : ∀ row : Row, row.assign (convElem convert collName row) (upPropNames collName) =
      convElem convert collName row)
    (h : Ascending rows) (helems : Ascending elems) (hrows : ∀ e ∈ elems, e ∈ rows) :
    updateElemsInCollBy rows (elems.map fun e => (e.1, convElem convert collName e.2))
        (upPropNames collName) =
      changeAt (convElem convert collName) (elems.map Prod.fst) rows := by
  have heach : updateEach (fun row obj => row.assign obj (upPropNames collName)) rows
      (elems.map fun e => (e.1, convElem convert collName e.2)) =
        changeAt (convElem convert collName) (elems.map Prod.fst) rows :=
    updateEach_eq_changeAt hconvert h helems hrows
  exact heach

/-- The loop is a walk behind the cursor `_id`. -/
theorem convertBatches_eq_walk {collName : CollName}
    (hconvert : ∀ row : Row, row.assign (convElem convert collName row) (upPropNames collName) =
      convElem convert collName row)
    (count _id : ℕ) {rows : List (ℕ × Row)} (h : Ascending rows) :
    convertBatches convert collName count _id rows =
      walk (isUnconverted (getConvSchema collName)) (convElem convert collName) batchLimit count
        _id rows := by
  induction count generalizing _id rows with
  | zero => rfl
  | succ count ih =>
      have hbatch : getElemsInCollBy (getConvSchema collName) batchLimit _id rows =
          (dueBehind (isUnconverted (getConvSchema collName)) _id rows).take batchLimit := rfl
      have helems : Ascending
          ((dueBehind (isUnconverted (getConvSchema collName)) _id rows).take batchLimit) :=
        (h.dueBehind _id).sublist (List.take_sublist _ _)
      rw [convertBatches, walk, hbatch]
      cases ((dueBehind (isUnconverted (getConvSchema collName)) _id rows).take
          batchLimit).getLast? with
      | none => rfl
      | some last =>
          simp only
          rw [updateElemsInCollBy_eq hconvert h helems fun e he =>
            (mem_dueBehind.mp (List.mem_of_mem_take he)).1]
          exact ih last.1 (ascending_changeAt h _)

end Batches

section Values

/-- No field is read that is written, and none is written twice. -/
structure ConvSchema.IsProper (schema : ConvSchema) : Prop where
  input : ∀ field ∈ schema.convFields, field.inputField ∉ updatedFieldNames schema
  once : schema.convFields.Pairwise fun field field' =>
    ∀ name ∈ field.outputField, name ∉ field'.outputField

theorem getConvSchema_isProper (collName : CollName) : (getConvSchema collName).IsProper := by
  cases collName with
  | ledgers => constructor <;> decide
  | movements => constructor <;> decide

/-- The value that a column has at a price. -/
def Row.atPrice (row : Row) (convFields : List ConvField) (price : ℚ) (name : String) :
    Option ℚ :=
  match convFields.find? fun field => name ∈ field.outputField with
  | none => row.num name
  | some field => ((row.num field.inputField).map (· * price)).or (row.num name)

theorem Row.set_num (row : Row) (fieldName : String) (val : Option ℚ) (name : String) :
    (row.set fieldName val).num name = if name = fieldName then val else row.num name := by
  simp [Row.set, Function.update_apply]

theorem foldl_set (names : List String) (row : Row) (val : Option ℚ) :
    (names.foldl (fun item fieldName => item.set fieldName val) row).text = row.text ∧
      ∀ name, (names.foldl (fun item fieldName => item.set fieldName val) row).num name =
        if name ∈ names then val else row.num name := by
  induction names generalizing row with
  | nil => simp
  | cons first rest ih =>
      obtain ⟨htext, hnum⟩ := ih (row.set first val)
      rw [List.foldl_cons]
      refine ⟨htext, fun name => ?_⟩
      simp only [hnum, Row.set_num, List.mem_cons]
      by_cases hfirst : name = first
      · simp [hfirst]
      · simp [hfirst]

theorem convField_spec (price : ℚ) (item : Row) (field : ConvField) :
    (convField price item field).text = item.text ∧
      ∀ name, (convField price item field).num name =
        if name ∈ field.outputField then
          ((item.num field.inputField).map (· * price)).or (item.num name)
        else item.num name := by
  unfold convField
  cases item.num field.inputField with
  | none => simp
  | some input =>
      obtain ⟨htext, hnum⟩ := foldl_set field.outputField item (some (input * price))
      exact ⟨htext, hnum⟩

/-- The fields are converted as if at once. -/
theorem foldl_convField (price : ℚ) {convFields : List ConvField}
    (hinput : ∀ field ∈ convFields, ∀ field' ∈ convFields, field.inputField ∉ field'.outputField)
    (honce : convFields.Pairwise fun field field' =>
      ∀ name ∈ field.outputField, name ∉ field'.outputField)
    (item : Row) :
    (convFields.foldl (convField price) item).text = item.text ∧
      ∀ name, (convFields.foldl (convField price) item).num name =
        item.atPrice convFields price name := by
  induction convFields generalizing item with
  | nil => simp [Row.atPrice]
  | cons first rest ih =>
      obtain ⟨hfirst, hrest⟩ := List.pairwise_cons.mp honce
      obtain ⟨htext, hnum⟩ := convField_spec price item first
      have hinput' : ∀ field ∈ rest, ∀ field' ∈ rest, field.inputField ∉ field'.outputField :=
        fun field hfield field' hfield' =>
          hinput field (List.mem_cons_of_mem _ hfield) field' (List.mem_cons_of_mem _ hfield')
      obtain ⟨htext', hnum'⟩ := ih hinput' hrest (convField price item first)
      rw [List.foldl_cons]
      refine ⟨htext'.trans htext, fun name => ?_⟩
      rw [hnum', Row.atPrice, Row.atPrice, List.find?_cons]
      by_cases hname : name ∈ first.outputField
      · -- the other fields do not write it
        have hnone : rest.find? (fun field => name ∈ field.outputField) = none := by
          apply List.find?_eq_none.mpr
          intro field hfield hother
          exact hfirst field hfield name hname (of_decide_eq_true hother)
        simp only [hnone, hname, decide_true, hnum, if_true]
      · simp only [hname, decide_false]
        cases hfind : rest.find? (fun field => name ∈ field.outputField) with
        | none => simp only [hnum, hname, if_false]
        | some field =>
            have hread : field.inputField ∉ first.outputField :=
              hinput field (List.mem_cons_of_mem _ (List.mem_of_find?_eq_some hfind)) first
                List.mem_cons_self
            simp only [hnum, hname, hread, if_false]

variable (env : Env) (db : Db) (collName : CollName)

/-- The value that the hook gives to a column. -/
def valueOf (row : Row) (name : String) : Option ℚ :=
  match price env db.candles db.tempCandles (getConvSchema collName) row with
  | none => row.num name
  | some price => row.atPrice (getConvSchema collName).convFields price name

/-- The row as the hook leaves it, if it gets to it. -/
def valuedRow (row : Row) : Row :=
  { row with num := fun name =>
      if collName = .ledgers ∧ name = "_isBalanceRecalced" then none
      else valueOf env db collName row name }

/-- What the loop converts a row to. -/
abbrev convert : Row → Row :=
  convertByCandles env db.candles db.tempCandles (getConvSchema collName)

theorem convertByCandles_spec (row : Row) :
    (convert env db collName row).text = row.text ∧
      ∀ name, (convert env db collName row).num name = valueOf env db collName row name := by
  have hproper := getConvSchema_isProper collName
  unfold convert convertByCandles valueOf
  cases price env db.candles db.tempCandles (getConvSchema collName) row with
  | none => exact ⟨rfl, fun _ => rfl⟩
  | some price =>
      apply foldl_convField price _ hproper.once
      intro field hfield field' hfield' hwritten
      exact hproper.input field hfield (List.mem_flatMap.mpr ⟨field', hfield', hwritten⟩)

theorem convElem_eq_valuedRow (row : Row) :
    convElem (convert env db collName) collName row = valuedRow env db collName row := by
  obtain ⟨htext, hnum⟩ := convertByCandles_spec env db collName row
  cases collName with
  | ledgers =>
      apply Row.ext
      · exact htext
      · funext name
        rw [convElem, Row.set_num, hnum]
        simp [valuedRow]
  | movements =>
      apply Row.ext
      · exact htext
      · funext name
        rw [convElem, hnum]
        simp [valuedRow]

/-- Only the updated columns are given other values. -/
theorem valueOf_of_notMem {row : Row} {name : String}
    (h : name ∉ updatedFieldNames (getConvSchema collName)) :
    valueOf env db collName row name = row.num name := by
  have hnone : (getConvSchema collName).convFields.find? (fun field => name ∈ field.outputField) =
      none := by
    apply List.find?_eq_none.mpr
    intro field hfield hname
    exact h (List.mem_flatMap.mpr ⟨field, hfield, of_decide_eq_true hname⟩)
  unfold valueOf Row.atPrice
  rw [hnone]
  cases price env db.candles db.tempCandles (getConvSchema collName) row with
  | none => rfl
  | some price => rfl

theorem assign_convElem (row : Row) :
    row.assign (convElem (convert env db collName) collName row) (upPropNames collName) =
      convElem (convert env db collName) collName row := by
  rw [convElem_eq_valuedRow]
  apply Row.ext
  · rfl
  · funext name
    simp only [Row.assign, valuedRow]
    by_cases hname : name ∈ upPropNames collName
    · rw [if_pos hname]
    · have hupdated : name ∉ updatedFieldNames (getConvSchema collName) := by
        intro hmem
        cases collName with
        | ledgers => exact hname (List.mem_append_left _ hmem)
        | movements => exact hname hmem
      rw [if_neg hname, valueOf_of_notMem env db collName hupdated, if_neg]
      rintro ⟨rfl, rfl⟩
      exact hname (by decide)

end Values

section Candles

/-- The later of two candles that may be missing, the first one if they are of one time. -/
def later : Option Candle → Option Candle → Option Candle
  | none, candle => candle
  | some candle, none => some candle
  | some candle, some candle' => if candle'.mts ≤ candle.mts then some candle else some candle'

theorem later_none (candle : Option Candle) : later candle none = candle := by
  cases candle <;> rfl

theorem later_assoc (candle candle' candle'' : Option Candle) :
    later (later candle candle') candle'' = later candle (later candle' candle'') := by
  rcases candle with _ | c
  · rfl
  rcases candle' with _ | c'
  · rfl
  rcases candle'' with _ | c''
  · rw [later_none, later_none]
  simp only [later]
  by_cases h : c'.mts ≤ c.mts
  · by_cases h' : c''.mts ≤ c'.mts
    · simp [h, h', h'.trans h]
    · simp [h, h']
  · by_cases h' : c''.mts ≤ c'.mts
    · simp [h, h']
    · have hlt : ¬ c''.mts ≤ c.mts := by omega
      simp [h, h', hlt]

theorem head?_newestFirst_cons (candle : Candle) (candles : List Candle) :
    (newestFirst (candle :: candles)).head? = later (some candle) (newestFirst candles).head? := by
  unfold newestFirst
  rw [List.insertionSort_cons]
  cases candles.insertionSort fun c d => d.mts ≤ c.mts with
  | nil => rfl
  | cons first rest =>
      rw [List.orderedInsert]
      simp only [List.head?_cons, later]
      split_ifs <;> rfl

theorem head?_newestFirst_append (candles candles' : List Candle) :
    (newestFirst (candles ++ candles')).head? =
      later (newestFirst candles).head? (newestFirst candles').head? := by
  induction candles with
  | nil => rfl
  | cons candle candles ih =>
      rw [List.cons_append, head?_newestFirst_cons, head?_newestFirst_cons, ih, later_assoc]

theorem head?_newestFirst_toList (candle : Option Candle) (candles : List Candle) :
    (newestFirst (candle.toList ++ candles)).head? = later candle (newestFirst candles).head? := by
  cases candle with
  | none => rfl
  | some candle => exact head?_newestFirst_cons candle candles

/-- The latest of the candles that the tables give is the latest of all tables. -/
theorem candleOfTables_eq (candles : List Candle) (tempCandles : List (List Candle))
    (symbol : String) (stop : ℤ) :
    candleOfTables candles tempCandles symbol stop =
      getElemInCollBy (candles ++ tempCandles.flatten) symbol stop := by
  have htemp : (newestFirst (tempCandles.filterMap fun table =>
      getElemInCollBy table symbol stop)).head? =
        getElemInCollBy tempCandles.flatten symbol stop := by
    induction tempCandles with
    | nil => rfl
    | cons table tables ih =>
        have hcons : (table :: tables).filterMap (fun table => getElemInCollBy table symbol stop) =
            (getElemInCollBy table symbol stop).toList ++
              tables.filterMap fun table => getElemInCollBy table symbol stop := by
          rw [List.filterMap_cons]
          cases getElemInCollBy table symbol stop <;> rfl
        rw [hcons, head?_newestFirst_toList, ih, List.flatten_cons]
        unfold getElemInCollBy
        rw [List.filter_append, head?_newestFirst_append]
  rw [candleOfTables, head?_newestFirst_toList, htemp]
  unfold getElemInCollBy
  rw [List.filter_append, head?_newestFirst_append]

end Candles

section Execute

/-- The table once the loop is through. -/
def convertTable (env : Env) (db : Db) (collName : CollName) (table : Table) : Table where
  rows := convertBatches (convert env db collName) collName maxCount 0 table.rows
  ascending := by
    rw [convertBatches_eq_walk (assign_convElem env db collName) _ _ table.ascending,
      walk_eq_changeAt (by decide) table.ascending]
    exact ascending_changeAt table.ascending _
  positive := by
    rw [convertBatches_eq_walk (assign_convElem env db collName) _ _ table.ascending,
      walk_eq_changeAt (by decide) table.ascending]
    intro e he
    obtain ⟨e', he', rfl⟩ := List.mem_map.mp he
    have hpos : 0 < e'.1 := table.positive e' he'
    split_ifs <;> exact hpos

/-- The options of the hook; it uses the temporary tables if it has an id of a sync. -/
structure Opts where
  syncColls : List String
  shouldTempTableBeUsed : Bool

def CollName.name : CollName → String
  | .ledgers => "ledgers"
  | .movements => "movements"

/-- There is nothing to convert after a sync of these collections. -/
def Opts.isIrrelevant (opts : Opts) : Bool :=
  opts.syncColls.all fun name => name ≠ "_ALL" && name ≠ "candles" && name ≠ "ledgers"

def isSkipped (names : List String) (collName : CollName) : Bool :=
  0 < names.length && names.all fun name => name = "" || name ≠ collName.name

def Db.table (isTemp : Bool) (db : Db) (collName : CollName) : Option Table :=
  if isTemp then db.temp collName else some (db.main collName)

def Db.setTable (isTemp : Bool) (db : Db) (collName : CollName) (table : Table) : Db :=
  if isTemp then { db with temp := Function.update db.temp collName (some table) }
  else { db with main := Function.update db.main collName table }

/-- The loop over the collections. -/
def executeColls (env : Env) (isTemp : Bool) (names : List String) : List CollName → Db → Db
  | [], db => db
  | collName :: collNames, db =>
      if isSkipped names collName then executeColls env isTemp names collNames db
      else
        match db.table isTemp collName with
        -- without the table the hook returns
        | none => db
        | some table =>
            executeColls env isTemp names collNames
              (db.setTable isTemp collName (convertTable env db collName table))

def execute (env : Env) (opts : Opts) (names : List String) (db : Db) : Db :=
  if opts.isIrrelevant then db
  else executeColls env opts.shouldTempTableBeUsed names [.ledgers, .movements] db

end Execute

section OnePass

/-- How many rows the batches may take. -/
def maxRows : ℕ := maxCount * batchLimit

/-- A row without values, with fewer such rows before it than the batches may take. -/
def IsReached (schema : ConvSchema) (rows : List (ℕ × Row)) (e : ℕ × Row) : Prop :=
  isUnconverted schema e.2 = true ∧
    (rows.filter fun e' => e'.1 < e.1 && isUnconverted schema e'.2).length < maxRows

instance (schema : ConvSchema) (rows : List (ℕ × Row)) (e : ℕ × Row) :
    Decidable (IsReached schema rows e) := by
  unfold IsReached
  infer_instance

/-- The rows of a table after one pass without batches. -/
def valuedRows (env : Env) (db : Db) (collName : CollName) (rows : List (ℕ × Row)) :
    List (ℕ × Row) :=
  rows.map fun e =>
    if IsReached (getConvSchema collName) rows e then (e.1, valuedRow env db collName e.2) else e

theorem convertTable_rows (env : Env) (db : Db) (collName : CollName) (table : Table) :
    (convertTable env db collName table).rows = valuedRows env db collName table.rows := by
  unfold convertTable valuedRows
  simp only
  rw [convertBatches_eq_walk (assign_convElem env db collName) _ _ table.ascending,
    walk_eq_map (by decide) table.ascending]
  apply List.map_congr_left
  intro e he
  have hbefore : (dueBehind (isUnconverted (getConvSchema collName)) 0 table.rows).filter
      (fun e' => e'.1 < e.1) =
      table.rows.filter fun e' => e'.1 < e.1 && isUnconverted (getConvSchema collName) e'.2 := by
    unfold dueBehind
    rw [List.filter_filter]
    apply List.filter_congr
    intro e' he'
    simp [table.positive e' he']
  have hreached : ((0 < e.1 ∧ isUnconverted (getConvSchema collName) e.2 = true) ∧
      ((dueBehind (isUnconverted (getConvSchema collName)) 0 table.rows).filter
        fun e' => e'.1 < e.1).length < maxCount * batchLimit) ↔
      IsReached (getConvSchema collName) table.rows e := by
    rw [hbefore, IsReached, maxRows]
    simp only [table.positive e he, true_and]
  simp only [hreached, convElem_eq_valuedRow]

/-- The collections that are converted: those that are not skipped, up to the first without a
table. -/
def convertedColls (isTemp : Bool) (names : List String) (db : Db) (collNames : List CollName) :
    List CollName :=
  (collNames.filter fun collName => !isSkipped names collName).takeWhile fun collName =>
    (db.table isTemp collName).isSome

theorem Db.table_setTable (isTemp isTemp' : Bool) (db : Db) (collName collName' : CollName)
    (table : Table) :
    (db.setTable isTemp collName table).table isTemp' collName' =
      if isTemp' = isTemp ∧ collName' = collName then some table
      else db.table isTemp' collName' := by
  unfold Db.setTable Db.table
  by_cases hname : collName' = collName
  · cases isTemp <;> cases isTemp' <;> simp [hname]
  · cases isTemp <;> cases isTemp' <;> simp [hname]

/-- The values depend on the candles only. -/
theorem valuedRows_setTable (env : Env) (isTemp : Bool) (db : Db) (collName collName' : CollName)
    (table : Table) (rows : List (ℕ × Row)) :
    valuedRows env (db.setTable isTemp collName table) collName' rows =
      valuedRows env db collName' rows := by
  unfold Db.setTable
  cases isTemp <;> rfl

/-- Tables of other collections are there or not as before. -/
theorem convertedColls_setTable (isTemp : Bool) (names : List String) (db : Db)
    {collName : CollName} (table : Table) {collNames : List CollName}
    (h : collName ∉ collNames) :
    convertedColls isTemp names (db.setTable isTemp collName table) collNames =
      convertedColls isTemp names db collNames := by
  induction collNames with
  | nil => rfl
  | cons first rest ih =>
      rw [List.mem_cons, not_or] at h
      obtain ⟨hfirst, hrest⟩ := h
      have hsame : (db.setTable isTemp collName table).table isTemp first =
          db.table isTemp first := by
        rw [Db.table_setTable, if_neg]
        exact fun hname => hfirst hname.2.symm
      unfold convertedColls at ih ⊢
      rw [List.filter_cons]
      split_ifs
      · rw [List.takeWhile_cons, List.takeWhile_cons, ih hrest, hsame]
      · exact ih hrest

/-- The collections are converted one after the other, until a table is missing. -/
theorem executeColls_table (env : Env) (isTemp : Bool) (names : List String) (db : Db)
    {collNames : List CollName} (hnodup : collNames.Nodup) (isTemp' : Bool)
    (collName : CollName) :
    ((executeColls env isTemp names collNames db).table isTemp' collName).map Table.rows =
      (db.table isTemp' collName).map fun table =>
        if isTemp' = isTemp ∧ collName ∈ convertedColls isTemp names db collNames then
          valuedRows env db collName table.rows
        else table.rows := by
  induction collNames generalizing db with
  | nil => simp [executeColls, convertedColls]
  | cons first rest ih =>
      obtain ⟨hfirst, hrest⟩ := List.nodup_cons.mp hnodup
      rw [executeColls, convertedColls, List.filter_cons]
      by_cases hskipped : isSkipped names first = true
      · rw [if_pos hskipped, if_neg (by simp [hskipped]), ih db hrest]
        rfl
      rw [if_neg hskipped, if_pos (by simpa using hskipped), List.takeWhile_cons]
      cases htable : db.table isTemp first with
      | none => simp
      | some table =>
          simp only [Option.isSome_some, if_true]
          rw [ih _ hrest, convertedColls_setTable isTemp names db _ hfirst, Db.table_setTable]
          by_cases hsame : isTemp' = isTemp ∧ collName = first
          · obtain ⟨rfl, rfl⟩ := hsame
            have hnot : collName ∉ convertedColls isTemp' names db rest := by
              intro hmem
              exact hfirst (List.mem_of_mem_filter ((List.takeWhile_sublist _).subset hmem))
            simp [hnot, htable, convertTable_rows]
          · rw [if_neg hsame]
            have hcons : (isTemp' = isTemp ∧ collName ∈
                first :: convertedColls isTemp names db rest) ↔
                isTemp' = isTemp ∧ collName ∈ convertedColls isTemp names db rest := by
              rw [List.mem_cons]
              tauto
            rw [← convertedColls]
            simp only [hcons, valuedRows_setTable]

/-- The batches of the hook come to one pass over each table that it converts, and the other
tables stay as they are. -/
theorem execute_table (env : Env) (opts : Opts) (names : List String) (db : Db) (isTemp : Bool)
    (collName : CollName) :
    ((execute env opts names db).table isTemp collName).map Table.rows =
      (db.table isTemp collName).map fun table =>
        if (isTemp = opts.shouldTempTableBeUsed ∧ opts.isIrrelevant = false) ∧ collName ∈
            convertedColls opts.shouldTempTableBeUsed names db [.ledgers, .movements] then
          valuedRows env db collName table.rows
        else table.rows := by
  unfold execute
  by_cases hirrelevant : opts.isIrrelevant = true
  · simp [hirrelevant]
  · rw [if_neg hirrelevant, executeColls_table env _ names db (by decide)]
    simp [hirrelevant]

end OnePass

end ReportsFramework.ConvertCurrencyHook
