/-
`editPublicCollsConf`: the stored configurations of a user under one name become the requested
ones, by rows inserted, rows removed and rows whose start is set.
-/
import ReportsFramework.FirstOccurrence
import ReportsFramework.SqlTable

namespace ReportsFramework

open Occurrence

namespace PublicCollsConfAccessors

inductive ConfName
  | candlesConf
  | statusMessagesConf
  | tickersHistoryConf
  | publicTradesConf
deriving DecidableEq, Repr

def isCandlesConfs (confName : ConfName) : Bool :=
  confName = .candlesConf

/-- What of an element is compared; `none` where it is not there. -/
structure ConfKey where
  symbol : Option String
  timeframe : Option String
deriving DecidableEq, Repr

def isUniqueConf (confName : ConfName) (confs : List ConfKey) (currConf : ConfKey) : Bool :=
  confs.all fun conf => conf.symbol ≠ currConf.symbol ||
    (isCandlesConfs confName && conf.timeframe ≠ currConf.timeframe)

def hasConf (confName : ConfName) (confs : List ConfKey) (currConf : ConfKey) : Bool :=
  confs.any fun conf => conf.symbol = currConf.symbol &&
    (!isCandlesConfs confName || conf.timeframe = currConf.timeframe)

/-- A requested configuration. -/
structure Conf where
  symbol : String
  start : ℤ
  timeframe : Option String
deriving DecidableEq, Repr

def Conf.confKey (conf : Conf) : ConfKey := ⟨conf.symbol, conf.timeframe⟩

/-- The requests that are valid: candles have a time frame, and only they. -/
def Params (confName : ConfName) : Type :=
  { data : List Conf // ∀ conf ∈ data, conf.timeframe.isSome = isCandlesConfs confName }

structure ConfRow where
  confName : ConfName
  symbol : String
  start : ℤ
  timeframe : Option String
  user_id : ℤ
deriving DecidableEq, Repr

namespace ConfRow

def confKey (row : ConfRow) : ConfKey := ⟨row.symbol, row.timeframe⟩

/-- The unique index; a row without a time frame is not in it. -/
def index (row : ConfRow) : Option (String × ℤ × ConfName × String) :=
  row.timeframe.map fun timeframe => (row.symbol, row.user_id, row.confName, timeframe)

end ConfRow

abbrev ConfTable := Sql.Table ConfRow.index

/-- Whether a row is of the user and the name. -/
def isOf (confName : ConfName) (user_id : ℤ) (row : ConfRow) : Bool :=
  row.confName = confName && row.user_id = user_id

/-- The rows of the user and the name, with their ids; their order is not used. -/
def storedConf (confName : ConfName) (user_id : ℤ) (table : ConfTable) : List (ℕ × ConfRow) :=
  table.rows.filter fun e => isOf confName user_id e.2

/-- What is inserted for a requested configuration. -/
def newRow (confName : ConfName) (user_id : ℤ) (curr : Conf) : ConfRow where
  confName := confName
  symbol := curr.symbol
  start := curr.start
  timeframe := if isCandlesConfs confName then curr.timeframe else none
  user_id := user_id

section Edit

variable (confName : ConfName) (user_id : ℤ)

def newData (conf : List (ℕ × ConfRow)) (data : List Conf) : List ConfRow :=
  data.foldl (fun accum curr =>
    if isUniqueConf confName (conf.map fun e => e.2.confKey) curr.confKey &&
        isUniqueConf confName (accum.map ConfRow.confKey) curr.confKey then
      accum ++ [newRow confName user_id curr]
    else accum) []

/-- An id that was collected has neither a symbol nor a time frame. -/
def removedIds (conf : List (ℕ × ConfRow)) (data : List Conf) : List ℕ :=
  conf.foldl (fun accum curr =>
    if isUniqueConf confName (data.map Conf.confKey) curr.2.confKey &&
        isUniqueConf confName (accum.map fun _ => ⟨none, none⟩) curr.2.confKey then
      accum ++ [curr.1]
    else accum) []

def updatedData (conf : List (ℕ × ConfRow)) (data : List Conf) : List Conf :=
  data.foldl (fun accum curr =>
    if hasConf confName (conf.map fun e => e.2.confKey) curr.confKey &&
        isUniqueConf confName (accum.map Conf.confKey) curr.confKey then
      accum ++ [curr]
    else accum) []

/-- The filter of an update, `none` where a property of it is missing. -/
def updateFilter (obj : Conf) : Option (ConfRow → Bool) :=
  if isCandlesConfs confName then
    obj.timeframe.map fun timeframe row =>
      isOf confName user_id row && row.symbol = obj.symbol && row.timeframe = some timeframe
  else some fun row => isOf confName user_id row && row.symbol = obj.symbol

def setStart (start : ℤ) (row : ConfRow) : ConfRow := { row with start := start }

theorem index_setStart (start : ℤ) (row : ConfRow) : (setStart start row).index = row.index := rfl

inductive EditError
  | uniqueConstraint
  | objectMapping
deriving DecidableEq, Repr

/-- All updates are prepared before the first one is made. -/
def updateElemsInCollBy (table : ConfTable) (data : List Conf) : Option ConfTable :=
  (data.mapM fun obj => (updateFilter confName user_id obj).map fun filter =>
      (filter, obj.start)).map fun updates =>
    updates.foldl (fun table update =>
      table.updateWhere update.1 (setStart update.2) (index_setStart update.2)) table

/-- The table after the edit, and what the edit comes to. -/
def editPublicCollsConf (table : ConfTable) (data : List Conf) :
    ConfTable × Except EditError Unit :=
  let conf := storedConf confName user_id table
  match table.insertAll? (newData confName user_id conf data) with
  | none => (table, .error .uniqueConstraint)
  | some inserted =>
      let removed := inserted.deleteWhere fun e =>
        isOf confName user_id e.2 && (removedIds confName conf data).contains e.1
      match updateElemsInCollBy confName user_id removed (updatedData confName conf data) with
      | none => (removed, .error .objectMapping)
      | some updated => (updated, .ok ())

/-- `pick` of the properties that a configuration is made of. -/
def pickConf (symbol : String) (start : ℤ) (timeframe : Option String) : Conf where
  symbol := symbol
  start := start
  timeframe := if isCandlesConfs confName then timeframe else none

/-- The configurations; a filter that is empty is none. -/
def getPublicCollsConf (symbol : List String) (timeframe : Option String) (table : ConfTable) :
    List Conf :=
  ((storedConf confName user_id table).filter fun e =>
    (symbol.isEmpty || symbol.contains e.2.symbol) &&
      timeframe.all fun timeframe => timeframe = "" || e.2.timeframe = some timeframe).map fun e =>
    pickConf e.2.confName e.2.symbol e.2.start e.2.timeframe

end Edit

/-! ### The identity of a configuration -/

/-- The symbol, and for candles the time frame. -/
def confId (confName : ConfName) (key : ConfKey) : Option String × Option String :=
  (key.symbol, if isCandlesConfs confName then key.timeframe else none)

section Identity

variable {confName : ConfName}

theorem confId_eq_iff {key key' : ConfKey} :
    confId confName key = confId confName key' ↔
      key.symbol = key'.symbol ∧
        (isCandlesConfs confName = true → key.timeframe = key'.timeframe) := by
  cases h : isCandlesConfs confName <;> simp [confId, h]

theorem isUniqueConf_iff {confs : List ConfKey} {currConf : ConfKey} :
    isUniqueConf confName confs currConf = true ↔
      ∀ conf ∈ confs, confId confName conf ≠ confId confName currConf := by
  simp only [isUniqueConf, List.all_eq_true, ne_eq, confId_eq_iff]
  cases isCandlesConfs confName <;> simp [imp_iff_not_or]

theorem hasConf_iff {confs : List ConfKey} {currConf : ConfKey} :
    hasConf confName confs currConf = true ↔
      ∃ conf ∈ confs, confId confName conf = confId confName currConf := by
  simp only [hasConf, List.any_eq_true, confId_eq_iff]
  cases isCandlesConfs confName <;> simp

/-- The identity that a requested configuration has under the name. -/
def dataId (confName : ConfName) (conf : Conf) : Option String × Option String :=
  confId confName conf.confKey

/-- The identity that a row has under the name. -/
def rowId (confName : ConfName) (row : ConfRow) : Option String × Option String :=
  confId confName row.confKey

theorem rowId_newRow (user_id : ℤ) (conf : Conf) : rowId confName (newRow confName user_id conf) =
    dataId confName conf := by
  cases h : isCandlesConfs confName <;>
    simp [rowId, dataId, confId, newRow, ConfRow.confKey, Conf.confKey, h]

/-- Whether a row is stored under the identity. -/
def IsStored (confName : ConfName) (conf : List (ℕ × ConfRow))
    (id : Option String × Option String) : Prop :=
  ∃ e ∈ conf, rowId confName e.2 = id

instance instDecidableIsStored (confName : ConfName) (conf : List (ℕ × ConfRow))
    (id : Option String × Option String) : Decidable (IsStored confName conf id) :=
  inferInstanceAs (Decidable (∃ e ∈ conf, rowId confName e.2 = id))

/-- Whether a configuration is requested under the identity. -/
def IsRequested (confName : ConfName) (data : List Conf) (id : Option String × Option String) :
    Prop :=
  ∃ c ∈ data, dataId confName c = id

instance instDecidableIsRequested (confName : ConfName) (data : List Conf)
    (id : Option String × Option String) : Decidable (IsRequested confName data id) :=
  inferInstanceAs (Decidable (∃ c ∈ data, dataId confName c = id))

theorem isUniqueConf_map {α : Type*} (key : α → ConfKey) (xs : List α) (currConf : ConfKey) :
    isUniqueConf confName (xs.map key) currConf =
      xs.all fun x => confId confName (key x) ≠ confId confName currConf := by
  rw [Bool.eq_iff_iff, isUniqueConf_iff]
  simp

theorem hasConf_stored (conf : List (ℕ × ConfRow)) (c : Conf) :
    hasConf confName (conf.map fun e => e.2.confKey) c.confKey =
      decide (IsStored confName conf (dataId confName c)) := by
  rw [Bool.eq_iff_iff, hasConf_iff, decide_eq_true_eq]
  constructor
  · rintro ⟨key, hkey, hid⟩
    obtain ⟨e, he, rfl⟩ := List.mem_map.mp hkey
    exact ⟨e, he, hid⟩
  · rintro ⟨e, he, hid⟩
    exact ⟨e.2.confKey, List.mem_map_of_mem he, hid⟩

theorem isUniqueConf_stored (conf : List (ℕ × ConfRow)) (c : Conf) :
    isUniqueConf confName (conf.map fun e => e.2.confKey) c.confKey =
      decide (¬ IsStored confName conf (dataId confName c)) := by
  rw [Bool.eq_iff_iff, isUniqueConf_iff, decide_eq_true_eq]
  constructor
  · rintro hunique ⟨e, he, hid⟩
    exact hunique e.2.confKey (List.mem_map_of_mem he) hid
  · intro hnew key hkey hid
    obtain ⟨e, he, rfl⟩ := List.mem_map.mp hkey
    exact hnew ⟨e, he, hid⟩

theorem isUniqueConf_requested (data : List Conf) (row : ConfRow) :
    isUniqueConf confName (data.map Conf.confKey) row.confKey =
      decide (¬ IsRequested confName data (rowId confName row)) := by
  rw [Bool.eq_iff_iff, isUniqueConf_iff, decide_eq_true_eq, List.forall_mem_map]
  constructor
  · rintro hunique ⟨c, hc, hid⟩
    exact hunique c hc hid
  · intro hnew c hc hid
    exact hnew ⟨c, hc, hid⟩

variable (confName) (conf : List (ℕ × ConfRow)) (data : List Conf)

/-! ### What is updated, inserted and removed -/

theorem updatedData_eq :
    updatedData confName conf data = data.foldl
      (addFirst (dataId confName) fun c => IsStored confName conf (dataId confName c)) [] := by
  unfold updatedData
  congr 1
  funext accum curr
  rw [hasConf_stored, isUniqueConf_map]
  rfl

theorem mem_updatedData {c : Conf} :
    c ∈ updatedData confName conf data ↔
      IsStored confName conf (dataId confName c) ∧ IsFirst (dataId confName) data c := by
  rw [updatedData_eq, mem_foldl_addFirst]
  · simp
  · intro a b hab
    simp only [hab]

theorem newData_eq (user_id : ℤ) :
    newData confName user_id conf data = (data.foldl
      (addFirst (dataId confName) fun c => ¬ IsStored confName conf (dataId confName c))
        []).map (newRow confName user_id) := by
  have hfold (accum : List Conf) :
      data.foldl (fun accum curr =>
        if isUniqueConf confName (conf.map fun e => e.2.confKey) curr.confKey &&
            isUniqueConf confName (accum.map ConfRow.confKey) curr.confKey then
          accum ++ [newRow confName user_id curr]
        else accum) (accum.map (newRow confName user_id)) =
      (data.foldl (addFirst (dataId confName) fun c =>
        ¬ IsStored confName conf (dataId confName c)) accum).map (newRow confName user_id) := by
    induction data generalizing accum with
    | nil => rfl
    | cons curr data ih =>
        rw [List.foldl_cons, List.foldl_cons, ← ih]
        congr 1
        rw [isUniqueConf_stored, isUniqueConf_map, List.all_map]
        have hids : ((fun row => decide (confId confName row.confKey ≠
              confId confName curr.confKey)) ∘ newRow confName user_id) =
            fun c => decide (dataId confName c ≠ dataId confName curr) := by
          funext c
          exact congrArg (fun id => decide (id ≠ dataId confName curr)) (rowId_newRow user_id c)
        rw [hids]
        unfold addFirst
        split_ifs with hadd
        · rw [List.map_append, List.map_singleton]
        · rfl
  exact hfold []

theorem mem_newData {user_id : ℤ} {row : ConfRow} :
    row ∈ newData confName user_id conf data ↔
      ∃ c, ¬ IsStored confName conf (dataId confName c) ∧ IsFirst (dataId confName) data c ∧
        newRow confName user_id c = row := by
  rw [newData_eq, List.mem_map]
  have hmem (c : Conf) := mem_foldl_addFirst (dataId confName)
    (fun c => ¬ IsStored confName conf (dataId confName c)) data
    (by intro a b hab; simp only [hab]) [] c
  simp only [hmem]
  simp [and_assoc]

theorem pairwise_newData (user_id : ℤ) :
    (newData confName user_id conf data).Pairwise fun row row' =>
      rowId confName row ≠ rowId confName row' := by
  rw [newData_eq, List.pairwise_map]
  have hnil : (([] : List Conf).map (dataId confName)).Nodup := List.nodup_nil
  have hnodup := nodup_foldl_addFirst (dataId confName)
    (fun c => ¬ IsStored confName conf (dataId confName c)) data hnil
  refine (List.pairwise_map.mp hnodup).imp ?_
  intro c c' hne
  rw [rowId_newRow, rowId_newRow]
  exact hne

theorem removedIds_eq :
    removedIds confName conf data =
      (conf.filter fun e => ¬ IsRequested confName data (rowId confName e.2)).map Prod.fst := by
  have hfold (accum : List ℕ) :
      conf.foldl (fun accum curr =>
        if isUniqueConf confName (data.map Conf.confKey) curr.2.confKey &&
            isUniqueConf confName (accum.map fun _ => ⟨none, none⟩) curr.2.confKey then
          accum ++ [curr.1]
        else accum) accum =
      accum ++ (conf.filter fun e =>
        ¬ IsRequested confName data (rowId confName e.2)).map Prod.fst := by
    induction conf generalizing accum with
    | nil => simp
    | cons curr conf ih =>
        -- an id that was collected equals no configuration
        have hids : isUniqueConf confName (accum.map fun _ => ⟨none, none⟩) curr.2.confKey =
            true := by
          rw [isUniqueConf_iff]
          intro key hkey
          obtain ⟨_, _, rfl⟩ := List.mem_map.mp hkey
          simp [confId, ConfRow.confKey]
        rw [List.foldl_cons, ih, hids, isUniqueConf_requested, Bool.and_true, List.filter_cons]
        split_ifs
        · rw [List.map_cons, List.append_assoc]
          rfl
        · rfl
  exact hfold []

end Identity

/-! ### What is read -/

section Read

variable {confName : ConfName} {user_id : ℤ}

theorem mem_getPublicCollsConf {symbol : List String} {timeframe : Option String}
    {table : ConfTable} {c : Conf} :
    c ∈ getPublicCollsConf confName user_id symbol timeframe table ↔
      ∃ e ∈ table.rows, isOf confName user_id e.2 = true ∧
        (symbol = [] ∨ e.2.symbol ∈ symbol) ∧
        (∀ t ∈ timeframe, t = "" ∨ e.2.timeframe = some t) ∧
        pickConf confName e.2.symbol e.2.start e.2.timeframe = c := by
  have hname {row : ConfRow} (hof : isOf confName user_id row = true) :
      row.confName = confName := by
    simp only [isOf, Bool.and_eq_true, decide_eq_true_eq] at hof
    exact hof.1
  have hfilter (e : ℕ × ConfRow) :
      ((symbol.isEmpty || symbol.contains e.2.symbol) &&
        timeframe.all fun t => t = "" || e.2.timeframe = some t) = true ↔
      (symbol = [] ∨ e.2.symbol ∈ symbol) ∧
        ∀ t ∈ timeframe, t = "" ∨ e.2.timeframe = some t := by
    cases timeframe <;> simp
  unfold getPublicCollsConf storedConf
  rw [List.mem_map]
  constructor
  · rintro ⟨e, he, rfl⟩
    obtain ⟨hstored, hwanted⟩ := List.mem_filter.mp he
    obtain ⟨hmem, hof⟩ := List.mem_filter.mp hstored
    obtain ⟨hsymbol, htimeframe⟩ := (hfilter e).mp hwanted
    exact ⟨e, hmem, hof, hsymbol, htimeframe, by rw [hname hof]⟩
  · rintro ⟨e, hmem, hof, hsymbol, htimeframe, rfl⟩
    refine ⟨e, List.mem_filter.mpr ⟨List.mem_filter.mpr ⟨hmem, hof⟩, ?_⟩, by rw [hname hof]⟩
    exact (hfilter e).mpr ⟨hsymbol, htimeframe⟩

end Read

/-! ### What the updates do to a row -/

section Update

variable (confName : ConfName) (user_id : ℤ)

/-- An update of one row. -/
def updateRow (row : ConfRow) (obj : Conf) : ConfRow :=
  if isOf confName user_id row && rowId confName row = dataId confName obj then
    setStart obj.start row
  else row

theorem exists_updateFilter {obj : Conf}
    (hvalid : obj.timeframe.isSome = isCandlesConfs confName) :
    ∃ filter, updateFilter confName user_id obj = some filter ∧
      ∀ row, filter row =
        (isOf confName user_id row && rowId confName row = dataId confName obj) := by
  cases hcandles : isCandlesConfs confName with
  | true =>
      rw [hcandles] at hvalid
      obtain ⟨timeframe, htimeframe⟩ := Option.isSome_iff_exists.mp hvalid
      refine ⟨_, by rw [updateFilter, hcandles, if_pos rfl, htimeframe, Option.map_some], ?_⟩
      intro row
      rw [Bool.and_assoc]
      congr 1
      simp [rowId, dataId, confId, ConfRow.confKey, Conf.confKey, hcandles, htimeframe]
  | false =>
      refine ⟨_, by rw [updateFilter, hcandles, if_neg Bool.false_ne_true], ?_⟩
      intro row
      congr 1
      simp [rowId, dataId, confId, ConfRow.confKey, Conf.confKey, hcandles]

theorem updateElemsInCollBy_spec (table : ConfTable) {data : List Conf}
    (hvalid : ∀ c ∈ data, c.timeframe.isSome = isCandlesConfs confName) :
    ∃ updated, updateElemsInCollBy confName user_id table data = some updated ∧
      updated.rows = table.rows.map fun e =>
        (e.1, data.foldl (updateRow confName user_id) e.2) := by
  induction data generalizing table with
  | nil => exact ⟨table, rfl, by simp⟩
  | cons obj data ih =>
      obtain ⟨filter, hfilter, hmatch⟩ :=
        exists_updateFilter confName user_id (hvalid obj List.mem_cons_self)
      obtain ⟨updated, hupdated, hrows⟩ :=
        ih (table.updateWhere filter (setStart obj.start) (index_setStart obj.start))
          fun c hc => hvalid c (List.mem_cons_of_mem obj hc)
      refine ⟨updated, ?_, ?_⟩
      · rw [← hupdated]
        unfold updateElemsInCollBy
        rw [List.mapM_cons, hfilter]
        cases data.mapM fun obj => (updateFilter confName user_id obj).map fun filter =>
            (filter, obj.start) with
        | none => rfl
        | some updates => rfl
      · rw [hrows, Sql.Table.rows_updateWhere, List.map_map]
        apply List.map_congr_left
        intro e _
        simp only [Function.comp_apply, List.foldl_cons, updateRow, hmatch]

theorem exists_foldl_updateRow (data : List Conf) (row : ConfRow) :
    ∃ start, data.foldl (updateRow confName user_id) row = setStart start row := by
  induction data generalizing row with
  | nil => exact ⟨row.start, rfl⟩
  | cons obj data ih =>
      obtain ⟨start, hstart⟩ := ih (updateRow confName user_id row obj)
      refine ⟨start, ?_⟩
      rw [List.foldl_cons, hstart, updateRow]
      split_ifs <;> rfl

variable {confName user_id}

theorem foldl_updateRow_of_start {data : List Conf} {row : ConfRow}
    (hsame : isOf confName user_id row = true → ∀ c ∈ data,
      rowId confName row = dataId confName c → c.start = row.start) :
    data.foldl (updateRow confName user_id) row = row := by
  induction data with
  | nil => rfl
  | cons obj data ih =>
      have hstep : updateRow confName user_id row obj = row := by
        unfold updateRow
        split_ifs with hmatch
        · simp only [Bool.and_eq_true, decide_eq_true_eq] at hmatch
          rw [hsame hmatch.1 obj List.mem_cons_self hmatch.2]
          rfl
        · rfl
      rw [List.foldl_cons, hstep]
      exact ih fun hof c hc => hsame hof c (List.mem_cons_of_mem obj hc)

/-- The only update of a row sets its start. -/
theorem foldl_updateRow_of_mem {data : List Conf} {row : ConfRow}
    (hof : isOf confName user_id row = true) {c : Conf} (hc : c ∈ data)
    (hid : rowId confName row = dataId confName c)
    (honly : ∀ c' ∈ data, rowId confName row = dataId confName c' → c' = c) :
    data.foldl (updateRow confName user_id) row = setStart c.start row := by
  obtain ⟨before, after, rfl⟩ := List.append_of_mem hc
  obtain ⟨start, hbefore⟩ := exists_foldl_updateRow confName user_id before row
  have hstep : updateRow confName user_id (setStart start row) c = setStart c.start row := by
    have hmatch : (isOf confName user_id (setStart start row) &&
        rowId confName (setStart start row) = dataId confName c) = true := by
      simp only [Bool.and_eq_true, decide_eq_true_eq]
      exact ⟨hof, hid⟩
    rw [updateRow, if_pos hmatch]
    rfl
  rw [List.foldl_append, List.foldl_cons, hbefore, hstep]
  apply foldl_updateRow_of_start
  intro _ c' hc' hid'
  rw [honly c' (List.mem_append_right _ (List.mem_cons_of_mem c hc')) hid']
  rfl

end Update

end PublicCollsConfAccessors

end ReportsFramework
