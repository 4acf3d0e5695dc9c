/-
The temporary tables of the syncs.  A sync job has a temporary table for each of its
collections; which tables are its own is decided by texts within their names only.
-/
import ReportsFramework.ChunkedCopy
import ReportsFramework.TextSearch
import Mathlib.Tactic.SplitIfs

namespace ReportsFramework

open Sql Text

variable {ρ κ : Type*}

def baseNamePrefix : String := "temp_s"

def getNamePrefix (id : ℤ) : String :=
  baseNamePrefix ++ toString id ++ "_"

def getTempTableName (tableName : String) (id : ℤ) : String :=
  getNamePrefix id ++ tableName

/-- The name of a main table. -/
def MainName : Type :=
  { name : String // includes name baseNamePrefix = false }

/-- A temporary table of this sync. -/
def IsTempOf (id : ℤ) (name : String) : Prop :=
  ∃ main : MainName, name = getTempTableName main.val id

theorem notMem_toString {id : ℤ} {c : Char} (hsign : c ≠ '-') (hdigit : c.isDigit = false) :
    c ∉ (toString id).toList := by
  intro hmem
  rcases isDigit_of_mem_toString hmem with h | h
  · exact hsign h
  · rw [hdigit] at h
    cases h

theorem toList_getNamePrefix (id : ℤ) :
    (getNamePrefix id).toList =
      't' :: ("emp_s".toList ++ ((toString id).toList ++ ['_'])) := by
  simp [getNamePrefix, baseNamePrefix]

theorem toList_getTempTableName (tableName : String) (id : ℤ) :
    (getTempTableName tableName id).toList =
      't' :: ("emp_s".toList ++ ((toString id).toList ++ '_' :: tableName.toList)) := by
  rw [getTempTableName, String.toList_append, toList_getNamePrefix]
  simp

theorem base_infix_getNamePrefix (id : ℤ) :
    baseNamePrefix.toList <:+: (getNamePrefix id).toList := by
  unfold getNamePrefix
  rw [String.append_assoc, String.toList_append]
  exact (List.prefix_append _ _).isInfix

/-- A name with the prefix of a sync has the base of all prefixes. -/
theorem includes_base_of_includes {name : String} {id : ℤ}
    (h : includes name (getNamePrefix id) = true) : includes name baseNamePrefix = true := by
  rw [includes_iff] at h ⊢
  exact (base_infix_getNamePrefix id).trans h

/-- The prefix of a sync occurs in the name of a temporary table only at its front, and
there only with the same id: behind the first character no `t` comes before the name
of the main table, and the id ends at the first underscore behind the base. -/
theorem includes_prefix_iff (main : MainName) (id id' : ℤ) :
    includes (getTempTableName main.val id) (getNamePrefix id') = true ↔ id' = id := by
  constructor
  · intro h
    rw [includes_iff, toList_getNamePrefix, toList_getTempTableName, List.infix_cons_iff] at h
    rcases h with hfront | hinner
    · rw [List.cons_prefix_cons, List.prefix_append_right_inj] at hfront
      have hid := eq_of_append_prefix (notMem_toString (by decide) (by decide))
        (notMem_toString (by decide) (by decide)) hfront.2
      exact toString_injective (String.toList_inj.mp hid)
    · have hfront : 't' ∉ "emp_s".toList ++ ((toString id).toList ++ ['_']) := by
        simp only [List.mem_append, not_or]
        exact ⟨by decide, notMem_toString (by decide) (by decide), by decide⟩
      have hsplit : "emp_s".toList ++ ((toString id).toList ++ '_' :: main.val.toList) =
          ("emp_s".toList ++ ((toString id).toList ++ ['_'])) ++ main.val.toList := by simp
      rw [hsplit, infix_append_iff_of_notMem hfront, ← toList_getNamePrefix,
        ← includes_iff] at hinner
      have hbase := includes_base_of_includes hinner
      rw [main.2] at hbase
      cases hbase
  · rintro rfl
    rw [includes_iff, getTempTableName, String.toList_append]
    exact (List.prefix_append _ _).isInfix

/-- What the sync schema says about the tables of these names: their unique index,
whether there is a model, and whether the collection is of an updatable type. -/
structure TableModels (ρ κ : Type*) where
  key : String → ρ → Option κ
  hasModel : String → Bool
  isUpdatable : String → Bool

/-- The tables of the database.  Those with the base of the temporary names in theirs
are temporary tables. -/
@[ext]
structure TableSet (S : TableModels ρ κ) where
  names : List String
  table (name : String) : Table (S.key name)
  named : ∀ name ∈ names, includes name baseNamePrefix = true → ∃ id, IsTempOf id name

namespace TableSet

variable {S : TableModels ρ κ}

/-- `CREATE TABLE IF NOT EXISTS` for a temporary table. -/
def createTemp (db : TableSet S) (main : MainName) (id : ℤ) : TableSet S :=
  let tempName := getTempTableName main.val id
  if tempName ∈ db.names then db
  else
    { names := db.names ++ [tempName]
      table := Function.update db.table tempName .empty
      named := by
        intro name hmem hbase
        rcases List.mem_append.mp hmem with hold | hnew
        · exact db.named name hold hbase
        · exact ⟨id, main, List.mem_singleton.mp hnew⟩ }

/-- `DROP TABLE IF EXISTS` for each of the names. -/
def dropTables (db : TableSet S) (dropped : List String) : TableSet S where
  names := db.names.filter (· ∉ dropped)
  table := db.table
  named := by
    intro name hmem
    exact db.named name (List.mem_filter.mp hmem).1

/-- The test of a name by the texts it must not and those it must be equal to, or
include. -/
def isFiltered (exceptions expectations : List String) (isNotStrictEqual : Bool)
    (name : String) : Bool :=
  (exceptions.all fun exc =>
    name != exc && (!isNotStrictEqual || !includes name exc)) &&
  (expectations.isEmpty || expectations.any fun exp =>
    name == exp || (isNotStrictEqual && includes name exp))

def getFilteredTablesNames (db : TableSet S) (exceptions expectations : List String)
    (isNotStrictEqual : Bool) : List String :=
  db.names.filter (isFiltered exceptions expectations isNotStrictEqual)

def dropAllTables (db : TableSet S) (exceptions expectations : List String)
    (isNotStrictEqual : Bool) : TableSet S :=
  db.dropTables (db.getFilteredTablesNames exceptions expectations isNotStrictEqual)

def createTempDBStructureForCurrSync (db : TableSet S) (id : ℤ)
    (methodCollMap : List MainName) : TableSet S :=
  methodCollMap.foldl (fun db main => db.createTemp main id) db

def removeTempDBStructureForCurrSync (db : TableSet S) (id : ℤ) : TableSet S :=
  db.dropAllTables [] [getNamePrefix id] true

/-- The ids are those of the jobs that can be processed or continued. -/
def cleanUpTempDBStructure (db : TableSet S) (activeIds : List ℤ) : TableSet S :=
  db.dropAllTables (activeIds.map getNamePrefix) [baseNamePrefix] true

variable [DecidableEq κ]

/-- The copy of one temporary table.  Without the main table a statement fails, unless
there is nothing to clear and nothing to copy. -/
def moveOne (db : TableSet S) (namePrefix : String) (isStrictEqual : Bool)
    (tempName : String) : Option (TableSet S) :=
  let name := remove tempName namePrefix
  if !S.hasModel name then some db
  else
    let temp := TempRows.ofTable (db.table tempName)
    let isCleared := isStrictEqual || S.isUpdatable name
    if name ∈ db.names then
      (moveInChunks isCleared 10000 (temp.rows.length + 1) temp (db.table name)).map fun copy =>
        { db with table := Function.update db.table name copy.main }
    else if isCleared || temp.firstId.isSome then none
    else some db

/-- One table after the other; `none` if a statement fails. -/
def moveTables (namePrefix : String) (isStrictEqual : Bool) :
    List String → TableSet S → Option (TableSet S)
  | [], db => some db
  | tempName :: rest, db =>
      (db.moveOne namePrefix isStrictEqual tempName).bind
        (moveTables namePrefix isStrictEqual rest)

/-- `none` if the transaction is rolled back. -/
def moveTempTableDataToMain (db : TableSet S) (id : ℤ) (isStrictEqual : Bool) :
    Option (TableSet S) :=
  let namePrefix := getNamePrefix id
  let filteredTempTableNames := db.names.filter fun name => includes name namePrefix
  moveTables namePrefix isStrictEqual filteredTempTableNames db

omit [DecidableEq κ] in
theorem includes_iff_isTempOf (db : TableSet S) {name : String} (h : name ∈ db.names) (id : ℤ) :
    includes name (getNamePrefix id) = true ↔ IsTempOf id name := by
  constructor
  · intro hincludes
    obtain ⟨id', main, rfl⟩ := db.named name h (includes_base_of_includes hincludes)
    obtain rfl := (includes_prefix_iff main id' id).mp hincludes
    exact ⟨main, rfl⟩
  · rintro ⟨main, rfl⟩
    exact (includes_prefix_iff main id id).mpr rfl

end TableSet

theorem IsTempOf.includes_iff {id : ℤ} {name : String} (h : IsTempOf id name) (id' : ℤ) :
    includes name (getNamePrefix id') = true ↔ id' = id := by
  obtain ⟨main, rfl⟩ := h
  exact includes_prefix_iff main id id'

theorem IsTempOf.includes_eq_false {id id' : ℤ} {name : String} (h : IsTempOf id name)
    (hne : id' ≠ id) : includes name (getNamePrefix id') = false :=
  Bool.eq_false_iff.mpr fun hincludes => hne ((h.includes_iff id').mp hincludes)

theorem MainName.includes_eq_false (main : MainName) (id : ℤ) :
    includes main.val (getNamePrefix id) = false := by
  apply Bool.eq_false_iff.mpr
  intro hincludes
  have hbase := includes_base_of_includes hincludes
  rw [main.2] at hbase
  cases hbase

/-- A table of one sync is no table of another one, and no main table. -/
theorem IsTempOf.ne {id : ℤ} {name name' : String} (h : IsTempOf id name)
    (h' : includes name' (getNamePrefix id) = false) : name ≠ name' := by
  rintro rfl
  rw [(h.includes_iff id).mpr rfl] at h'
  cases h'

theorem remove_getTempTableName (main : MainName) (id : ℤ) :
    remove (getTempTableName main.val id) (getNamePrefix id) = main.val :=
  remove_append _ _

namespace TableSet

variable {S : TableModels ρ κ}

/-- The temporary tables of the sync are those of before. -/
def Keeps (id : ℤ) (db db' : TableSet S) : Prop :=
  ∀ name, IsTempOf id name →
    (name ∈ db'.names ↔ name ∈ db.names) ∧ db'.table name = db.table name

theorem Keeps.refl (id : ℤ) (db : TableSet S) : Keeps id db db :=
  fun _ _ => ⟨Iff.rfl, rfl⟩

theorem Keeps.trans {id : ℤ} {db db' db'' : TableSet S} (h : Keeps id db db')
    (h' : Keeps id db' db'') : Keeps id db db'' := by
  intro name hname
  obtain ⟨hmem, htable⟩ := h name hname
  obtain ⟨hmem', htable'⟩ := h' name hname
  exact ⟨hmem'.trans hmem, htable'.trans htable⟩

/-- The database with the temporary tables of a sync taken out. -/
def without (db : TableSet S) (id : ℤ) : TableSet S where
  names := db.names.filter fun name => !includes name (getNamePrefix id)
  table name := if includes name (getNamePrefix id) then .empty else db.table name
  named := by
    intro name hmem
    exact db.named name (List.mem_filter.mp hmem).1

theorem names_without (db : TableSet S) (id : ℤ) :
    (db.without id).names = db.names.filter fun name => !includes name (getNamePrefix id) :=
  rfl

theorem mem_names_without {db : TableSet S} {id : ℤ} {name : String}
    (h : includes name (getNamePrefix id) = false) :
    name ∈ (db.without id).names ↔ name ∈ db.names := by
  simp [without, h]

theorem table_without {db : TableSet S} {id : ℤ} {name : String}
    (h : includes name (getNamePrefix id) = false) :
    (db.without id).table name = db.table name := by
  simp [without, h]

theorem update_without (db : TableSet S) {id : ℤ} {name : String}
    (h : includes name (getNamePrefix id) = false) (t : Table (S.key name)) :
    Function.update (db.without id).table name t = fun other =>
      if includes other (getNamePrefix id) then .empty
      else Function.update db.table name t other := by
  funext other
  by_cases hother : other = name
  · subst hother
    simp [h]
  · simp [without, hother]

/-- The tables an `INSERT` or a `DELETE` on one of them leaves. -/
theorem setTable_without (db : TableSet S) {id : ℤ} {name : String}
    (h : includes name (getNamePrefix id) = false) (t : Table (S.key name)) :
    { db.without id with table := Function.update (db.without id).table name t } =
      without { db with table := Function.update db.table name t } id := by
  ext1
  · rfl
  · exact update_without db h t

section Create

variable {id id' : ℤ}

theorem createTemp_keeps (db : TableSet S) (main : MainName) (hne : id ≠ id') :
    Keeps id' db (db.createTemp main id) := by
  intro name hname
  have hother : name ≠ getTempTableName main.val id :=
    hname.ne (IsTempOf.includes_eq_false ⟨main, rfl⟩ hne.symm)
  unfold createTemp
  by_cases hold : getTempTableName main.val id ∈ db.names
  · simp [hold]
  · simp [hold, hother]

theorem createTemp_without (db : TableSet S) (main : MainName) (hne : id ≠ id') :
    (db.without id').createTemp main id = (db.createTemp main id).without id' := by
  have hother : includes (getTempTableName main.val id) (getNamePrefix id') = false :=
    IsTempOf.includes_eq_false ⟨main, rfl⟩ hne.symm
  unfold createTemp
  simp only [mem_names_without hother]
  split_ifs with hold
  · rfl
  · ext1
    · simp [without, hother]
    · exact update_without db hother _

theorem createTempDBStructureForCurrSync_keeps (db : TableSet S) (methodCollMap : List MainName)
    (hne : id ≠ id') : Keeps id' db (db.createTempDBStructureForCurrSync id methodCollMap) := by
  unfold createTempDBStructureForCurrSync
  induction methodCollMap generalizing db with
  | nil => exact .refl id' db
  | cons main rest ih => exact (createTemp_keeps db main hne).trans (ih _)

theorem createTempDBStructureForCurrSync_without (db : TableSet S)
    (methodCollMap : List MainName) (hne : id ≠ id') :
    (db.without id').createTempDBStructureForCurrSync id methodCollMap =
      (db.createTempDBStructureForCurrSync id methodCollMap).without id' := by
  unfold createTempDBStructureForCurrSync
  induction methodCollMap generalizing db with
  | nil => rfl
  | cons main rest ih => rw [List.foldl_cons, List.foldl_cons, createTemp_without db main hne, ih]

end Create

section Drop

variable (db : TableSet S) (exceptions expectations : List String) (isNotStrictEqual : Bool)

theorem names_dropAllTables :
    (db.dropAllTables exceptions expectations isNotStrictEqual).names =
      db.names.filter fun name => !isFiltered exceptions expectations isNotStrictEqual name := by
  unfold dropAllTables dropTables
  apply List.filter_congr
  intro name hmem
  have hfiltered : name ∈ db.getFilteredTablesNames exceptions expectations isNotStrictEqual ↔
      isFiltered exceptions expectations isNotStrictEqual name = true := by
    unfold getFilteredTablesNames
    rw [List.mem_filter]
    exact and_iff_right hmem
  rw [Bool.eq_iff_iff, decide_eq_true_iff, Bool.not_eq_true', hfiltered, Bool.not_eq_true]

theorem dropAllTables_without (id : ℤ) :
    (db.without id).dropAllTables exceptions expectations isNotStrictEqual =
      (db.dropAllTables exceptions expectations isNotStrictEqual).without id := by
  ext1
  · rw [names_dropAllTables, names_without, names_without, names_dropAllTables,
      List.filter_filter, List.filter_filter]
    simp only [Bool.and_comm]
  · rfl

omit db isNotStrictEqual in
/-- What is not to be equal only need not be included either. -/
theorem isFiltered_of_includes (name : String) :
    isFiltered exceptions expectations true name =
      ((exceptions.all fun exc => !includes name exc) &&
        (expectations.isEmpty || expectations.any fun exp => includes name exp)) := by
  have hself : ∀ other, (name == other) = true → includes name other = true := by
    intro other heq
    rw [beq_iff_eq.mp heq]
    exact includes_iff.mpr (List.infix_refl _)
  have hexc : ∀ exc, (name != exc && (!true || !includes name exc)) = !includes name exc := by
    intro exc
    have h := hself exc
    unfold bne
    cases hname : (name == exc) <;> cases hincludes : includes name exc <;> simp_all
  have hexp : ∀ exp, (name == exp || (true && includes name exp)) = includes name exp := by
    intro exp
    have h := hself exp
    cases hname : (name == exp) <;> cases hincludes : includes name exp <;> simp_all
  simp only [isFiltered, hexc, hexp]

/-- Dropping takes exactly the temporary tables of the sync. -/
theorem mem_names_removeTemp (id : ℤ) (name : String) :
    name ∈ (db.removeTempDBStructureForCurrSync id).names ↔
      name ∈ db.names ∧ ¬ IsTempOf id name := by
  unfold removeTempDBStructureForCurrSync
  rw [names_dropAllTables, List.mem_filter, isFiltered_of_includes]
  apply and_congr_right
  intro hmem
  rw [← db.includes_iff_isTempOf hmem]
  simp

/-- Cleaning up keeps the main tables, and of the temporary ones those of the kept
ids. -/
theorem mem_names_cleanUp (activeIds : List ℤ) (name : String) :
    name ∈ (db.cleanUpTempDBStructure activeIds).names ↔
      name ∈ db.names ∧ ∀ id, IsTempOf id name → id ∈ activeIds := by
  unfold cleanUpTempDBStructure
  rw [names_dropAllTables, List.mem_filter]
  apply and_congr_right
  intro hmem
  have hkept : (∀ id, IsTempOf id name → id ∈ activeIds) ↔
      (includes name baseNamePrefix = true →
        ∃ id ∈ activeIds, includes name (getNamePrefix id) = true) := by
    constructor
    · intro h hbase
      obtain ⟨id, htemp⟩ := db.named name hmem hbase
      exact ⟨id, h id htemp, (htemp.includes_iff id).mpr rfl⟩
    · intro h id htemp
      obtain ⟨id', hactive, hincludes⟩ :=
        h (includes_base_of_includes ((htemp.includes_iff id).mpr rfl))
      rw [(htemp.includes_iff id').mp hincludes] at hactive
      exact hactive
  rw [hkept, isFiltered_of_includes]
  by_cases hbase : includes name baseNamePrefix = true <;> simp [hbase]

end Drop

section Move

variable [DecidableEq κ] {id id' : ℤ}

theorem moveOne_keeps {db db' : TableSet S} {isStrictEqual : Bool} {tempName : String}
    (htemp : IsTempOf id tempName)
    (h : db.moveOne (getNamePrefix id) isStrictEqual tempName = some db') : Keeps id' db db' := by
  obtain ⟨main, rfl⟩ := htemp
  unfold moveOne at h
  rw [remove_getTempTableName] at h
  dsimp only at h
  split_ifs at h
  · cases h
    exact .refl id' db
  · obtain ⟨copy, _, rfl⟩ := Option.map_eq_some_iff.mp h
    intro name hname
    have hother : name ≠ main.val := hname.ne (main.includes_eq_false id')
    exact ⟨Iff.rfl, by simp [hother]⟩
  · cases h
    exact .refl id' db

theorem moveOne_without (db : TableSet S) (isStrictEqual : Bool) {tempName : String}
    (htemp : IsTempOf id tempName) (hne : id ≠ id') :
    (db.without id').moveOne (getNamePrefix id) isStrictEqual tempName =
      (db.moveOne (getNamePrefix id) isStrictEqual tempName).map (without · id') := by
  have hother := htemp.includes_eq_false hne.symm
  obtain ⟨main, rfl⟩ := htemp
  have hmain := main.includes_eq_false id'
  unfold moveOne
  rw [remove_getTempTableName]
  simp only [mem_names_without hmain, table_without hmain, table_without hother]
  split_ifs
  · rfl
  · rw [Option.map_map]
    apply Option.map_congr
    intro copy _
    exact setTable_without db hmain copy.main
  · rfl
  · rfl

theorem moveTables_keeps {db db' : TableSet S} {isStrictEqual : Bool}
    {tempNames : List String} (htemp : ∀ name ∈ tempNames, IsTempOf id name)
    (h : moveTables (getNamePrefix id) isStrictEqual tempNames db = some db') :
    Keeps id' db db' := by
  induction tempNames generalizing db with
  | nil =>
      cases h
      exact .refl id' _
  | cons tempName rest ih =>
      obtain ⟨hfirst, hrest⟩ := List.forall_mem_cons.mp htemp
      obtain ⟨moved, hmoved, hlater⟩ := Option.bind_eq_some_iff.mp h
      exact (moveOne_keeps hfirst hmoved).trans (ih hrest hlater)

theorem moveTables_without (db : TableSet S) (isStrictEqual : Bool)
    {tempNames : List String} (htemp : ∀ name ∈ tempNames, IsTempOf id name) (hne : id ≠ id') :
    moveTables (getNamePrefix id) isStrictEqual tempNames (db.without id') =
      (moveTables (getNamePrefix id) isStrictEqual tempNames db).map (without · id') := by
  induction tempNames generalizing db with
  | nil => rfl
  | cons tempName rest ih =>
      obtain ⟨hfirst, hrest⟩ := List.forall_mem_cons.mp htemp
      rw [moveTables, moveTables, moveOne_without db isStrictEqual hfirst hne]
      cases db.moveOne (getNamePrefix id) isStrictEqual tempName with
      | none => rfl
      | some moved => exact ih moved hrest

omit [DecidableEq κ] in
/-- The names that the move goes over are those of the tables of the sync. -/
theorem isTempOf_of_mem_filter (db : TableSet S) :
    ∀ name ∈ db.names.filter fun name => includes name (getNamePrefix id), IsTempOf id name := by
  intro name hmem
  obtain ⟨hname, hincludes⟩ := List.mem_filter.mp hmem
  exact (db.includes_iff_isTempOf hname id).mp hincludes

omit [DecidableEq κ] in
theorem filter_names_without (db : TableSet S) (hne : id ≠ id') :
    ((db.without id').names.filter fun name => includes name (getNamePrefix id)) =
      db.names.filter fun name => includes name (getNamePrefix id) := by
  rw [names_without, List.filter_filter]
  apply List.filter_congr
  intro name hmem
  by_cases hincludes : includes name (getNamePrefix id) = true
  · have htemp := (db.includes_iff_isTempOf hmem id).mp hincludes
    simp [hincludes, htemp.includes_eq_false hne.symm]
  · simp [hincludes]

end Move

end TableSet

/-- What a sync does with its temporary tables. -/
inductive TempTablesOp
  | createTempDBStructureForCurrSync (methodCollMap : List MainName)
  | moveTempTableDataToMain (isStrictEqual : Bool)
  | removeTempDBStructureForCurrSync

variable {S : TableModels ρ κ} [DecidableEq κ]

def TempTablesOp.run (id : ℤ) (db : TableSet S) : TempTablesOp → Option (TableSet S)
  | createTempDBStructureForCurrSync methodCollMap =>
      some (db.createTempDBStructureForCurrSync id methodCollMap)
  | moveTempTableDataToMain isStrictEqual => db.moveTempTableDataToMain id isStrictEqual
  | removeTempDBStructureForCurrSync => some (db.removeTempDBStructureForCurrSync id)

namespace TempTablesOp

open TableSet

variable {id id' : ℤ}

/-- An operation of one sync neither alters nor drops the tables of another one. -/
theorem run_keeps {op : TempTablesOp} {db db' : TableSet S} (hne : id ≠ id')
    (h : op.run id db = some db') : Keeps id' db db' := by
  cases op with
  | createTempDBStructureForCurrSync methodCollMap =>
      cases h
      exact createTempDBStructureForCurrSync_keeps db methodCollMap hne
  | moveTempTableDataToMain isStrictEqual =>
      exact moveTables_keeps (isTempOf_of_mem_filter db) h
  | removeTempDBStructureForCurrSync =>
      cases h
      intro name hname
      have hother : ¬ IsTempOf id name := by
        intro htemp
        exact hne ((hname.includes_iff id).mp ((htemp.includes_iff id).mpr rfl))
      exact ⟨by rw [mem_names_removeTemp]; simp [hother], rfl⟩

/-- Nor does it read them: without them it comes to the same. -/
theorem run_without (op : TempTablesOp) (db : TableSet S) (hne : id ≠ id') :
    op.run id (db.without id') = (op.run id db).map (without · id') := by
  cases op with
  | createTempDBStructureForCurrSync methodCollMap =>
      exact congrArg some (createTempDBStructureForCurrSync_without db methodCollMap hne)
  | moveTempTableDataToMain isStrictEqual =>
      unfold run TableSet.moveTempTableDataToMain
      dsimp only
      rw [filter_names_without db hne]
      exact moveTables_without db isStrictEqual (isTempOf_of_mem_filter db) hne
  | removeTempDBStructureForCurrSync =>
      exact congrArg some (dropAllTables_without db [] _ true id')

end TempTablesOp

/-- The operations of the syncs, one after the other. -/
def TempTablesOp.runAll : List (ℤ × TempTablesOp) → TableSet S → Option (TableSet S)
  | [], db => some db
  | (id, op) :: rest, db => (op.run id db).bind (runAll rest)

/-- Whatever the other syncs do, the tables of a sync stay. -/
theorem TempTablesOp.runAll_keeps {id' : ℤ} {ops : List (ℤ × TempTablesOp)}
    (hne : ∀ op ∈ ops, op.1 ≠ id') {db db' : TableSet S} (h : runAll ops db = some db') :
    TableSet.Keeps id' db db' := by
  induction ops generalizing db with
  | nil =>
      cases h
      exact .refl id' _
  | cons op rest ih =>
      obtain ⟨hfirst, hrest⟩ := List.forall_mem_cons.mp hne
      obtain ⟨after, hafter, hlater⟩ := Option.bind_eq_some_iff.mp h
      exact (run_keeps hfirst hafter).trans (ih hrest hlater)

/-- The temporary tables of two syncs are apart: what one does with its own neither
alters nor drops those of the other, and is the same without them.  Dropping takes
exactly the temporary tables of the sync, cleaning up exactly those of the ids that
are not kept; both leave all other tables, the main ones among them, as they are. -/
theorem temp_tables_isolated (db : TableSet S) :
    (∀ (id id' : ℤ) (op : TempTablesOp), id ≠ id' →
      (∀ db', op.run id db = some db' → TableSet.Keeps id' db db') ∧
        op.run id (db.without id') = (op.run id db).map (TableSet.without · id')) ∧
    (∀ id, (∀ name, name ∈ (db.removeTempDBStructureForCurrSync id).names ↔
        name ∈ db.names ∧ ¬ IsTempOf id name) ∧
      (db.removeTempDBStructureForCurrSync id).table = db.table) ∧
    ∀ activeIds, (∀ name, name ∈ (db.cleanUpTempDBStructure activeIds).names ↔
        name ∈ db.names ∧ ∀ id, IsTempOf id name → id ∈ activeIds) ∧
      (db.cleanUpTempDBStructure activeIds).table = db.table := by
  refine ⟨?_, ?_, ?_⟩
  · intro id id' op hne
    exact ⟨fun _ h => TempTablesOp.run_keeps hne h, op.run_without db hne⟩
  · intro id
    exact ⟨TableSet.mem_names_removeTemp db id, rfl⟩
  · intro activeIds
    exact ⟨TableSet.mem_names_cleanUp db activeIds, rfl⟩

namespace TempTablesWitness

def models : TableModels (ℕ × ℕ) ℕ where
  key _ r := some r.1
  hasModel name := name = "ledgers"
  isUpdatable _ := false

def ledgers : MainName := ⟨"ledgers", by decide⟩

/-- One main table, without a sync. -/
def mainOnly : TableSet models where
  names := ["ledgers"]
  table _ := .empty
  named := by
    intro name hmem hbase
    obtain rfl := List.mem_singleton.mp hmem
    exact absurd hbase (by decide)

/-- The temporary tables of the syncs 1 and 12. -/
def db : TableSet models :=
  (mainOnly.createTemp ledgers 1).createTemp ledgers 12

theorem temp_tables_isolated_one :
    (1 : ℤ) ≠ 12 ∧
      (∀ db', TempTablesOp.removeTempDBStructureForCurrSync.run 1 db = some db' →
        TableSet.Keeps 12 db db') ∧
      TempTablesOp.removeTempDBStructureForCurrSync.run 1 (db.without 12) =
        (TempTablesOp.removeTempDBStructureForCurrSync.run 1 db).map (TableSet.without · 12) :=
  ⟨by decide, (temp_tables_isolated db).1 1 12 .removeTempDBStructureForCurrSync (by decide)⟩

end TempTablesWitness

end ReportsFramework
