/-
The migrations of the repository, versions 34 to 43, as what their queries do to the
tables, columns and constraints of the database.  Statements on rows, indexes and
triggers are left out: they change no column, and every start of the database makes
missing indexes and triggers anew.  Tables that no migration touches are left out too.
-/
import Mathlib.Data.Fintype.Pi
import Mathlib.Data.Multiset.Basic
import ReportsFramework.MigrationConsistency

namespace ReportsFramework

namespace SqliteMigrations

inductive Table
  | users
  | currencies
  | marginCurrencyList
  | progress
  /-- Spelled with two Cyrillic letters up to version 39. -/
  | publicCollsConfCyrillic
  | publicCollsConf
  | ledgers
  | trades
  | movements
  | payInvoiceList
deriving DecidableEq

instance : Fintype Table where
  elems := {.users, .currencies, .marginCurrencyList, .progress, .publicCollsConfCyrillic,
    .publicCollsConf, .ledgers, .trades, .movements, .payInvoiceList}
  complete table := by cases table <;> decide

inductive DbDataType
  | idPrimaryKey
  | bigint
  | integer
  | integerNotNull
  | decimal
  | varchar
  | text
deriving DecidableEq

structure Column where
  name : String
  type : DbDataType
deriving DecidableEq

def idPrimaryKey : Column := ⟨"_id", .idPrimaryKey⟩

def bigint (name : String) : Column := ⟨name, .bigint⟩

def int (name : String) : Column := ⟨name, .integer⟩

def intNotNull (name : String) : Column := ⟨name, .integerNotNull⟩

def decimal (name : String) : Column := ⟨name, .decimal⟩

def varchar (name : String) : Column := ⟨name, .varchar⟩

def text (name : String) : Column := ⟨name, .text⟩

/-- The columns of a table, in whatever order, and the names of its constraints. -/
structure TableDef where
  columns : Multiset Column
  constraints : Multiset String

instance : DecidableEq TableDef := fun a b =>
  decidable_of_iff (a.columns = b.columns ∧ a.constraints = b.constraints) (by
    cases a
    cases b
    simp)

/-- The tables there are. -/
abbrev Schema := Table → Option TableDef

/-- The queries of the migrations.  `modifyColumns` stands for the four that
`getSqlArrToModifyColumns` returns: rename, create anew, copy the columns, drop. -/
inductive Sql
  | addColumn (table : Table) (column : Column)
  | createTable (table : Table) (columns : List Column) (constraints : List String)
  | dropTable (table : Table)
  | copyRows (table source : Table)
  | modifyColumns (table : Table) (columns : List Column)

/-- What a query does to the schema, or that it fails. -/
def runQuery (schema : Schema) : Sql → Option Schema
  | .addColumn table column =>
      (schema table).bind fun definition =>
        if column.name ∈ definition.columns.map Column.name then none
        else some (Function.update schema table
          (some { definition with columns := column ::ₘ definition.columns }))
  | .createTable table columns constraints =>
      match schema table with
      | some _ => none
      | none => some (Function.update schema table (some ⟨columns, constraints⟩))
  | .dropTable table => (schema table).map fun _ => Function.update schema table none
  | .copyRows table source =>
      (schema table).bind fun into =>
        (schema source).bind fun origin =>
          if into.columns.card = origin.columns.card then some schema else none
  | .modifyColumns table columns =>
      (schema table).bind fun definition =>
        if ∀ column ∈ columns, column.name ∈ definition.columns.map Column.name then
          some (Function.update schema table (some ⟨columns, 0⟩))
        else none

/-- All in one transaction: the first failure rolls everything back. -/
def runQueries (schema : Schema) (queries : List Sql) : Option Schema :=
  queries.foldlM runQuery schema

structure SqliteMigration where
  up : List Sql
  down : List Sql

def migrationV34 : SqliteMigration where
  up := [.addColumn .users (int "authTokenTTLSec")]
  down := [.modifyColumns .users
    [idPrimaryKey, bigint "id", varchar "email", varchar "apiKey", varchar "apiSecret",
      varchar "authToken", int "active", int "isDataFromDb", varchar "timezone",
      varchar "username", varchar "passwordHash", int "isNotProtected", int "isSubAccount",
      int "isSubUser", int "shouldNotSyncOnStartupAfterUpdate",
      int "isSyncOnStartupRequired", bigint "createdAt", bigint "updatedAt"]]

def migrationV35 : SqliteMigration where
  up := [.addColumn .users (varchar "localUsername")]
  down := [.modifyColumns .users
    [idPrimaryKey, bigint "id", varchar "email", varchar "apiKey", varchar "apiSecret",
      varchar "authToken", int "active", int "isDataFromDb", varchar "timezone",
      varchar "username", varchar "passwordHash", int "isNotProtected", int "isSubAccount",
      int "isSubUser", int "shouldNotSyncOnStartupAfterUpdate",
      int "isSyncOnStartupRequired", int "authTokenTTLSec", bigint "createdAt",
      bigint "updatedAt"]]

def migrationV36 : SqliteMigration where
  up := [.addColumn .currencies (varchar "symbol")]
  down := [.modifyColumns .currencies
    [idPrimaryKey, varchar "id", varchar "name", varchar "pool", text "explorer",
      text "walletFx"]]

def migrationV37 : SqliteMigration where
  up := [.createTable .marginCurrencyList [idPrimaryKey, varchar "symbol"] []]
  down := [.dropTable .marginCurrencyList]

def migrationV38 : SqliteMigration where
  up := [.addColumn .progress (varchar "error"), .addColumn .progress (varchar "state"),
    .modifyColumns .progress
      [idPrimaryKey, varchar "error", decimal "value", varchar "state",
        bigint "createdAt", bigint "updatedAt"]]
  down := [.modifyColumns .progress
    [idPrimaryKey, varchar "value", bigint "createdAt", bigint "updatedAt"]]

def migrationV39 : SqliteMigration where
  up := [.addColumn .users (int "isStagingBfxApi")]
  down := [.modifyColumns .users
    [idPrimaryKey, bigint "id", varchar "email", varchar "apiKey", varchar "apiSecret",
      varchar "authToken", int "active", int "isDataFromDb", varchar "timezone",
      varchar "username", varchar "localUsername", varchar "passwordHash",
      int "isNotProtected", int "isSubAccount", int "isSubUser",
      int "shouldNotSyncOnStartupAfterUpdate", int "isSyncOnStartupRequired",
      int "authTokenTTLSec", bigint "createdAt", bigint "updatedAt"]]

def publicCollsConfColumns : List Column :=
  [idPrimaryKey, varchar "confName", varchar "symbol", bigint "start", varchar "timeframe",
    bigint "createdAt", bigint "updatedAt", intNotNull "user_id"]

def migrationV40 : SqliteMigration where
  up := [
    .createTable .publicCollsConf publicCollsConfColumns ["publicCollsConf_fk_user_id"],
    .copyRows .publicCollsConf .publicCollsConfCyrillic,
    .dropTable .publicCollsConfCyrillic]
  down := [
    .createTable .publicCollsConfCyrillic publicCollsConfColumns
      ["publicСollsСonf_fk_user_id"],
    .copyRows .publicCollsConfCyrillic .publicCollsConf,
    .dropTable .publicCollsConf]

/-- `down` keeps `exactUsdValue`, which `up` adds, and makes the tables anew without
their constraints. -/
def migrationV41 : SqliteMigration where
  up := [
    .addColumn .ledgers (decimal "exactUsdValue"),
    .addColumn .trades (decimal "exactUsdValue"),
    .addColumn .movements (decimal "exactUsdValue"),
    .addColumn .ledgers (int "_isInvoicePayOrder"),
    .addColumn .ledgers (int "_isAirdropOnWallet"),
    .addColumn .trades (int "_isExchange")]
  down := [
    .modifyColumns .ledgers
      [idPrimaryKey, bigint "id", varchar "currency", bigint "mts", decimal "amount",
        decimal "amountUsd", decimal "exactUsdValue", decimal "balance",
        decimal "_nativeBalance", decimal "balanceUsd", decimal "_nativeBalanceUsd",
        text "description", varchar "wallet", int "_category",
        int "_isMarginFundingPayment", int "_isAffiliateRebate", int "_isStakingPayments",
        int "_isSubAccountsTransfer", int "_isBalanceRecalced", int "subUserId",
        intNotNull "user_id"],
    .modifyColumns .trades
      [idPrimaryKey, bigint "id", varchar "symbol", bigint "mtsCreate", bigint "orderID",
        decimal "execAmount", decimal "execPrice", decimal "exactUsdValue",
        varchar "orderType", decimal "orderPrice", int "maker", decimal "fee",
        varchar "feeCurrency", int "subUserId", intNotNull "user_id"],
    .modifyColumns .movements
      [idPrimaryKey, bigint "id", varchar "currency", varchar "currencyName",
        bigint "mtsStarted", bigint "mtsUpdated", varchar "status", decimal "amount",
        decimal "amountUsd", decimal "exactUsdValue", decimal "fees",
        varchar "destinationAddress", varchar "transactionId", text "note",
        int "subUserId", intNotNull "user_id"]]

def migrationV42 : SqliteMigration where
  up := [.addColumn .users (int "isUserMerchant")]
  down := [.modifyColumns .users
    [idPrimaryKey, bigint "id", varchar "email", varchar "apiKey", varchar "apiSecret",
      varchar "authToken", int "active", int "isDataFromDb", varchar "timezone",
      varchar "username", varchar "localUsername", varchar "passwordHash",
      int "isNotProtected", int "isSubAccount", int "isSubUser",
      int "shouldNotSyncOnStartupAfterUpdate", int "isSyncOnStartupRequired",
      int "authTokenTTLSec", int "isStagingBfxApi", bigint "createdAt",
      bigint "updatedAt"]]

def payInvoiceListColumns : List Column :=
  [idPrimaryKey, varchar "id", bigint "t", int "duration", decimal "amount",
    varchar "currency", varchar "orderId", text "payCurrencies", varchar "webhook",
    varchar "redirectUrl", varchar "status", text "customerInfo", text "invoices",
    text "payment", varchar "merchantName", int "subUserId", intNotNull "user_id"]

def payInvoiceListConstraints : List String :=
  ["payInvoiceList_fk_user_id", "payInvoiceList_fk_subUserId"]

def migrationV43 : SqliteMigration where
  up := [.dropTable .payInvoiceList]
  down := [.createTable .payInvoiceList payInvoiceListColumns payInvoiceListConstraints]

/-- The migration files there are, by version. -/
def migrationFiles : List (ℕ × SqliteMigration) :=
  [(34, migrationV34), (35, migrationV35), (36, migrationV36), (37, migrationV37),
    (38, migrationV38), (39, migrationV39), (40, migrationV40), (41, migrationV41),
    (42, migrationV42), (43, migrationV43)]

/-! ### The schemas of the versions -/

/-- The models of the release, as far as migrations touch their tables. -/
def models : Schema
  | .users => some ⟨↑[idPrimaryKey, bigint "id", varchar "email", varchar "apiKey",
      varchar "apiSecret", varchar "authToken", int "active", int "isDataFromDb",
      varchar "timezone", varchar "username", varchar "localUsername",
      varchar "passwordHash", int "isNotProtected", int "isSubAccount", int "isSubUser",
      int "shouldNotSyncOnStartupAfterUpdate", int "isSyncOnStartupRequired",
      int "authTokenTTLSec", int "isStagingBfxApi", int "isUserMerchant",
      bigint "createdAt", bigint "updatedAt"], 0⟩
  | .currencies => some ⟨↑[idPrimaryKey, varchar "id", varchar "name", varchar "pool",
      text "explorer", varchar "symbol", text "walletFx"], 0⟩
  | .marginCurrencyList => some ⟨↑[idPrimaryKey, varchar "symbol"], 0⟩
  | .progress => some ⟨↑[idPrimaryKey, varchar "error", decimal "value", varchar "state",
      bigint "createdAt", bigint "updatedAt"], 0⟩
  | .publicCollsConfCyrillic => none
  | .publicCollsConf => some ⟨↑[idPrimaryKey, varchar "confName", varchar "symbol",
      bigint "start", varchar "timeframe", intNotNull "user_id", bigint "createdAt",
      bigint "updatedAt"], ↑["publicCollsConf_fk_user_id"]⟩
  | .ledgers => some ⟨↑[idPrimaryKey, bigint "id", varchar "currency", bigint "mts",
      decimal "amount", decimal "amountUsd", decimal "exactUsdValue", decimal "balance",
      decimal "_nativeBalance", decimal "balanceUsd", decimal "_nativeBalanceUsd",
      text "description", varchar "wallet", int "_category", int "_isMarginFundingPayment",
      int "_isAffiliateRebate", int "_isStakingPayments", int "_isSubAccountsTransfer",
      int "_isBalanceRecalced", int "_isInvoicePayOrder", int "_isAirdropOnWallet",
      int "subUserId", intNotNull "user_id"],
      ↑["ledgers_fk_user_id", "ledgers_fk_subUserId"]⟩
  | .trades => some ⟨↑[idPrimaryKey, bigint "id", varchar "symbol", bigint "mtsCreate",
      bigint "orderID", decimal "execAmount", decimal "execPrice", decimal "exactUsdValue",
      varchar "orderType", decimal "orderPrice", int "maker", decimal "fee",
      varchar "feeCurrency", int "subUserId", int "_isExchange", intNotNull "user_id"],
      ↑["trades_fk_user_id", "trades_fk_subUserId"]⟩
  | .movements => some ⟨↑[idPrimaryKey, bigint "id", varchar "currency",
      varchar "currencyName", bigint "mtsStarted", bigint "mtsUpdated", varchar "status",
      decimal "amount", decimal "amountUsd", decimal "exactUsdValue", decimal "fees",
      varchar "destinationAddress", varchar "transactionId", text "note",
      int "subUserId", intNotNull "user_id"],
      ↑["movements_fk_user_id", "movements_fk_subUserId"]⟩
  | .payInvoiceList => none

/-- The table without the columns of these names. -/
def TableDef.without (definition : TableDef) (names : List String) : TableDef :=
  { definition with columns := definition.columns.filter (·.name ∉ names) }

/-- The columns of a table that came with a later version than `v`. -/
def laterColumns (v : ℕ) : Table → List String
  | .users =>
      (if v < 34 then ["authTokenTTLSec"] else []) ++
      (if v < 35 then ["localUsername"] else []) ++
      (if v < 39 then ["isStagingBfxApi"] else []) ++
      (if v < 42 then ["isUserMerchant"] else [])
  | .currencies => if v < 36 then ["symbol"] else []
  | .ledgers =>
      if v < 41 then ["exactUsdValue", "_isInvoicePayOrder", "_isAirdropOnWallet"] else []
  | .trades => if v < 41 then ["exactUsdValue", "_isExchange"] else []
  | .movements => if v < 41 then ["exactUsdValue"] else []
  | _ => []

/-- The schema of the versions 33 to 43: the models of the release, back to the
columns and tables that there were. -/
def releasedSchema (v : ℕ) (table : Table) : Option TableDef :=
  match table with
  | .marginCurrencyList => if v < 37 then none else models .marginCurrencyList
  | .progress =>
      if v < 38 then
        some ⟨↑[idPrimaryKey, varchar "value", bigint "createdAt", bigint "updatedAt"], 0⟩
      else models .progress
  | .publicCollsConfCyrillic =>
      if v < 40 then some ⟨publicCollsConfColumns, ↑["publicСollsСonf_fk_user_id"]⟩ else none
  | .publicCollsConf => if v < 40 then none else models .publicCollsConf
  | .payInvoiceList =>
      if v < 43 then some ⟨payInvoiceListColumns, payInvoiceListConstraints⟩ else none
  | table => (models table).map (·.without (laterColumns v table))

/-- The last version has the schema of the models. -/
example : releasedSchema 43 = models := by decide +kernel

/-- Every migration leads up to the schema of its version, and all but migration 41
lead down to the schema of the version before. -/
theorem runQueries_releasedSchema :
    ∀ file ∈ migrationFiles,
      runQueries (releasedSchema (file.1 - 1)) file.2.up = some (releasedSchema file.1) ∧
      (runQueries (releasedSchema file.1) file.2.down = some (releasedSchema (file.1 - 1)) ↔
        file.1 ≠ 41) := by
  decide +kernel

/-- The schemas of the versions that have no migration here are those of `other`
releases. -/
def schemaOf (other : ℕ → Schema) (v : ℕ) : Schema :=
  if v = 0 then fun _ => none
  else if 33 ≤ v ∧ v ≤ 43 then releasedSchema v
  else other v

theorem schemaOf_of_le {other : ℕ → Schema} {v : ℕ} (hfirst : 33 ≤ v) (hlast : v ≤ 43) :
    schemaOf other v = releasedSchema v := by
  rw [schemaOf, if_neg (by omega), if_pos ⟨hfirst, hlast⟩]

def migrationsFactory (v : ℕ) : Option SqliteMigration :=
  migrationFiles.lookup v

theorem mem_migrationFiles {v : ℕ} {file : SqliteMigration}
    (h : migrationsFactory v = some file) : (v, file) ∈ migrationFiles := by
  obtain ⟨before, after, hsplit, _⟩ := List.lookup_eq_some_iff.mp h
  rw [hsplit]
  exact List.mem_append_right before List.mem_cons_self

theorem version_le : ∀ file ∈ migrationFiles, 34 ≤ file.1 ∧ file.1 ≤ 43 := by
  decide

def queries (v : ℕ) (isDown : Bool) : Option (Schema → Option Schema) :=
  (migrationsFactory v).map fun file schema =>
    runQueries schema (if isDown then file.down else file.up)

/-- `createDBStructure` makes the tables that are missing. -/
def createTables (models schema : Schema) : Schema :=
  fun table => schema table <|> models table

theorem createTables_self (models : Schema) : createTables models models = models := by
  funext table
  unfold createTables
  cases models table <;> rfl

theorem createTables_none (models : Schema) :
    createTables models (fun _ => none) = models := by
  funext table
  rfl

theorem queries_schemaOf (other : ℕ → Schema) {v : ℕ} {isDown : Bool}
    (hfile : (migrationsFactory v).isSome) (hleads : v = 41 → isDown = false) :
    (queries v isDown).getD some (schemaOf other (baseOf v isDown)) =
      some (schemaOf other (stampOf v isDown)) := by
  obtain ⟨file, hfind⟩ := Option.isSome_iff_exists.mp hfile
  have hmem := mem_migrationFiles hfind
  obtain ⟨hfirst, hlast⟩ := version_le _ hmem
  obtain ⟨hup, hdown⟩ := runQueries_releasedSchema _ hmem
  have hbelow : schemaOf other (v - 1) = releasedSchema (v - 1) :=
    schemaOf_of_le (by omega) (by omega)
  have hversion : schemaOf other v = releasedSchema v := schemaOf_of_le (by omega) hlast
  rw [queries, hfind, Option.map_some, Option.getD_some]
  cases isDown with
  | false =>
      simp only [baseOf, stampOf, Bool.false_eq_true, if_false]
      rw [hbelow, hversion]
      exact hup
  | true =>
      simp only [baseOf, stampOf, if_true]
      rw [hbelow, hversion]
      exact hdown.mpr fun h41 => Bool.noConfusion (hleads h41)

/-- The migrations under the machine of the database's versions. -/
def migrations (other : ℕ → Schema) : Migrations Schema where
  schemaOf := schemaOf other
  isDBEmpty schema := schema = fun _ => none
  hasFile v := (migrationsFactory v).isSome
  queries := queries
  leads v isDown := !(v == 41 && isDown)
  create v part schema :=
    if part = 0 then createTables (schemaOf other v) schema else schema
  isDBEmpty_iff := by simp [schemaOf]
  leads_schemaOf := by
    intro v isDown hfile hleads
    apply queries_schemaOf other hfile
    rintro rfl
    simpa using hleads
  create_kept := by
    intro v part
    split_ifs
    · exact createTables_self _
    · rfl
  create_empty := by
    intro v
    exact createTables_none _

open DbState

/-- Over every run of starts, failures, deaths and restores in which nothing comes
between a change of the schema and its stamp and migration 41 is not executed downwards:
when no initialisation is running the schema is the one of the stored version; each
migration only ever met the schema it starts from; and a finished call launched exactly
the versions between the two, each once, ascending for up and descending for down. -/
theorem migrations_consistent (other : ℕ → Schema) {s : DbState Schema}
    (hs : (machine (migrations other)).Reachable
      (stampsWhatItDoes (migrations other) · ·) s) :
    (s.running = none → s.db.schema = schemaOf other s.db.userVersion) ∧
      (∀ e ∈ s.executions, e.met = schemaOf other (baseOf e.version e.isDown)) ∧
      ∀ call ∈ s.finished,
        (∀ v, v ∈ call.passed ↔ (call.currVer < v ∧ v ≤ call.supportedVer) ∨
          (call.supportedVer < v ∧ v ≤ call.currVer)) ∧
        (call.isDown = false → call.passed.Pairwise (· < ·)) ∧
        (call.isDown = true → call.passed.Pairwise (· > ·)) := by
  have hinv := inv_of_reachable hs
  exact ⟨hinv.idle, hinv.met, fun call hcall => hinv.passed_versions hcall⟩

namespace StampWitness

def released : Migrations Schema := migrations fun _ _ => none

def stored (v : ℕ) : DbState Schema :=
  ⟨⟨releasedSchema v, v⟩, [], none, [], []⟩

theorem init_stored {v : ℕ} (hfirst : 33 ≤ v) (hlast : v ≤ 43) :
    (machine released).init (stored v) :=
  have hschema : schemaOf (fun _ _ => none) v = releasedSchema v :=
    schemaOf_of_le hfirst hlast
  ⟨hschema.symm, by simp [stored], rfl, rfl, rfl⟩

def isIdle {S : Type*} (s : DbState S) : Bool := s.running.isNone

def deathBehind43 : List DbAction :=
  [.databaseInitialize 43 false, .executeQueriesInTrans, .stop]

def deathBehind42Down : List DbAction :=
  [.databaseInitialize 41 false, .executeQueriesInTrans, .stop,
    .databaseInitialize 41 false, .executeQueriesInTrans]

def downgradeTo40 : List DbAction :=
  [.databaseInitialize 40 false, .executeQueriesInTrans, .setCurrDbVer, .next,
    .createDBStructure, .createDBStructure, .createDBStructure, .setCurrDbVer]

/-- The process dies between the transaction of migration 43 and its stamp; it dies
there in migration 42 downwards, which the next start applies to the schema of version
41; and a downgrade from 41 to 40 without any failure keeps columns of version 41. -/
theorem version_not_of_schema :
    (∃ s, (machine released).Reachable Machine.free s ∧ isIdle s = true ∧
      s.db.userVersion = 42 ∧ s.db.schema = releasedSchema 43 ∧
      s.db.schema ≠ releasedSchema 42) ∧
    (∃ s, (machine released).Reachable Machine.free s ∧
      s.executions.map (fun e => (e.version, e.isDown)) = [(42, true), (42, true)] ∧
      s.executions.map (·.met) = [releasedSchema 42, releasedSchema 41]) ∧
    (∃ s, (machine released).Reachable Machine.free s ∧ isIdle s = true ∧
      s.db.userVersion = 40 ∧ s.db.schema ≠ releasedSchema 40 ∧
      s.finished.map (·.passed) = [[41]]) := by
  have hstored42 := init_stored (v := 42) (by decide) (by decide)
  have hstored41 := init_stored (v := 41) (by decide) (by decide)
  refine ⟨?_, ?_, ?_⟩
  · apply Machine.exists_of_run hstored42
    change ((machine released).run Machine.free (stored 42) deathBehind43).any _ = true
    decide +kernel
  · apply Machine.exists_of_run hstored42
    change ((machine released).run Machine.free (stored 42) deathBehind42Down).any _ = true
    decide +kernel
  · apply Machine.exists_of_run hstored41
    change ((machine released).run Machine.free (stored 41) downgradeTo40).any _ = true
    decide +kernel

/-- Version 43 is migrated to from 41 in two starts, the second one after a failure that
ended in a restored backup; then version 42 is gone back to. -/
def actions : List DbAction :=
  [.databaseInitialize 43 true, .executeQueriesInTrans, .setCurrDbVer, .next, .fail, .stop,
    .restoreDb 0, .databaseInitialize 43 false, .executeQueriesInTrans, .setCurrDbVer, .next,
    .stop, .databaseInitialize 43 false, .executeQueriesInTrans, .setCurrDbVer, .next,
    .createDBStructure, .createDBStructure, .createDBStructure, .setCurrDbVer,
    .databaseInitialize 42 true, .executeQueriesInTrans, .setCurrDbVer, .next, .stop]

def migrated : DbState Schema :=
  ((machine released).run (stampsWhatItDoes released · ·) (stored 41) actions).get
    (by decide +kernel)

theorem reachable_migrated :
    (machine released).Reachable (stampsWhatItDoes released · ·) migrated :=
  (Machine.Reachable.init (init_stored (by decide) (by decide))).run (Option.some_get _).symm

theorem migrations_consistent_of_migrated :
    (migrated.db.userVersion = 42 ∧ migrated.finished.map (·.passed) = [[43], [43]] ∧
      migrated.executions.map (·.version) = [42, 42, 43, 43]) ∧
    (migrated.running = none →
      migrated.db.schema = released.schemaOf migrated.db.userVersion) ∧
      (∀ e ∈ migrated.executions, e.met = released.schemaOf (baseOf e.version e.isDown)) ∧
      ∀ call ∈ migrated.finished,
        (∀ v, v ∈ call.passed ↔ (call.currVer < v ∧ v ≤ call.supportedVer) ∨
          (call.supportedVer < v ∧ v ≤ call.currVer)) ∧
        (call.isDown = false → call.passed.Pairwise (· < ·)) ∧
        (call.isDown = true → call.passed.Pairwise (· > ·)) :=
  ⟨by decide +kernel, migrations_consistent (fun _ _ => none) reachable_migrated⟩

end StampWitness

end SqliteMigrations

end ReportsFramework
