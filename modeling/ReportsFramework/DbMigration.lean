/-
Schema migrations.  A migration executes its queries in one transaction and then
stamps the version of the database; the initialisation of the database walks over
the versions between the stored and the supported one, creates what is missing and
stamps the supported version.  A query may fail, or the process may die, between
any two of these steps.
-/
import Mathlib.Data.List.Sort
import ReportsFramework.Machine

namespace ReportsFramework

/-- The versions to migrate, in order. -/
def migrationRange (start stop : ℕ) : List ℕ :=
  if stop < start then
    ((List.range (start - stop)).map (stop + 1 + ·)).reverse
  else (List.range (stop - start)).map (start + 1 + ·)

/-- The version a migration leaves. -/
def stampOf (v : ℕ) (isDown : Bool) : ℕ :=
  if isDown then v - 1 else v

/-- The version a migration starts from. -/
def baseOf (v : ℕ) (isDown : Bool) : ℕ :=
  if isDown then v else v - 1

/-- The schemas of the versions and the migrations between them.  `queries v isDown` is
what the queries of migration `v` do to the schema, if it has any; one of them may fail.
`leads` says which migrations lead from the schema of one version to that of the other.
`create v k` is the part `k` of creating the structure of version `v` (tables, indexes,
triggers). -/
structure Migrations (S : Type*) where
  schemaOf : ℕ → S
  isDBEmpty : S → Bool
  hasFile : ℕ → Bool
  queries : ℕ → Bool → Option (S → Option S)
  leads : ℕ → Bool → Bool
  create : ℕ → ℕ → S → S
  isDBEmpty_iff {schema} : isDBEmpty schema = true ↔ schema = schemaOf 0
  /-- A migration without queries leaves the schema as it is. -/
  leads_schemaOf {v isDown} : hasFile v = true → leads v isDown = true →
    (queries v isDown).getD some (schemaOf (baseOf v isDown)) =
      some (schemaOf (stampOf v isDown))
  create_kept {v k} : create v k (schemaOf v) = schemaOf v
  create_empty {v} : create v 2 (create v 1 (create v 0 (schemaOf 0))) = schemaOf v

structure Db (S : Type*) where
  schema : S
  userVersion : ℕ

/-- Where `launch` of the current migration stands: before its transaction,
between the transaction and the version stamp, or behind both. -/
inductive LaunchPoint
  | before
  | executed
  | after
deriving DecidableEq

/-- A running `migrate`: what it was called for, the versions launched so far,
and those still to launch, the first of them being at `point`. -/
structure MigrateCall where
  currVer : ℕ
  supportedVer : ℕ
  passed : List ℕ
  todo : List ℕ
  point : LaunchPoint

def MigrateCall.isDown (call : MigrateCall) : Bool :=
  call.supportedVer < call.currVer

/-- One execution of a migration's queries, and the schema it met. -/
structure Execution (S : Type*) where
  version : ℕ
  isDown : Bool
  met : S

/-- Where `databaseInitialize` stands: migrating; asking what to do after a failed
migration; having removed all tables; creating the structure, with `done` parts of
it behind; before the last version stamp. -/
inductive InitStage
  | migrating (call : MigrateCall)
  | failed
  | removed
  | creating (done : ℕ)
  | stamping

structure DbState (S : Type*) where
  db : Db S
  backups : List (Db S)
  /-- The supported version of the running initialisation, and its stage. -/
  running : Option (ℕ × InitStage)
  executions : List (Execution S)
  finished : List MigrateCall

/-- `fail` is an error of a migration, which the initialisation takes up; `stop` is
the end of the process or of an initialisation that throws. -/
inductive DbAction
  | databaseInitialize (supportedVer : ℕ) (backedUp : Bool)
  | executeQueriesInTrans
  | setCurrDbVer
  | next
  | fail
  | restoreDb (i : ℕ)
  | removeAllTables
  | createDBStructure
  | stop
deriving DecidableEq

namespace DbState

variable {S : Type*} (M : Migrations S)

/-- What `execute` does in the transaction: nothing for version 0 or an empty `sqlArr`. -/
def sqlArr (v : ℕ) (isDown : Bool) : Option (S → Option S) :=
  if v = 0 then none else M.queries v isDown

/-- Whether `migrateFromCurrToSupportedVer` has nothing to migrate. -/
def returnsAtOnce (db : Db S) (supportedVer : ℕ) : Bool :=
  M.isDBEmpty db.schema || db.userVersion = supportedVer

/-- Each step of a migration, on the call it belongs to. -/
def migrateStep (s : DbState S) (sup : ℕ) (call : MigrateCall) :
    DbAction → Option (DbState S)
  | .executeQueriesInTrans =>
      match call.todo, call.point with
      | v :: _, .before =>
          match sqlArr M v call.isDown with
          -- a query that fails rolls the transaction back: what is left is `fail`
          | some f => (f s.db.schema).map fun schema => { s with
              db := { s.db with schema := schema }
              running := some (sup, .migrating { call with point := .executed })
              executions := s.executions ++ [⟨v, call.isDown, s.db.schema⟩] }
          | none => some { s with
              running := some (sup, .migrating { call with point := .after }) }
      | _, _ => none
  | .setCurrDbVer =>
      match call.todo, call.point with
      | v :: _, .executed => some { s with
          db := { s.db with userVersion := stampOf v call.isDown }
          running := some (sup, .migrating { call with point := .after }) }
      | _, _ => none
  | .next =>
      match call.todo, call.point with
      | v :: rest, .after =>
          let call' := { call with passed := call.passed ++ [v], todo := rest, point := .before }
          if rest = [] then some { s with
            running := some (sup, .creating 0), finished := s.finished ++ [call'] }
          else some { s with running := some (sup, .migrating call') }
      | _, _ => none
  | .fail => some { s with running := some (sup, .failed) }
  | _ => none

def step (s : DbState S) (a : DbAction) : Option (DbState S) :=
  match s.running, a with
  | none, .databaseInitialize supportedVer backedUp =>
      if returnsAtOnce M s.db supportedVer then
        some { s with running := some (supportedVer, .creating 0) }
      else some { s with
        -- a failed backup is only logged
        backups := if backedUp then s.db :: s.backups else s.backups
        running := some (supportedVer,
          -- `migrationsFactory` throws before the first launch if a file is missing
          if (migrationRange s.db.userVersion supportedVer).all M.hasFile then
            .migrating ⟨s.db.userVersion, supportedVer, [],
              migrationRange s.db.userVersion supportedVer, .before⟩
          else .failed) }
  | none, .restoreDb i => s.backups[i]?.map fun db => { s with db := db }
  | some _, .stop => some { s with running := none }
  | some (sup, .migrating call), a => migrateStep M s sup call a
  | some (sup, .failed), .restoreDb i =>
      (s.backups[i]?.filter fun db => db.userVersion ≤ sup).map fun db =>
        { s with db := db, running := some (sup, .creating 0) }
  | some (sup, .failed), .removeAllTables => some { s with
      db := { s.db with schema := M.schemaOf 0 }, running := some (sup, .removed) }
  | some (sup, .removed), .setCurrDbVer => some { s with
      db := { s.db with userVersion := 0 }, running := some (sup, .creating 0) }
  | some (sup, .creating done), .createDBStructure => some { s with
      db := { s.db with schema := M.create sup done s.db.schema }
      running := some (sup, if done = 2 then .stamping else .creating (done + 1)) }
  | some (sup, .stamping), .setCurrDbVer => some { s with
      db := { s.db with userVersion := sup }, running := none }
  | _, _ => none

end DbState

/-- The version of the database is the version whose schema is in it. -/
def Db.Consistent {S : Type*} (M : Migrations S) (db : Db S) : Prop :=
  db.schema = M.schemaOf db.userVersion

namespace DbState

variable {S : Type*} (M : Migrations S)

/-- No process running yet; any database and backups that are consistent. -/
def machine : Machine (DbState S) DbAction where
  init s := s.db.Consistent M ∧ (∀ db ∈ s.backups, db.Consistent M) ∧
    s.running = none ∧ s.executions = [] ∧ s.finished = []
  step := step M

/-- The schema has been changed, and its version is still to be stamped. -/
def unstamped (s : DbState S) : Bool :=
  match s.running with
  | some (_, .migrating call) => call.point = .executed
  | some (_, .removed) => s.db.userVersion ≠ 0
  | some (sup, .creating done) => done ≠ 0 && s.db.userVersion ≠ sup
  | some (sup, .stamping) => s.db.userVersion ≠ sup
  | _ => false

/-- Nothing stops or fails between a change of the schema and its version stamp, no
migration is launched that misses the schema it is to lead to, and an initialisation
restores a backup of no other version than the supported one. -/
def stampsWhatItDoes (s : DbState S) : DbAction → Bool
  | .stop | .fail => !s.unstamped
  | .executeQueriesInTrans =>
      match s.running with
      | some (_, .migrating call) => call.todo.head?.all (M.leads · call.isDown)
      | _ => true
  | .restoreDb i =>
      match s.running, s.backups[i]? with
      | some (sup, .failed), some db => db.userVersion = sup
      | _, _ => true
  | _ => true

end DbState

end ReportsFramework
