/-
The query queue of the SQLite DAO: `query`, `_beginTrans`, `_proccesTrans` and
`manageTransaction`.  The code between two `await`s is one step; which caller
goes on next is left open.  Promises are numbered in the order they are made; a
number stands for the call of `query` or `_beginTrans` that made the promise.
-/
import Mathlib.Data.Finset.Basic
import ReportsFramework.Machine
import ReportsFramework.Turnstile

namespace ReportsFramework

/-- How a statement, a body or a promise ended: it returned, it threw `database
is locked`, or it threw something else. -/
inductive Outcome
  | ok
  | locked
  | failed
deriving DecidableEq, Repr

/-- Where a call stands, named by the `await` it is at.  `depth` counts the calls
of `_proccesTrans` on the stack. -/
inductive CallPhase
  | uncalled
  | awaitsTrans (snapshot : Finset ℕ)
  | queryEnded (res : Outcome)
  | queryTimeout
  | queryRetried (again : ℕ)
  | queryReturned (res : Outcome)
  | awaitsQueries (snapshot : Finset ℕ)
  | awaitsTransPromises (promise : ℕ) (snapshot : Finset ℕ)
  | beforeTrans (depth : ℕ)
  | inTrans (depth : ℕ)
  | afterTrans (depth : ℕ)
  | caught (depth : ℕ) (err : Outcome)
  | transTimeout (depth : ℕ)
  | transEnded (res : Outcome)
  | managed (res : Outcome)
  | transSettled (res : Outcome)
  | transReturned (res : Outcome)
deriving DecidableEq

namespace CallPhase

/-- The promise a call keeps in `_querySet` has not settled. -/
def queryPending : CallPhase → Bool
  | awaitsTrans _ => true
  | _ => false

/-- The promise a call keeps in `_transQuerySet` has not settled. -/
def transPending : CallPhase → Bool
  | awaitsQueries _ | awaitsTransPromises _ _ | beforeTrans _ | inTrans _
  | afterTrans _ | caught _ _ | transTimeout _ | transEnded _ | managed _ => true
  | _ => false

/-- The promise a call keeps in `_transactionPromisesSet` has not settled. -/
def managedPending : CallPhase → Bool
  | awaitsTransPromises _ _ | beforeTrans _ | inTrans _ | afterTrans _
  | caught _ _ | transTimeout _ => true
  | _ => false

/-- `asyncExecQuery`, `beforeTransFn` or `afterTransFn` of the call may be
running. -/
def runsBody : CallPhase → Bool
  | beforeTrans _ | inTrans _ | afterTrans _ | caught _ _ => true
  | _ => false

end CallPhase

/-- What the connection executed, and for whom.  `forcedRollback` is SQLite
giving up the open transaction by itself after an error. -/
inductive DbEvent
  | statement (caller : ℕ)
  | begin (caller : ℕ)
  | commit (caller : ℕ)
  | rollback (caller : ℕ)
  | forcedRollback (caller : ℕ)
deriving DecidableEq, Repr

def DbEvent.caller : DbEvent → ℕ
  | statement c | begin c | commit c | rollback c | forcedRollback c => c

/-- The one connection.  `transaction` is the caller that began the transaction
it is in, if it is in one. -/
structure Connection where
  transaction : Option ℕ
  log : List DbEvent

namespace Connection

def inTransaction (db : Connection) : Bool := db.transaction.isSome

/-- Execute a statement; an error may make SQLite roll the transaction back. -/
def run (db : Connection) (c : ℕ) (forced : Bool) : Connection :=
  match forced, db.transaction with
  | true, some owner =>
      ⟨none, db.log ++ [.statement c, .forcedRollback owner]⟩
  | _, _ => ⟨db.transaction, db.log ++ [.statement c]⟩

def begin (db : Connection) (t : ℕ) : Connection :=
  ⟨some t, db.log ++ [.begin t]⟩

def commit (db : Connection) (t : ℕ) : Connection :=
  ⟨none, db.log ++ [.commit t]⟩

def rollback (db : Connection) (t : ℕ) : Connection :=
  ⟨none, db.log ++ [.rollback t]⟩

end Connection

structure Dao where
  next : ℕ
  phase : ℕ → CallPhase
  querySet : Finset ℕ
  transQuerySet : Finset ℕ
  transactionPromisesSet : Finset ℕ
  lockedDbRetryAmount : ℕ
  lockedDbRetryInTrxAmount : ℕ
  db : Connection

namespace Dao

def init : Dao := ⟨0, fun _ => .uncalled, ∅, ∅, ∅, 0, 0, ⟨none, []⟩⟩

def goTo (s : Dao) (c : ℕ) (phase : CallPhase) : Dao :=
  { s with phase := Function.update s.phase c phase }

/-- `query` up to its first `await`: the promise is made and registered. -/
def query (s : Dao) : Dao :=
  { s.goTo s.next (.awaitsTrans s.transQuerySet) with
    next := s.next + 1
    querySet := insert s.next s.querySet }

/-- `_beginTrans` up to its first `await`; with `isNotInTrans` it makes no promise
and its statements are those of the caller. -/
def beginTrans (s : Dao) : Dao :=
  { s.goTo s.next (.awaitsQueries s.querySet) with
    next := s.next + 1
    transQuerySet := insert s.next s.transQuerySet }

/-- `manageTransaction`, entered by the call `t`, up to its first `await`. -/
def manageTransaction (s : Dao) (t : ℕ) : Dao :=
  { s.goTo t (.awaitsTransPromises s.next s.transactionPromisesSet) with
    next := s.next + 1
    transactionPromisesSet := insert t s.transactionPromisesSet }

@[simp, grind =] theorem db_goTo (s : Dao) (c : ℕ) (p : CallPhase) :
    (s.goTo c p).db = s.db := rfl

@[simp, grind =] theorem next_goTo (s : Dao) (c : ℕ) (p : CallPhase) :
    (s.goTo c p).next = s.next := rfl

@[simp, grind =] theorem db_query (s : Dao) : s.query.db = s.db := rfl

@[simp, grind =] theorem db_beginTrans (s : Dao) : s.beginTrans.db = s.db := rfl

@[simp, grind =] theorem db_manageTransaction (s : Dao) (t : ℕ) :
    (s.manageTransaction t).db = s.db := rfl

@[grind =] theorem phase_goTo (s : Dao) (c d : ℕ) (p : CallPhase) :
    (s.goTo c p).phase d = if d = c then p else s.phase d :=
  Function.update_apply s.phase c p d

@[simp, grind =] theorem next_query (s : Dao) : s.query.next = s.next + 1 := rfl

@[grind =] theorem phase_query (s : Dao) (c : ℕ) :
    s.query.phase c =
      if c = s.next then .awaitsTrans s.transQuerySet else s.phase c :=
  Function.update_apply ..

@[simp, grind =] theorem next_beginTrans (s : Dao) :
    s.beginTrans.next = s.next + 1 := rfl

@[grind =] theorem phase_beginTrans (s : Dao) (c : ℕ) :
    s.beginTrans.phase c =
      if c = s.next then .awaitsQueries s.querySet else s.phase c :=
  Function.update_apply ..

@[simp, grind =] theorem next_manageTransaction (s : Dao) (t : ℕ) :
    (s.manageTransaction t).next = s.next + 1 := rfl

@[grind =] theorem phase_manageTransaction (s : Dao) (t c : ℕ) :
    (s.manageTransaction t).phase c =
      if c = t then .awaitsTransPromises s.next s.transactionPromisesSet
      else s.phase c :=
  Function.update_apply ..

/-- The `catch` of `_proccesTrans` up to its first `await`: a transaction the
call has begun is rolled back unless SQLite has done so. -/
def catchTrans (s : Dao) (t depth : ℕ) (isTransBegun : Bool) (err : Outcome) :
    Dao :=
  if s.db.inTransaction && isTransBegun then
    { s.goTo t (.caught depth err) with db := s.db.rollback t }
  else s.goTo t (.caught depth err)

@[grind =] theorem phase_catchTrans (s : Dao) (t depth : ℕ) (isTransBegun : Bool)
    (err : Outcome) (c : ℕ) :
    (s.catchTrans t depth isTransBegun err).phase c =
      if c = t then .caught depth err else s.phase c := by
  unfold catchTrans
  split <;> exact Function.update_apply ..

@[simp, grind =] theorem next_catchTrans (s : Dao) (t depth : ℕ)
    (isTransBegun : Bool) (err : Outcome) :
    (s.catchTrans t depth isTransBegun err).next = s.next := by
  unfold catchTrans
  split <;> rfl

@[grind =] theorem transaction_catchTrans (s : Dao) (t depth : ℕ)
    (isTransBegun : Bool) (err : Outcome) :
    (s.catchTrans t depth isTransBegun err).db.transaction =
      if isTransBegun then none else s.db.transaction := by
  unfold catchTrans
  cases isTransBegun <;> cases ht : s.db.transaction <;>
    simp [Connection.inTransaction, Connection.rollback, goTo, ht]

end Dao

/-- What may happen next.  `forced` says whether the statement made SQLite roll
back, `res` and `err` how it ended. -/
inductive DaoAction
  | query
  | direct (c : ℕ) (forced : Bool)
  | runQuery (q : ℕ) (res : Outcome) (forced : Bool)
  | settleQuery (q : ℕ)
  | retryQuery (q : ℕ)
  | finishRetry (q : ℕ)
  | beginTrans
  | manageTransaction (t : ℕ)
  | proccesTrans (t : ℕ)
  | begin (t : ℕ)
  | commit (t : ℕ)
  | throw (t : ℕ) (err : Outcome)
  | rethrow (t : ℕ)
  | retryTrans (t : ℕ)
  | returnTrans (t : ℕ)
  | deleteTransactionPromise (t : ℕ)
  | settleTrans (t : ℕ)
  | deleteTransQuery (t : ℕ)
deriving DecidableEq

namespace Dao

/-- One step of the DAO; `none` if the action cannot happen now. -/
def step (s : Dao) : DaoAction → Option Dao
  | .query => some s.query
  -- `doNotQueueQuery`: nothing is awaited
  | .direct c forced => some { s with db := s.db.run c forced }
  | .runQuery q res forced =>
      match s.phase q with
      | .awaitsTrans snapshot =>
          if ∀ t ∈ snapshot, ¬ (s.phase t).transPending then
            some { s.goTo q (.queryEnded res) with db := s.db.run q forced }
          else none
      | _ => none
  | .settleQuery q =>
      match s.phase q with
      | .queryEnded res =>
          some { s.goTo q (if res = .locked ∧ s.lockedDbRetryAmount < 3
              then .queryTimeout else .queryReturned res) with
            querySet := s.querySet.erase q }
      | _ => none
  | .retryQuery q =>
      match s.phase q with
      | .queryTimeout =>
          some { (s.goTo q (.queryRetried s.next)).query with
            lockedDbRetryAmount := s.lockedDbRetryAmount + 1 }
      | _ => none
  | .finishRetry q =>
      match s.phase q with
      | .queryRetried again =>
          match s.phase again with
          | .queryReturned res =>
              some { s.goTo q (.queryReturned res) with
                lockedDbRetryAmount :=
                  if res = .ok then 0 else s.lockedDbRetryAmount }
          | _ => none
      | _ => none
  | .beginTrans => some s.beginTrans
  | .manageTransaction t =>
      match s.phase t with
      | .awaitsQueries snapshot =>
          if ∀ q ∈ snapshot, ¬ (s.phase q).queryPending then
            some (s.manageTransaction t)
          else none
      | _ => none
  | .proccesTrans t =>
      match s.phase t with
      | .awaitsTransPromises _ snapshot =>
          if ∀ t' ∈ snapshot, ¬ (s.phase t').managedPending then
            some (s.goTo t (.beforeTrans 1))
          else none
      | _ => none
  | .begin t =>
      match s.phase t with
      | .beforeTrans depth =>
          if s.db.inTransaction then none
          else some { s.goTo t (.inTrans depth) with db := s.db.begin t }
      | _ => none
  | .commit t =>
      match s.phase t with
      | .inTrans depth =>
          if s.db.inTransaction then
            some { s.goTo t (.afterTrans depth) with db := s.db.commit t }
          else none
      | _ => none
  | .throw t err =>
      match s.phase t with
      | .beforeTrans depth | .afterTrans depth =>
          if err = .ok then none else some (s.catchTrans t depth false err)
      | .inTrans depth =>
          if err = .ok then none else some (s.catchTrans t depth true err)
      | _ => none
  | .rethrow t =>
      match s.phase t with
      | .caught depth err =>
          some (s.goTo t (if err = .locked ∧ s.lockedDbRetryInTrxAmount < 3
            then .transTimeout depth else .transEnded err))
      | _ => none
  | .retryTrans t =>
      match s.phase t with
      | .transTimeout depth =>
          some { s.goTo t (.beforeTrans (depth + 1)) with
            lockedDbRetryInTrxAmount := s.lockedDbRetryInTrxAmount + 1 }
      | _ => none
  | .returnTrans t =>
      match s.phase t with
      | .afterTrans depth =>
          some { s.goTo t (.transEnded .ok) with
            lockedDbRetryInTrxAmount :=
              if 1 < depth then 0 else s.lockedDbRetryInTrxAmount }
      | _ => none
  | .deleteTransactionPromise t =>
      match s.phase t with
      | .transEnded res =>
          some { s.goTo t (.managed res) with
            transactionPromisesSet := s.transactionPromisesSet.erase t }
      | _ => none
  | .settleTrans t =>
      match s.phase t with
      | .managed res => some (s.goTo t (.transSettled res))
      | _ => none
  | .deleteTransQuery t =>
      match s.phase t with
      | .transSettled res =>
          some { s.goTo t (.transReturned res) with
            transQuerySet := s.transQuerySet.erase t }
      | _ => none

/-- The statements that pass `doNotQueueQuery` are those of a running body. -/
def Queued (s : Dao) : DaoAction → Prop
  | .direct c _ => (s.phase c).runsBody
  | _ => True

instance (s : Dao) (a : DaoAction) : Decidable (s.Queued a) := by
  unfold Queued
  split <;> infer_instance

/-- Any order of steps. -/
def machine : Machine Dao DaoAction where
  init s := s = init
  step := step

/-- Whom the promise of a call, or the call itself, waits for. -/
inductive Waits (s : Dao) : ℕ → ℕ → Prop
  | trans {q t snapshot} : s.phase q = .awaitsTrans snapshot → t ∈ snapshot →
      (s.phase t).transPending → Waits s q t
  | query {t q snapshot} : s.phase t = .awaitsQueries snapshot → q ∈ snapshot →
      (s.phase q).queryPending → Waits s t q
  | transPromise {t t' promise snapshot} :
      s.phase t = .awaitsTransPromises promise snapshot → t' ∈ snapshot →
      (s.phase t').managedPending → Waits s t t'
  | retry {q again} : s.phase q = .queryRetried again → Waits s q again

end Dao

end ReportsFramework
