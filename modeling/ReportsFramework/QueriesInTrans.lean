/-
`executeQueriesInTrans`.  What it is given is made into the body of a transaction, one
element after another; with worker threads it is taken apart into texts and parameters,
and both hooks stand around the one query that executes them.
-/
import ReportsFramework.TransactionOutcome

namespace ReportsFramework

namespace TransRun

section Queries

variable {ν : Type}

/-- The parameters of a statement: one argument, or an array of them. -/
inductive Values (ν : Type)
  | one (v : ν)
  | list (vs : List ν)
deriving DecidableEq

structure DbQuery (ν : Type) where
  sql : String
  values : Option (Values ν)
deriving DecidableEq

/-- What `executeQueriesInTrans` may be given: a query, a function, an object with
either, or something else. -/
inductive SqlData (ν : Type)
  | text (sql : String)
  | execQueryFn
  | object (sql : Option String) (values : Option (Values ν)) (execQueryFn : Bool)
  | other

namespace SqlData

/-- The query of an element, if it has one. -/
def query? : SqlData ν → Option (DbQuery ν)
  | text sql => if sql = "" then none else some ⟨sql, none⟩
  | object (some sql) values _ => if sql = "" then none else some ⟨sql, values⟩
  | _ => none

def hasExecQueryFn : SqlData ν → Bool
  | .execQueryFn => true
  | object _ _ given => given
  | _ => false

def isText : SqlData ν → Bool
  | text _ => true
  | _ => false

end SqlData

/-- `sql`, which may be an array. -/
inductive SqlArg (ν : Type)
  | one (sqlData : SqlData ν)
  | many (sqlArr : List (SqlData ν))

namespace SqlArg

def isArray : SqlArg ν → Bool
  | one _ => false
  | many _ => true

def sqlArr : SqlArg ν → List (SqlData ν)
  | one sqlData => [sqlData]
  | many sqlArr => sqlArr

end SqlArg

/-- What the query and the function of an element meet. -/
structure ElementRun (ν : Type) where
  query : Outcome
  forced : Bool
  fn : BodyRun (DbQuery ν)

def BodyRun.andThen {ε : Type} (body rest : BodyRun ε) : BodyRun ε :=
  if body.res = .ok then ⟨body.statements ++ rest.statements, rest.res⟩ else body

def execQuery (sqlData : SqlData ν) (run : ElementRun ν) : BodyRun (DbQuery ν) :=
  match sqlData.query? with
  | none => ⟨[], .ok⟩
  | some query =>
      if run.query = .ok then ⟨[.effect query], .ok⟩
      else ⟨if run.forced then [.forcedRollback] else [], run.query⟩

def execQueryFn (sqlData : SqlData ν) (run : ElementRun ν) : BodyRun (DbQuery ν) :=
  if sqlData.hasExecQueryFn then run.fn else ⟨[], .ok⟩

/-- The body made of the elements from the `i`-th on. -/
def execQueries (runs : ℕ → ElementRun ν) : ℕ → List (SqlData ν) → BodyRun (DbQuery ν)
  | _, [] => ⟨[], .ok⟩
  | i, sqlData :: rest =>
      -- `SqlCorrectnessError`
      if sqlData.query?.isNone && !sqlData.hasExecQueryFn then ⟨[], .failed⟩
      else (execQuery sqlData (runs i)).andThen
        ((execQueryFn sqlData (runs i)).andThen (execQueries runs (i + 1) rest))

/-- The queries and parameters for the worker threads.  For a text `push` is called
without an argument, which adds nothing. -/
def workerQueries : List (SqlData ν) → Option (List (Option String) × List (Option (Values ν)))
  | [] => some ([], [])
  | .text sql :: rest =>
      if sql = "" then none
      else (workerQueries rest).map fun accum => (some sql :: accum.1, accum.2)
  | .object sql values _ :: rest =>
      (workerQueries rest).map fun accum => (sql :: accum.1, values :: accum.2)
  | _ :: _ => none

/-- A text that can be prepared. -/
def prepare : Option String → Option String
  | some sql => if sql = "" then none else some sql
  | none => none

/-- The statements that `RUN_IN_TRANS` executes, if all texts can be prepared. -/
def runInTrans (isArray : Bool) (query : List (Option String))
    (params : List (Option (Values ν))) : Option (List (DbQuery ν)) :=
  (query.mapM prepare).map fun stms =>
    if isArray then List.zipWith DbQuery.mk stms params
    else
      match stms.head?, params.head?.join with
      | some sql, some (.list vs) => vs.map fun v => ⟨sql, some (.one v)⟩
      | some sql, values => [⟨sql, values⟩]
      | none, _ => []

/-- The `try` around the query of the worker threads. -/
def tryWorker {β : Type} (opts : TransOpts) (script : TransScript β)
    (effects? : Option (List (DbQuery ν))) : Trans (DbQuery ν) Unit := do
  beforeTransFn opts script.before
  let effects ← .orFail .failed effects?
  settle script.runInTrans
  .write fun s => { s with committed := s.committed ++ [effects] }
  afterTransFn opts script.after

/-- The `catch` around it. -/
def catchWorker {β : Type} (opts : TransOpts) (script : TransScript β) (err : Outcome) :
    Trans (DbQuery ν) Unit := do
  afterTransFn opts script.lateAfter
  .fail err

/-- `executeQueriesInTrans`, once it is its turn. -/
def executeQueriesInTrans (opts : TransOpts) (sql : SqlArg ν)
    (scripts : ℕ → TransScript (ℕ → ElementRun ν)) : Trans (DbQuery ν) Unit :=
  if sql.sqlArr.isEmpty then pure ()
  else if !opts.withWorkerThreads then
    beginTrans opts fun k => { scripts k with
      body := execQueries (scripts k).body 0 sql.sqlArr }
  else do
    let (query, params) ← .orFail .failed (workerQueries sql.sqlArr)
    .orHandle (catchWorker opts (scripts 0))
      (tryWorker opts (scripts 0) (runInTrans sql.isArray query params))

/-- What the worker threads would execute. -/
def workerEffects (sql : SqlArg ν) : Option (List (DbQuery ν)) :=
  (workerQueries sql.sqlArr).bind fun accum => runInTrans sql.isArray accum.1 accum.2

/-- The queries of a body that consists of nothing else. -/
def plainQueries : List (SqlData ν) → Option (List (DbQuery ν))
  | [] => some []
  | sqlData :: rest =>
      if sqlData.hasExecQueryFn then none
      else sqlData.query?.bind fun query => (plainQueries rest).map (query :: ·)

/-- The worker threads get all of the body: objects without a function in an array, or
one query without an array of parameters. -/
def SqlArg.Passed : SqlArg ν → Prop
  | .many sqlArr => ∀ sqlData ∈ sqlArr, sqlData.isText = false ∧ sqlData.hasExecQueryFn = false
  | .one (.object _ (some (.list _)) _) => False
  | .one sqlData => sqlData.hasExecQueryFn = false

/-- The effects of the body: those of a whole run of it, or the queries themselves. -/
def BodyEffects (opts : TransOpts) (sql : SqlArg ν)
    (scripts : ℕ → TransScript (ℕ → ElementRun ν)) (effects : List (DbQuery ν)) : Prop :=
  if opts.withWorkerThreads then plainQueries sql.sqlArr = some effects
  else ∃ k, (execQueries (scripts k).body 0 sql.sqlArr).res = .ok ∧
    effectsOf (execQueries (scripts k).body 0 sql.sqlArr).statements = effects

/-- An empty array has no effects to commit. -/
def QueriesRight (opts : TransOpts) (sql : SqlArg ν)
    (scripts : ℕ → TransScript (ℕ → ElementRun ν))
    (run : Except Outcome Unit × TransState (DbQuery ν)) : Prop :=
  OutcomeRight opts run
    (if sql.sqlArr = [] then run.2.committed = []
      else ∃ effects, BodyEffects opts sql scripts effects ∧ run.2.committed = [effects])
    (sql.sqlArr ≠ [] ∧ run.2.committed = [])

/-- If the query of the worker threads succeeds, it is all of the body, and
`afterTransFn` does not throw. -/
def WorkerClean {β : Type} (opts : TransOpts) (sql : SqlArg ν) (script : TransScript β) : Prop :=
  (opts.beforeTransFn = true → script.before = .ok) → (workerEffects sql).isSome = true →
    script.runInTrans = .ok → sql.Passed ∧ (opts.afterTransFn = true → script.after = .ok)

def QueriesClean (opts : TransOpts) (amount : ℕ) (sql : SqlArg ν)
    (scripts : ℕ → TransScript (ℕ → ElementRun ν)) : Prop :=
  if sql.sqlArr = [] then True
  else if opts.withWorkerThreads then WorkerClean opts sql (scripts 0)
  else ∀ e ∈ attempts opts (3 - amount) fun k =>
    { scripts k with body := execQueries (scripts k).body 0 sql.sqlArr }, e.Clean opts

section Worker

theorem length_plainQueries {sqlArr : List (SqlData ν)} {effects : List (DbQuery ν)}
    (h : plainQueries sqlArr = some effects) : effects.length = sqlArr.length := by
  induction sqlArr generalizing effects with
  | nil =>
      cases h
      rfl
  | cons sqlData rest ih =>
      rw [plainQueries] at h
      split_ifs at h
      obtain ⟨query, _, hrest⟩ := Option.bind_eq_some_iff.mp h
      obtain ⟨queries, hqueries, rfl⟩ := Option.map_eq_some_iff.mp hrest
      simp [ih hqueries]

theorem length_workerQueries {sqlArr : List (SqlData ν)}
    {accum : List (Option String) × List (Option (Values ν))}
    (h : workerQueries sqlArr = some accum) :
    accum.2.length + (sqlArr.filter SqlData.isText).length = sqlArr.length := by
  induction sqlArr generalizing accum with
  | nil =>
      cases h
      rfl
  | cons sqlData rest ih =>
      cases sqlData with
      | text sql =>
          rw [workerQueries] at h
          split_ifs at h
          obtain ⟨accum', haccum, rfl⟩ := Option.map_eq_some_iff.mp h
          have hrest := ih haccum
          rw [List.filter_cons_of_pos rfl]
          simp only [List.length_cons]
          omega
      | object sql values given =>
          obtain ⟨accum', haccum, rfl⟩ := Option.map_eq_some_iff.mp h
          have hrest := ih haccum
          rw [List.filter_cons_of_neg Bool.false_ne_true]
          simp only [List.length_cons]
          omega
      | execQueryFn => cases h
      | other => cases h

/-- Objects alone are passed as they are. -/
theorem plainQueries_of_objects {sqlArr : List (SqlData ν)}
    (hobjects : ∀ sqlData ∈ sqlArr, sqlData.isText = false ∧ sqlData.hasExecQueryFn = false)
    {accum : List (Option String) × List (Option (Values ν))}
    (h : workerQueries sqlArr = some accum) {stms : List String}
    (hstms : accum.1.mapM prepare = some stms) :
    plainQueries sqlArr = some (List.zipWith DbQuery.mk stms accum.2) := by
  induction sqlArr generalizing accum stms with
  | nil =>
      cases h
      cases hstms
      rfl
  | cons sqlData rest ih =>
      have hrest := fun d hd => hobjects d (List.mem_cons_of_mem sqlData hd)
      have hhead := hobjects sqlData List.mem_cons_self
      cases sqlData with
      | text sql => cases hhead.1
      | object sql values given =>
          obtain ⟨accum', haccum, rfl⟩ := Option.map_eq_some_iff.mp h
          simp only [List.mapM_cons, Option.bind_eq_bind, Option.bind_eq_some_iff,
            Option.pure_def, Option.some.injEq] at hstms
          obtain ⟨stm, hstm, stms', hstms', rfl⟩ := hstms
          have hquery : SqlData.query? (.object sql values given) = some ⟨stm, values⟩ := by
            cases sql with
            | none => cases hstm
            | some text =>
                simp only [prepare] at hstm
                split_ifs at hstm with hempty
                cases hstm
                simp [SqlData.query?, hempty]
          rw [plainQueries, if_neg (by simp [hhead.2]), hquery, ih hrest haccum hstms']
          rfl
      | execQueryFn => cases h
      | other => cases h

theorem hasExecQueryFn_of_plainQueries {sqlArr : List (SqlData ν)} {effects : List (DbQuery ν)}
    (h : plainQueries sqlArr = some effects) {sqlData : SqlData ν} (hmem : sqlData ∈ sqlArr) :
    sqlData.hasExecQueryFn = false := by
  induction sqlArr generalizing effects with
  | nil => cases hmem
  | cons head rest ih =>
      rw [plainQueries] at h
      split_ifs at h with hhead
      obtain ⟨query, _, hrest⟩ := Option.bind_eq_some_iff.mp h
      obtain ⟨queries, hqueries, rfl⟩ := Option.map_eq_some_iff.mp hrest
      rcases List.mem_cons.mp hmem with rfl | hmem
      · simpa using hhead
      · exact ih hqueries hmem

/-- What the worker threads execute is the body exactly if all of it is passed. -/
theorem plainQueries_iff_passed {sql : SqlArg ν} {effects : List (DbQuery ν)}
    (h : workerEffects sql = some effects) :
    plainQueries sql.sqlArr = some effects ↔ sql.Passed := by
  obtain ⟨accum, haccum, hrun⟩ := Option.bind_eq_some_iff.mp h
  obtain ⟨stms, hstms, heffects⟩ := Option.map_eq_some_iff.mp hrun
  cases sql with
  | many sqlArr =>
      simp only [SqlArg.isArray, if_true] at heffects
      constructor
      · intro hplain sqlData hmem
        refine ⟨?_, hasExecQueryFn_of_plainQueries hplain hmem⟩
        by_contra htext
        have hlength := length_workerQueries haccum
        have hpos : 0 < (sqlArr.filter SqlData.isText).length :=
          List.length_pos_of_mem (List.mem_filter.mpr ⟨hmem, by simpa using htext⟩)
        have hle : effects.length ≤ accum.2.length := by
          rw [← heffects, List.length_zipWith]
          exact Nat.min_le_right _ _
        have heq := length_plainQueries hplain
        simp only [SqlArg.sqlArr] at hlength heq
        omega
      · intro hpassed
        rw [← heffects]
        exact plainQueries_of_objects hpassed haccum hstms
  | one sqlData =>
      cases sqlData with
      | text text =>
          simp only [SqlArg.sqlArr, workerQueries] at haccum
          split_ifs at haccum with hempty
          cases haccum
          simp only [List.mapM_cons, prepare, hempty, if_false, List.mapM_nil] at hstms
          cases hstms
          cases heffects
          simp [plainQueries, SqlArg.sqlArr, SqlArg.isArray, SqlData.hasExecQueryFn,
            SqlData.query?, hempty, SqlArg.Passed]
      | object text values given =>
          cases haccum
          cases text with
          | none => cases hstms
          | some text =>
              by_cases hempty : text = ""
              · subst hempty
                cases hstms
              simp only [List.mapM_cons, prepare, hempty, if_false, List.mapM_nil] at hstms
              cases hstms
              cases heffects
              rcases values with _ | v | vs
              · cases given <;> simp [plainQueries, SqlArg.sqlArr, SqlArg.isArray,
                  SqlData.hasExecQueryFn, SqlData.query?, hempty, SqlArg.Passed]
              · cases given <;> simp [plainQueries, SqlArg.sqlArr, SqlArg.isArray,
                  SqlData.hasExecQueryFn, SqlData.query?, hempty, SqlArg.Passed]
              · -- an array of parameters is taken for one execution each
                rcases vs with _ | ⟨v, vs⟩ <;> cases given <;>
                  simp [plainQueries, SqlArg.sqlArr, SqlArg.isArray,
                    SqlData.hasExecQueryFn, SqlData.query?, hempty, SqlArg.Passed]
      | execQueryFn => cases haccum
      | other => cases haccum

theorem beforeTransFn_of_ok {opts : TransOpts} {ε : Type} {res : Outcome}
    (h : opts.beforeTransFn = true → res = .ok) (s : TransState ε) :
    beforeTransFn opts res s = (.ok (), { s with
      events := s.events ++ if opts.beforeTransFn then [.before res] else [] }) := by
  rw [beforeTransFn_apply]
  by_cases hgiven : opts.beforeTransFn = true
  · simp [hgiven, h hgiven, settle_ok]
  · simp [hgiven]

theorem afterTransFn_of_ok {opts : TransOpts} {ε : Type} {res : Outcome}
    (h : opts.afterTransFn = true → res = .ok) (s : TransState ε) :
    afterTransFn opts res s = (.ok (), { s with
      events := s.events ++ if opts.afterTransFn then [.after res] else [] }) := by
  rw [afterTransFn_apply]
  by_cases hgiven : opts.afterTransFn = true
  · simp [hgiven, h hgiven, settle_ok]
  · simp [hgiven]

theorem paired_pair (before after : Outcome) : Paired [.before before, .after after] := by
  cases before with
  | ok => exact ⟨rfl, trivial⟩
  | locked => trivial
  | failed => trivial

theorem catchWorker_apply {β : Type} (opts : TransOpts) (script : TransScript β) (err : Outcome)
    (s : TransState (DbQuery ν)) :
    ∃ err', catchWorker opts script err s = (.error err', { s with
      events := s.events ++ if opts.afterTransFn then [.after script.lateAfter] else [] }) := by
  simp only [catchWorker, Attempt.bind_apply, afterTransFn_apply]
  by_cases hgiven : opts.afterTransFn = true
  · by_cases hok : script.lateAfter = .ok
    · simp [hgiven, hok, settle_ok, Attempt.fail_apply]
    · simp [hgiven, settle_of_ne hok]
  · simp [hgiven, Attempt.fail_apply]

/-- How the worker threads' query ends if it does not get through. -/
theorem tryWorker_of_failed {β : Type} (opts : TransOpts) (script : TransScript β)
    {effects? : Option (List (DbQuery ν))} (s : TransState (DbQuery ν))
    (h : ¬ ((opts.beforeTransFn = true → script.before = .ok) ∧ effects?.isSome = true ∧
      script.runInTrans = .ok)) :
    ∃ err, tryWorker opts script effects? s = (.error err, { s with
      events := s.events ++
        if opts.beforeTransFn then [.before script.before] else [] }) := by
  by_cases hbefore : opts.beforeTransFn = true → script.before = .ok
  swap
  · obtain ⟨hgiven, hne⟩ := Classical.not_imp.mp hbefore
    simp [tryWorker, Attempt.bind_apply, beforeTransFn_apply, hgiven, settle_of_ne hne]
  have hhook := beforeTransFn_of_ok hbefore s
  simp only [tryWorker, Attempt.bind_apply, hhook]
  cases effects? with
  | none => exact ⟨.failed, rfl⟩
  | some effects =>
      have hne : script.runInTrans ≠ .ok := fun hok => h ⟨hbefore, rfl, hok⟩
      simp only [Attempt.orFail, Attempt.pure_apply, settle_of_ne hne]
      exact ⟨_, rfl⟩

theorem tryWorker_of_ok {β : Type} {opts : TransOpts} {script : TransScript β}
    (effects : List (DbQuery ν)) (s : TransState (DbQuery ν))
    (hbefore : opts.beforeTransFn = true → script.before = .ok)
    (hok : script.runInTrans = .ok) :
    tryWorker opts script (some effects) s = afterTransFn opts script.after { s with
      committed := s.committed ++ [effects]
      events := s.events ++ if opts.beforeTransFn then [.before script.before] else [] } := by
  have hhook := beforeTransFn_of_ok hbefore s
  simp only [tryWorker, Attempt.bind_apply, hhook, Attempt.orFail, Attempt.pure_apply, hok,
    settle_ok, Attempt.write_apply]

theorem executeQueriesInTrans_eq {opts : TransOpts} {sql : SqlArg ν}
    {scripts : ℕ → TransScript (ℕ → ElementRun ν)} (hsql : sql.sqlArr ≠ [])
    (hworker : opts.withWorkerThreads = true)
    {accum : List (Option String) × List (Option (Values ν))}
    (haccum : workerQueries sql.sqlArr = some accum) (s : TransState (DbQuery ν)) :
    executeQueriesInTrans opts sql scripts s =
      Attempt.orHandle (catchWorker opts (scripts 0))
        (tryWorker opts (scripts 0) (workerEffects sql)) s := by
  have hempty : sql.sqlArr.isEmpty = false := by simpa using hsql
  simp only [executeQueriesInTrans, hempty, hworker, haccum, workerEffects]
  rfl

/-- A query that does not get through commits nothing, and is rejected. -/
theorem executeQueriesInTrans_of_failed {opts : TransOpts} (amount : ℕ) {sql : SqlArg ν}
    {scripts : ℕ → TransScript (ℕ → ElementRun ν)} (hsql : sql.sqlArr ≠ [])
    (hworker : opts.withWorkerThreads = true)
    (h : ¬ ((opts.beforeTransFn = true → (scripts 0).before = .ok) ∧
      (workerEffects sql).isSome = true ∧ (scripts 0).runInTrans = .ok)) :
    ∃ err s', executeQueriesInTrans opts sql scripts (.init amount) = (.error err, s') ∧
      s'.committed = [] ∧
      (opts.beforeTransFn = true → opts.afterTransFn = true → Paired s'.events) := by
  cases haccum : workerQueries sql.sqlArr with
  | none =>
      have hempty : sql.sqlArr.isEmpty = false := by simpa using hsql
      refine ⟨.failed, .init amount, ?_, rfl, fun _ _ => trivial⟩
      simp only [executeQueriesInTrans, hempty, hworker, haccum]
      rfl
  | some accum =>
      obtain ⟨err, htry⟩ := tryWorker_of_failed opts (scripts 0)
        (TransState.init amount) h
      rw [executeQueriesInTrans_eq hsql hworker haccum, Attempt.orHandle_of_error htry]
      obtain ⟨err', hcatch⟩ := catchWorker_apply opts (scripts 0) err
        { TransState.init amount with
          events := [] ++ if opts.beforeTransFn then [.before (scripts 0).before] else [] }
      refine ⟨err', _, hcatch, rfl, ?_⟩
      intro hbefore hafter
      simpa [hbefore, hafter] using paired_pair (scripts 0).before (scripts 0).lateAfter

/-- The query of the worker threads settles as it should exactly if it is clean. -/
theorem executeQueriesInTrans_worker {opts : TransOpts} (amount : ℕ) {sql : SqlArg ν}
    (scripts : ℕ → TransScript (ℕ → ElementRun ν)) (hsql : sql.sqlArr ≠ [])
    (hworker : opts.withWorkerThreads = true) :
    QueriesRight opts sql scripts (executeQueriesInTrans opts sql scripts (.init amount)) ↔
      WorkerClean opts sql (scripts 0) := by
  unfold QueriesRight OutcomeRight BodyEffects
  simp only [if_neg hsql, if_pos hworker]
  by_cases hgo : (opts.beforeTransFn = true → (scripts 0).before = .ok) ∧
      (workerEffects sql).isSome = true ∧ (scripts 0).runInTrans = .ok
  swap
  · obtain ⟨err, s', hrun, hcommitted, hpaired⟩ :=
      executeQueriesInTrans_of_failed amount hsql hworker hgo
    have hclean : WorkerClean opts sql (scripts 0) := fun hbefore heffects hok =>
      absurd ⟨hbefore, heffects, hok⟩ hgo
    simp only [hrun, hcommitted, iff_true_intro hclean, iff_true]
    refine ⟨⟨nofun, ?_⟩, ⟨fun _ => ⟨hsql, trivial⟩, fun _ => rfl⟩, hpaired⟩
    rintro ⟨_, _, h⟩
    cases h
  obtain ⟨hbefore, hsome, hok⟩ := hgo
  obtain ⟨effects, heffects⟩ := Option.isSome_iff_exists.mp hsome
  obtain ⟨accum, haccum, _⟩ := Option.bind_eq_some_iff.mp heffects
  have htry := tryWorker_of_ok effects (TransState.init amount) hbefore hok
  rw [executeQueriesInTrans_eq hsql hworker haccum, heffects]
  by_cases hafter : opts.afterTransFn = true → (scripts 0).after = .ok
  · have hclean : WorkerClean opts sql (scripts 0) ↔ sql.Passed :=
      ⟨fun h => (h hbefore hsome hok).1, fun h _ _ _ => ⟨h, hafter⟩⟩
    rw [afterTransFn_of_ok hafter] at htry
    rw [Attempt.orHandle_of_ok htry, hclean, ← plainQueries_iff_passed heffects]
    constructor
    · rintro ⟨hall, _, _⟩
      obtain ⟨effects', hplain, hone⟩ := hall.mp rfl
      cases hone
      exact hplain
    · intro hplain
      refine ⟨⟨fun _ => ⟨effects, hplain, rfl⟩, fun _ => rfl⟩, ⟨nofun, ?_⟩, ?_⟩
      · rintro ⟨_, h⟩
        cases h
      · intro hgiven hgiven'
        simpa [TransState.init, hgiven, hgiven'] using
          paired_pair (scripts 0).before (scripts 0).after
  · have hclean : ¬ WorkerClean opts sql (scripts 0) := fun h =>
      hafter (h hbefore hsome hok).2
    obtain ⟨hgiven, hne⟩ := Classical.not_imp.mp hafter
    rw [afterTransFn_apply, if_pos hgiven, settle_of_ne hne] at htry
    obtain ⟨s₁, hthrown, hcommitted⟩ : ∃ s₁,
        tryWorker opts (scripts 0) (some effects) (TransState.init amount) =
          (.error (scripts 0).after, s₁) ∧ s₁.committed = [effects] := ⟨_, htry, rfl⟩
    obtain ⟨err, hcatch⟩ := catchWorker_apply opts (scripts 0) (scripts 0).after s₁
    rw [Attempt.orHandle_of_error hthrown, hcatch]
    refine iff_of_false ?_ hclean
    rintro ⟨_, hnone, _⟩
    have hzero := (hnone.mp rfl).2
    rw [hcommitted] at hzero
    cases hzero

end Worker

/-- Transactions settle as they should exactly if nothing throws where a hook or an effect
would be lost. -/
theorem transaction_outcome_iff (opts : TransOpts) (amount : ℕ) :
    (∀ {ε : Type} (scripts : ℕ → TransScript (BodyRun ε)),
      TransRight opts scripts (proccesTrans opts (3 - amount) scripts (.init amount)) ↔
        ∀ e ∈ attempts opts (3 - amount) scripts, e.Clean opts) ∧
      ∀ (sql : SqlArg ν) (scripts : ℕ → TransScript (ℕ → ElementRun ν)),
        QueriesRight opts sql scripts (executeQueriesInTrans opts sql scripts (.init amount)) ↔
          QueriesClean opts amount sql scripts := by
  refine ⟨proccesTrans_right_iff opts amount (3 - amount), ?_⟩
  intro sql scripts
  unfold QueriesClean
  by_cases hsql : sql.sqlArr = []
  · have hrun : executeQueriesInTrans opts sql scripts (.init amount) = (.ok (), .init amount) := by
      simp only [executeQueriesInTrans, hsql]
      rfl
    rw [if_pos hsql, iff_true, hrun]
    unfold QueriesRight OutcomeRight
    rw [if_pos hsql]
    exact ⟨⟨fun _ => rfl, fun _ => rfl⟩, ⟨nofun, fun h => absurd hsql h.1⟩, fun _ _ => trivial⟩
  by_cases hworker : opts.withWorkerThreads = true
  · rw [if_neg hsql, if_pos hworker]
    exact executeQueriesInTrans_worker amount scripts hsql hworker
  · rw [if_neg hsql, if_neg hworker, ← proccesTrans_right_iff opts amount]
    have hempty : sql.sqlArr.isEmpty = false := by simpa using hsql
    have hrun : executeQueriesInTrans opts sql scripts (.init amount) =
        proccesTrans opts (3 - amount) (fun k => { scripts k with
          body := execQueries (scripts k).body 0 sql.sqlArr }) (.init amount) := by
      simp only [executeQueriesInTrans, hempty, hworker]
      rfl
    rw [hrun]
    generalize proccesTrans opts (3 - amount) _ (TransState.init amount) = run
    have hall : (∃ effects, BodyEffects opts sql scripts effects ∧ run.2.committed = [effects]) ↔
        ∃ k, (execQueries (scripts k).body 0 sql.sqlArr).res = .ok ∧
          run.2.committed = [effectsOf (execQueries (scripts k).body 0 sql.sqlArr).statements] := by
      unfold BodyEffects
      simp only [if_neg hworker]
      constructor
      · rintro ⟨_, ⟨k, hok, rfl⟩, hone⟩
        exact ⟨k, hok, hone⟩
      · rintro ⟨k, hok, hone⟩
        exact ⟨_, ⟨k, hok, rfl⟩, hone⟩
    unfold QueriesRight TransRight OutcomeRight
    rw [if_neg hsql, hall, and_iff_right hsql]

end Queries

namespace LostHookWitness

/-- The body throws after `beforeTransFn` has been run. -/
def script : TransScript (BodyRun ℕ) :=
  { before := .ok
    begin := .ok
    body := ⟨[.effect 7], .failed⟩
    commit := .ok
    after := .ok
    lateAfter := .ok
    runInTrans := .ok }

/-- `afterTransFn` is not run for it. -/
theorem script_not_right :
    ¬ ∀ (opts : TransOpts) (amount : ℕ) (scripts : ℕ → TransScript (BodyRun ℕ)),
      TransRight opts scripts (proccesTrans opts (3 - amount) scripts (.init amount)) := by
  intro h
  have hright := h ⟨true, true, false⟩ 0 fun _ => script
  have hpaired : Paired [.before .ok] := hright.2.2 rfl rfl
  exact absurd hpaired.1 (by decide)

end LostHookWitness

end TransRun

end ReportsFramework
