/-
How a transaction ends.  `_proccesTrans` runs a hook, the body between `BEGIN` and
`COMMIT`, and another hook, and begins anew after a locked database.  What throws, and
when, is left open.
-/
import Mathlib.Data.List.Basic
import ReportsFramework.Attempt
import ReportsFramework.TransactionQueue

namespace ReportsFramework

namespace TransRun

/-- What a statement did: it took effect, or its error made SQLite give up the open
transaction.  A statement that fails otherwise does nothing. -/
inductive StatementEnd (ε : Type)
  | effect (e : ε)
  | forcedRollback

/-- One run of `asyncExecQuery`: its statements in order, and how it ended. -/
structure BodyRun (ε : Type) where
  statements : List (StatementEnd ε)
  res : Outcome

/-- What one attempt meets. -/
structure TransScript (β : Type) where
  before : Outcome
  begin : Outcome
  body : β
  commit : Outcome
  after : Outcome
  /-- `afterTransFn` called from the `catch`. -/
  lateAfter : Outcome
  /-- `RUN_IN_TRANS` in the worker threads. -/
  runInTrans : Outcome

structure TransOpts where
  beforeTransFn : Bool
  afterTransFn : Bool
  withWorkerThreads : Bool

inductive HookEvent
  | before (res : Outcome)
  | after (res : Outcome)
deriving DecidableEq

/-- The connection and what has been called so far.  `committed` are the committed
transactions; a statement outside of a transaction is one by itself. -/
structure TransState (ε : Type) where
  committed : List (List ε)
  open? : Option (List ε)
  isTransBegun : Bool
  events : List HookEvent
  lockedDbRetryInTrxAmount : ℕ

namespace TransState

variable {ε : Type}

def init (amount : ℕ) : TransState ε := ⟨[], none, false, [], amount⟩

def inTransaction (s : TransState ε) : Bool := s.open?.isSome

def statement (s : TransState ε) : StatementEnd ε → TransState ε
  | .effect e =>
      match s.open? with
      | some effects => { s with open? := some (effects ++ [e]) }
      | none => { s with committed := s.committed ++ [[e]] }
  | .forcedRollback => { s with open? := none }

def commitAll (s : TransState ε) : TransState ε :=
  { s with committed := s.committed ++ s.open?.toList, open? := none }

end TransState

section Code

variable {ε : Type}

abbrev Trans (ε α : Type) := Attempt (TransState ε) Outcome α

/-- Throw the error of a call, if it has one. -/
def settle (res : Outcome) : Trans ε Unit := .failIf (res ≠ .ok) res

/-- A hook that may not have been given. -/
def callHook (given : Bool) (event : HookEvent) (res : Outcome) : Trans ε Unit :=
  .skipIf (!given) do
    .write fun s => { s with events := s.events ++ [event] }
    settle res

def beforeTransFn (opts : TransOpts) (res : Outcome) : Trans ε Unit :=
  callHook opts.beforeTransFn (.before res) res

def afterTransFn (opts : TransOpts) (res : Outcome) : Trans ε Unit :=
  callHook opts.afterTransFn (.after res) res

def runBody (body : BodyRun ε) : Trans ε Unit := do
  .write fun s => body.statements.foldl TransState.statement s
  settle body.res

def beginTransaction (res : Outcome) : Trans ε Unit := do
  let s ← .read
  settle (if s.inTransaction then .failed else res)
  .write fun s => { s with open? := some [], isTransBegun := true }

/-- `COMMIT` fails if SQLite has given up the transaction. -/
def commitTrans (res : Outcome) : Trans ε Unit := do
  let s ← .read
  settle (if s.inTransaction then res else .failed)
  .write TransState.commitAll

/-- The `try` of `_proccesTrans` from `BEGIN` on. -/
def execTrans (opts : TransOpts) (script : TransScript (BodyRun ε)) : Trans ε Unit := do
  beginTransaction script.begin
  runBody script.body
  commitTrans script.commit
  .write fun s => { s with isTransBegun := false }
  afterTransFn opts script.after

/-- The `try` of `_proccesTrans`. -/
def tryTrans (opts : TransOpts) (script : TransScript (BodyRun ε)) : Trans ε Unit := do
  .write fun s => { s with isTransBegun := false }
  beforeTransFn opts script.before
  execTrans opts script

/-- The `catch` of `_proccesTrans` up to the retry. -/
def catchTrans (opts : TransOpts) (script : TransScript (BodyRun ε)) : Trans ε Unit := do
  .write fun s =>
    if s.inTransaction && s.isTransBegun then { s with open? := none, isTransBegun := false }
    else s
  let s ← .read
  .skipIf (!s.inTransaction) (afterTransFn opts script.lateAfter)

/-- `_proccesTrans`, with as many more retries as the counter allows and the scripts of
the attempts. -/
def proccesTrans (opts : TransOpts) : ℕ → (ℕ → TransScript (BodyRun ε)) → Trans ε Unit
  | 0, scripts =>
      .orHandle (fun err => do
        catchTrans opts (scripts 0)
        .fail err) (tryTrans opts (scripts 0))
  | left + 1, scripts =>
      .orHandle (fun err => do
        catchTrans opts (scripts 0)
        if err = .locked then
          .write fun s =>
            { s with lockedDbRetryInTrxAmount := s.lockedDbRetryInTrxAmount + 1 }
          proccesTrans opts left fun i => scripts (i + 1)
          .write fun s => { s with lockedDbRetryInTrxAmount := 0 }
        else .fail err) (tryTrans opts (scripts 0))

/-- `_beginTrans` once it is its turn. -/
def beginTrans (opts : TransOpts) (scripts : ℕ → TransScript (BodyRun ε)) : Trans ε Unit := do
  let s ← .read
  proccesTrans opts (3 - s.lockedDbRetryInTrxAmount) scripts

end Code

section Ends

variable {ε : Type}

/-- The statements of a body that took effect. -/
def effectsOf : List (StatementEnd ε) → List ε
  | [] => []
  | .effect e :: rest => e :: effectsOf rest
  | .forcedRollback :: rest => effectsOf rest

/-- The statements that took effect after SQLite had given up the transaction. -/
def looseOf : List (StatementEnd ε) → List ε
  | [] => []
  | .effect _ :: rest => looseOf rest
  | .forcedRollback :: rest => effectsOf rest

def isForced : List (StatementEnd ε) → Bool
  | [] => false
  | .effect _ :: rest => isForced rest
  | .forcedRollback :: _ => true

/-- Where an attempt gets to: `beforeTransFn` threw; something threw between the hooks,
after statements outside of the transaction; `afterTransFn` threw; nothing did. -/
inductive TransEnd (ε : Type)
  | beforeThrew (err : Outcome)
  | threw (err : Outcome) (loose : List ε)
  | afterThrew (err : Outcome) (effects : List ε)
  | done (effects : List ε)

def TransScript.execEnd (opts : TransOpts) (script : TransScript (BodyRun ε)) : TransEnd ε :=
  if script.begin ≠ .ok then .threw script.begin []
  else if script.body.res ≠ .ok then
    .threw script.body.res (looseOf script.body.statements)
  else if isForced script.body.statements then
    .threw .failed (looseOf script.body.statements)
  else if script.commit ≠ .ok then .threw script.commit []
  else if opts.afterTransFn ∧ script.after ≠ .ok then
    .afterThrew script.after (effectsOf script.body.statements)
  else .done (effectsOf script.body.statements)

def TransScript.reached (opts : TransOpts) (script : TransScript (BodyRun ε)) : TransEnd ε :=
  if opts.beforeTransFn ∧ script.before ≠ .ok then .beforeThrew script.before
  else script.execEnd opts

namespace TransEnd

def err? : TransEnd ε → Option Outcome
  | beforeThrew err | threw err _ | afterThrew err _ => some err
  | done _ => none

/-- The transactions an attempt leaves committed. -/
def committed : TransEnd ε → List (List ε)
  | beforeThrew _ => []
  | threw _ loose => loose.map ([·])
  | afterThrew _ effects | done effects => [effects]

/-- What is called from `BEGIN` on. -/
def execEvents (opts : TransOpts) : TransEnd ε → List HookEvent
  | beforeThrew _ | threw _ _ => []
  | afterThrew err _ => [.after err]
  | done _ => if opts.afterTransFn then [.after .ok] else []

def events (opts : TransOpts) : TransEnd ε → List HookEvent
  | beforeThrew err => [.before err]
  | e => (if opts.beforeTransFn then [.before .ok] else []) ++ e.execEvents opts

/-- `afterTransFn` does not throw, and if both hooks are given nothing throws between
them; no statement takes effect outside of the transaction. -/
def Clean (opts : TransOpts) : TransEnd ε → Prop
  | beforeThrew _ | done _ => True
  | threw _ loose => ¬ (opts.beforeTransFn ∧ opts.afterTransFn) ∧ loose = []
  | afterThrew _ _ => False

end TransEnd

/-- The attempts that are made: another one after a lock, as long as the counter allows
it. -/
def attempts (opts : TransOpts) : ℕ → (ℕ → TransScript (BodyRun ε)) → List (TransEnd ε)
  | 0, scripts => [(scripts 0).reached opts]
  | left + 1, scripts =>
      (scripts 0).reached opts ::
        if ((scripts 0).reached opts).err? = some .locked then
          attempts opts left fun i => scripts (i + 1)
        else []

end Ends

section Attempts

variable {ε : Type} {opts : TransOpts} {script : TransScript (BodyRun ε)} {s s' : TransState ε}

theorem looseOf_of_not_forced {statements : List (StatementEnd ε)}
    (h : ¬ isForced statements = true) : looseOf statements = [] := by
  induction statements with
  | nil => rfl
  | cons head rest ih =>
      cases head with
      | effect e => exact ih h
      | forcedRollback => exact absurd rfl h

theorem foldl_statement (statements : List (StatementEnd ε)) (s : TransState ε) :
    statements.foldl TransState.statement s =
      match s.open? with
      | some effects =>
          if isForced statements then
            { s with
              open? := none
              committed := s.committed ++ (looseOf statements).map ([·]) }
          else { s with open? := some (effects ++ effectsOf statements) }
      | none => { s with committed := s.committed ++ (effectsOf statements).map ([·]) } := by
  induction statements generalizing s with
  | nil =>
      obtain ⟨committed, open?, begun, events, amount⟩ := s
      cases open? <;> simp [isForced, effectsOf]
  | cons head rest ih =>
      obtain ⟨committed, open?, begun, events, amount⟩ := s
      rw [List.foldl_cons, ih]
      cases hforced : isForced rest <;> cases head <;> cases open? <;>
        simp [TransState.statement, isForced, hforced, effectsOf, looseOf]

theorem settle_ok (s : TransState ε) : settle .ok s = (.ok (), s) := rfl

theorem settle_of_ne {res : Outcome} (h : res ≠ .ok) (s : TransState ε) :
    settle res s = (.error res, s) := by
  simp [settle, Attempt.failIf, h, Attempt.fail_apply]

theorem beforeTransFn_apply (res : Outcome) (s : TransState ε) :
    beforeTransFn opts res s =
      if opts.beforeTransFn then settle res { s with events := s.events ++ [.before res] }
      else (.ok (), s) := by
  unfold beforeTransFn callHook
  cases opts.beforeTransFn <;> rfl

theorem afterTransFn_apply (res : Outcome) (s : TransState ε) :
    afterTransFn opts res s =
      if opts.afterTransFn then settle res { s with events := s.events ++ [.after res] }
      else (.ok (), s) := by
  unfold afterTransFn callHook
  cases opts.afterTransFn <;> rfl

theorem beginTransaction_apply (res : Outcome) (hs : s.open? = none) :
    beginTransaction res s =
      if res = .ok then (.ok (), { s with open? := some [], isTransBegun := true })
      else (.error res, s) := by
  cases res <;> simp [beginTransaction, Attempt.bind_apply, Attempt.read_apply,
    TransState.inTransaction, hs, settle, Attempt.failIf, Attempt.fail_apply,
    Attempt.pure_apply, Attempt.write_apply]

theorem commitTrans_apply (res : Outcome) (s : TransState ε) :
    commitTrans res s =
      match s.open? with
      | none => (.error .failed, s)
      | some _ => if res = .ok then (.ok (), s.commitAll) else (.error res, s) := by
  cases hopen : s.open? <;> cases res <;> simp [commitTrans, Attempt.bind_apply,
    Attempt.read_apply, TransState.inTransaction, hopen, settle, Attempt.failIf,
    Attempt.fail_apply, Attempt.pure_apply, Attempt.write_apply]

/-- The `catch` leaves no transaction open, and does not get to call `afterTransFn`. -/
theorem catchTrans_apply (opts : TransOpts) (script : TransScript (BodyRun ε))
    (hs : s.open? = none ∨ s.isTransBegun = true) :
    ∃ begun, catchTrans opts script s =
      (.ok (), { s with open? := none, isTransBegun := begun }) := by
  cases hopen : s.open? with
  | none =>
      refine ⟨s.isTransBegun, ?_⟩
      simp [catchTrans, Attempt.bind_apply, Attempt.write_apply, Attempt.read_apply,
        TransState.inTransaction, hopen, Attempt.skipIf, Attempt.pure_apply]
      rw [← hopen]
  | some effects =>
      have hbegun : s.isTransBegun = true := by simpa [hopen] using hs
      refine ⟨false, ?_⟩
      simp [catchTrans, Attempt.bind_apply, Attempt.write_apply, Attempt.read_apply,
        TransState.inTransaction, hopen, hbegun, Attempt.skipIf, Attempt.pure_apply]

/-- How the `try` ends. -/
structure Ended (e : TransEnd ε) (events : List HookEvent)
    (s s' : TransState ε) : Prop where
  committed : s'.committed = s.committed ++ e.committed
  events : s'.events = s.events ++ events
  closed : s'.open? = none ∨ s'.isTransBegun = true ∧ e.err? ≠ none

theorem execTrans_spec (opts : TransOpts) (script : TransScript (BodyRun ε))
    (hs : s.open? = none) :
    ∃ s', execTrans opts script s =
        (match (script.execEnd opts).err? with
          | none => .ok ()
          | some err => .error err, s') ∧
      Ended (script.execEnd opts) ((script.execEnd opts).execEvents opts) s s' := by
  obtain ⟨before, begin, ⟨statements, res⟩, commit, after, late, runInTrans⟩ := script
  have hbody : ∀ s : TransState ε, runBody ⟨statements, res⟩ s =
      settle res (statements.foldl TransState.statement s) := fun _ => rfl
  simp only [execTrans, Attempt.bind_apply, beginTransaction_apply _ hs]
  unfold TransScript.execEnd
  by_cases hbegin : begin = .ok
  swap
  · refine ⟨s, ?_, ?_⟩
    · simp [hbegin, TransEnd.err?]
    · constructor <;> simp [hbegin, hs, TransEnd.committed, TransEnd.execEvents]
  simp only [hbegin, if_true, hbody, foldl_statement, ne_eq, not_true, if_false]
  by_cases hres : res = .ok
  swap
  · rw [settle_of_ne hres, if_pos hres]
    refine ⟨_, rfl, ?_⟩
    split_ifs with hforced
    · exact ⟨rfl, (List.append_nil _).symm, .inl rfl⟩
    · have hloose := looseOf_of_not_forced hforced
      exact ⟨by simp [TransEnd.committed, hloose], (List.append_nil _).symm,
        .inr ⟨rfl, by simp [TransEnd.err?]⟩⟩
  simp only [hres, settle_ok, not_true, if_false, commitTrans_apply]
  by_cases hforced : isForced statements = true
  · simp only [hforced, if_true]
    exact ⟨_, rfl, rfl, (List.append_nil _).symm, .inl rfl⟩
  simp only [hforced]
  by_cases hcommit : commit = .ok
  swap
  · simp only [hcommit, if_false, if_true, not_false_eq_true]
    exact ⟨_, rfl, (List.append_nil _).symm, (List.append_nil _).symm,
      .inr ⟨rfl, by simp [TransEnd.err?]⟩⟩
  simp only [hcommit, if_true, Attempt.write_apply, afterTransFn_apply]
  by_cases hafter : opts.afterTransFn = true
  swap
  · simp only [hafter, if_false, not_true]
    exact ⟨_, rfl, rfl, by simp [TransEnd.execEvents, hafter, TransState.commitAll], .inl rfl⟩
  by_cases hok : after = .ok
  · simp only [hafter, hok, if_true, not_true, if_false, and_false, settle_ok]
    exact ⟨_, rfl, rfl, by simp [TransEnd.execEvents, hafter, TransState.commitAll], .inl rfl⟩
  · simp only [hafter, hok, if_true, not_false_eq_true, and_true, settle_of_ne hok]
    exact ⟨_, rfl, rfl, rfl, .inl rfl⟩

theorem events_execEnd (opts : TransOpts) (script : TransScript (BodyRun ε)) :
    (script.execEnd opts).events opts =
      (if opts.beforeTransFn then [.before .ok] else []) ++
        (script.execEnd opts).execEvents opts := by
  unfold TransScript.execEnd
  split_ifs <;> simp [TransEnd.events, *]

theorem tryTrans_spec (opts : TransOpts) (script : TransScript (BodyRun ε))
    (hs : s.open? = none) :
    ∃ s', tryTrans opts script s =
        (match (script.reached opts).err? with
          | none => .ok ()
          | some err => .error err, s') ∧
      Ended (script.reached opts) ((script.reached opts).events opts) s s' := by
  simp only [tryTrans, Attempt.bind_apply, Attempt.write_apply, beforeTransFn_apply]
  unfold TransScript.reached
  by_cases hgiven : opts.beforeTransFn = true
  · by_cases hok : script.before = .ok
    · simp only [hgiven, hok, if_true, settle_ok, ne_eq, not_true, and_false, if_false]
      obtain ⟨s', hexec, hended⟩ := execTrans_spec opts script
        (s := { s with isTransBegun := false, events := s.events ++ [.before .ok] }) hs
      refine ⟨s', hexec, hended.committed, ?_, hended.closed⟩
      rw [hended.events, events_execEnd, if_pos hgiven, List.append_assoc]
    · simp only [hgiven, hok, if_true, settle_of_ne hok, ne_eq, not_false_eq_true, and_true]
      exact ⟨_, rfl, (List.append_nil _).symm, rfl, .inl hs⟩
  · have hthrew : ¬ (opts.beforeTransFn = true ∧ script.before ≠ .ok) := fun h => hgiven h.1
    rw [if_neg hgiven, if_neg hthrew]
    obtain ⟨s', hexec, hended⟩ := execTrans_spec opts script
      (s := { s with isTransBegun := false }) hs
    refine ⟨s', hexec, hended.committed, ?_, hended.closed⟩
    rw [hended.events, events_execEnd, if_neg hgiven]
    rfl

/-- What a call of `_proccesTrans` with these attempts leaves. -/
structure Left (opts : TransOpts) (ends : List (TransEnd ε)) (s s' : TransState ε) : Prop where
  committed : s'.committed = s.committed ++ ends.flatMap TransEnd.committed
  events : s'.events = s.events ++ ends.flatMap (TransEnd.events opts)

/-- The outcome of the last attempt. -/
def isDone (ends : List (TransEnd ε)) : Bool :=
  ends.getLast?.any fun e => e.err?.isNone

theorem attempts_ne_nil (opts : TransOpts) (left : ℕ) (scripts : ℕ → TransScript (BodyRun ε)) :
    attempts opts left scripts ≠ [] := by
  cases left <;> exact List.cons_ne_nil _ _

theorem isDone_cons {ends : List (TransEnd ε)} (hends : ends ≠ []) (e : TransEnd ε) :
    isDone (e :: ends) = isDone ends := by
  cases ends with
  | nil => exact absurd rfl hends
  | cons head rest => simp [isDone, List.getLast?_cons]

theorem proccesTrans_spec (opts : TransOpts) (left : ℕ) (scripts : ℕ → TransScript (BodyRun ε))
    (hs : s.open? = none) :
    ∃ res s', proccesTrans opts left scripts s = (res, s') ∧
      res.isOk = isDone (attempts opts left scripts) ∧
      Left opts (attempts opts left scripts) s s' := by
  induction left generalizing s scripts with
  | zero =>
      obtain ⟨s₁, htry, hended⟩ := tryTrans_spec opts (scripts 0) hs
      cases herr : ((scripts 0).reached opts).err? with
      | none =>
          rw [herr] at htry
          refine ⟨_, s₁, Attempt.orHandle_of_ok htry, ?_, ?_, ?_⟩
          · simp [attempts, isDone, herr, Except.isOk, Except.toBool]
          · simpa [attempts] using hended.committed
          · simpa [attempts] using hended.events
      | some err =>
          rw [herr] at htry
          have hclosed : s₁.open? = none ∨ s₁.isTransBegun = true :=
            hended.closed.imp_right And.left
          obtain ⟨begun, hcatch⟩ := catchTrans_apply opts (scripts 0) hclosed
          refine ⟨_, _, (Attempt.orHandle_of_error htry).trans (Attempt.bind_of_ok hcatch), ?_,
            ?_, ?_⟩
          · simp [attempts, isDone, herr, Except.isOk, Except.toBool]
          · simpa [attempts] using hended.committed
          · simpa [attempts] using hended.events
  | succ left ih =>
      obtain ⟨s₁, htry, hended⟩ := tryTrans_spec opts (scripts 0) hs
      cases herr : ((scripts 0).reached opts).err? with
      | none =>
          rw [herr] at htry
          refine ⟨_, s₁, Attempt.orHandle_of_ok htry, ?_, ?_, ?_⟩
          · simp [attempts, isDone, herr, Except.isOk, Except.toBool]
          · simpa [attempts, herr] using hended.committed
          · simpa [attempts, herr] using hended.events
      | some err =>
          rw [herr] at htry
          have hclosed : s₁.open? = none ∨ s₁.isTransBegun = true :=
            hended.closed.imp_right And.left
          obtain ⟨begun, hcatch⟩ := catchTrans_apply opts (scripts 0) hclosed
          rw [proccesTrans, Attempt.orHandle_of_error htry, Attempt.bind_of_ok hcatch]
          by_cases hlocked : err = .locked
          · obtain ⟨res, s', hagain, hres, hleft⟩ := ih (fun i => scripts (i + 1))
              (s := { s₁ with
                open? := none
                isTransBegun := begun
                lockedDbRetryInTrxAmount := s₁.lockedDbRetryInTrxAmount + 1 }) rfl
            have hattempts : attempts opts (left + 1) scripts =
                (scripts 0).reached opts :: attempts opts left fun i => scripts (i + 1) := by
              simp [attempts, herr, hlocked]
            rw [if_pos hlocked, hattempts, isDone_cons (attempts_ne_nil _ _ _)]
            have hcommitted := hleft.committed
            have hevents := hleft.events
            simp only [hended.committed, hended.events] at hcommitted hevents
            rw [Attempt.bind_apply, Attempt.write_apply]
            cases res with
            | ok _ =>
                refine ⟨_, _, Attempt.bind_of_ok hagain, hres, ?_, ?_⟩
                · simpa using hcommitted
                · simpa using hevents
            | error e =>
                refine ⟨_, _, Attempt.bind_of_error hagain, hres, ?_, ?_⟩
                · simpa using hcommitted
                · simpa using hevents
          · have hattempts : attempts opts (left + 1) scripts = [(scripts 0).reached opts] := by
              simp [attempts, herr, hlocked]
            rw [if_neg hlocked, hattempts]
            refine ⟨_, _, rfl, ?_, ?_, ?_⟩
            · simp [isDone, herr, Except.isOk, Except.toBool]
            · simpa using hended.committed
            · simpa using hended.events

end Attempts

section Outcome

variable {ε : Type} {opts : TransOpts}

def HookEvent.isAfter : HookEvent → Bool
  | .after _ => true
  | .before _ => false

/-- Each completed `beforeTransFn` is followed by exactly one `afterTransFn` before the
next `beforeTransFn`. -/
def Paired : List HookEvent → Prop
  | [] => True
  | .before .ok :: rest => (rest.takeWhile HookEvent.isAfter).length = 1 ∧ Paired rest
  | _ :: rest => Paired rest

/-- A call settles as it should: `all` says that the effects of the body were committed
exactly once, `none` that none was. -/
def OutcomeRight (opts : TransOpts) (run : Except Outcome Unit × TransState ε)
    (all none : Prop) : Prop :=
  (run.1.isOk = true ↔ all) ∧ (run.1.isOk = false ↔ none) ∧
    (opts.beforeTransFn = true → opts.afterTransFn = true → Paired run.2.events)

/-- The effects of the body are those of a whole run of it. -/
def TransRight (opts : TransOpts) (scripts : ℕ → TransScript (BodyRun ε))
    (run : Except Outcome Unit × TransState ε) : Prop :=
  OutcomeRight opts run
    (∃ k, (scripts k).body.res = .ok ∧
      run.2.committed = [effectsOf (scripts k).body.statements])
    (run.2.committed = [])

theorem Paired.tail {event : HookEvent} {events : List HookEvent}
    (h : Paired (event :: events)) : Paired events := by
  cases event with
  | before res =>
      cases res with
      | ok => exact h.2
      | locked => exact h
      | failed => exact h
  | after res => exact h

theorem Paired.of_append {events rest : List HookEvent} (h : Paired (events ++ rest)) :
    Paired rest := by
  induction events with
  | nil => exact h
  | cons event events ih => exact ih h.tail

/-- With `beforeTransFn` every attempt starts with it. -/
theorem takeWhile_events (hgiven : opts.beforeTransFn = true) (ends : List (TransEnd ε)) :
    (ends.flatMap (TransEnd.events opts)).takeWhile HookEvent.isAfter = [] := by
  cases ends with
  | nil => rfl
  | cons e rest => cases e <;> simp [TransEnd.events, hgiven, HookEvent.isAfter]

theorem not_threw_of_paired (hbefore : opts.beforeTransFn = true) {ends : List (TransEnd ε)}
    (h : Paired (ends.flatMap (TransEnd.events opts))) {err : Outcome} {loose : List ε} :
    .threw err loose ∉ ends := by
  induction ends with
  | nil => exact List.not_mem_nil
  | cons e rest ih =>
      rw [List.flatMap_cons] at h
      rw [List.mem_cons, not_or]
      refine ⟨?_, ih h.of_append⟩
      rintro rfl
      have hone := h
      simp only [TransEnd.events, hbefore, if_true, TransEnd.execEvents, List.append_nil,
        List.cons_append, List.nil_append, Paired, takeWhile_events hbefore] at hone
      exact absurd hone.1 (by simp)

theorem TransScript.reached_beforeThrew {script : TransScript (BodyRun ε)} {err : Outcome}
    (h : script.reached opts = .beforeThrew err) : err ≠ .ok := by
  unfold TransScript.reached TransScript.execEnd at h
  split_ifs at h with hbefore
  cases h
  exact hbefore.2

theorem TransScript.reached_done {script : TransScript (BodyRun ε)} {effects : List ε}
    (h : script.reached opts = .done effects) :
    script.body.res = .ok ∧ effectsOf script.body.statements = effects := by
  unfold TransScript.reached TransScript.execEnd at h
  split_ifs at h with _ _ hres
  cases h
  exact ⟨not_not.mp hres, rfl⟩

theorem paired_of_clean (hbefore : opts.beforeTransFn = true)
    (hafter : opts.afterTransFn = true) {ends : List (TransEnd ε)}
    (hclean : ∀ e ∈ ends, e.Clean opts) (hthrew : ∀ err, .beforeThrew err ∈ ends → err ≠ .ok) :
    Paired (ends.flatMap (TransEnd.events opts)) := by
  induction ends with
  | nil => trivial
  | cons e rest ih =>
      have hrest := ih (fun e he => hclean e (List.mem_cons_of_mem _ he))
        fun err he => hthrew err (List.mem_cons_of_mem _ he)
      have he := hclean e List.mem_cons_self
      rw [List.flatMap_cons]
      cases e with
      | beforeThrew err =>
          have herr := hthrew err List.mem_cons_self
          cases err with
          | ok => exact absurd rfl herr
          | locked => exact hrest
          | failed => exact hrest
      | threw err loose => exact absurd ⟨hbefore, hafter⟩ he.1
      | afterThrew err effects => exact absurd he id
      | done effects =>
          simp only [TransEnd.events, hbefore, TransEnd.execEvents, hafter, if_true,
            List.cons_append, List.nil_append, Paired, List.takeWhile_cons, HookEvent.isAfter,
            takeWhile_events hbefore]
          exact ⟨rfl, hrest⟩

theorem TransEnd.committed_of_clean {e : TransEnd ε} (h : e.Clean opts) (herr : e.err? ≠ none) :
    e.committed = [] := by
  cases e with
  | beforeThrew err => rfl
  | threw err loose => simp [TransEnd.committed, h.2]
  | afterThrew err effects => exact absurd h id
  | done effects => exact absurd rfl herr

theorem TransEnd.clean_of_committed {e : TransEnd ε} (herr : e.err? ≠ none)
    (hcommitted : e.committed = [])
    (hthrew : ∀ err loose, opts.beforeTransFn = true → opts.afterTransFn = true →
      e ≠ .threw err loose) : e.Clean opts := by
  cases e with
  | beforeThrew err => trivial
  | threw err loose =>
      exact ⟨fun h => hthrew err loose h.1 h.2 rfl, by simpa [TransEnd.committed] using hcommitted⟩
  | afterThrew err effects => cases hcommitted
  | done effects => trivial

/-- All attempts but the last have thrown. -/
theorem attempts_eq (opts : TransOpts) (left : ℕ) (scripts : ℕ → TransScript (BodyRun ε)) :
    ∃ ends last, attempts opts left scripts = ends ++ [last] ∧
      ∀ e ∈ ends, e.err? ≠ none := by
  induction left generalizing scripts with
  | zero => exact ⟨[], _, rfl, nofun⟩
  | succ left ih =>
      by_cases hlocked : ((scripts 0).reached opts).err? = some .locked
      · obtain ⟨ends, last, heq, hends⟩ := ih fun i => scripts (i + 1)
        refine ⟨(scripts 0).reached opts :: ends, last, ?_, ?_⟩
        · rw [attempts, if_pos hlocked, heq]
          rfl
        · intro e he
          rcases List.mem_cons.mp he with rfl | he
          · simp [hlocked]
          · exact hends e he
      · refine ⟨[], (scripts 0).reached opts, ?_, nofun⟩
        rw [attempts, if_neg hlocked]
        rfl

theorem reached_of_mem_attempts {left : ℕ} {scripts : ℕ → TransScript (BodyRun ε)} {e : TransEnd ε}
    (he : e ∈ attempts opts left scripts) : ∃ k, (scripts k).reached opts = e := by
  induction left generalizing scripts with
  | zero => exact ⟨0, (List.mem_singleton.mp he).symm⟩
  | succ left ih =>
      rw [attempts] at he
      rcases List.mem_cons.mp he with rfl | he
      · exact ⟨0, rfl⟩
      · split_ifs at he with hlocked
        · obtain ⟨k, hk⟩ := ih he
          exact ⟨k + 1, hk⟩
        · cases he

theorem isDone_append (ends : List (TransEnd ε)) (last : TransEnd ε) :
    isDone (ends ++ [last]) = last.err?.isNone := by
  simp [isDone]

/-- A transaction settles as it should exactly if every attempt that is made is clean. -/
theorem proccesTrans_right_iff (opts : TransOpts) (amount left : ℕ)
    (scripts : ℕ → TransScript (BodyRun ε)) :
    TransRight opts scripts (proccesTrans opts left scripts (.init amount)) ↔
      ∀ e ∈ attempts opts left scripts, e.Clean opts := by
  obtain ⟨res, s', hrun, hres, hleft⟩ :=
    proccesTrans_spec opts left scripts (s := .init amount) rfl
  obtain ⟨ends, last, heq, hends⟩ := attempts_eq opts left scripts
  have hscript : ∀ e ∈ attempts opts left scripts, ∃ k, (scripts k).reached opts = e :=
    fun e he => reached_of_mem_attempts he
  have hcommitted : s'.committed = ends.flatMap TransEnd.committed ++ last.committed := by
    simpa [TransState.init, heq] using hleft.committed
  have hevents : s'.events = (ends ++ [last]).flatMap (TransEnd.events opts) := by
    simpa [TransState.init, heq] using hleft.events
  rw [heq, isDone_append] at hres
  rw [heq] at hscript ⊢
  simp only [hrun, TransRight, OutcomeRight, hres]
  constructor
  · rintro ⟨hall, hnone, hpaired⟩
    -- only an attempt that is done commits
    have hempty : ∀ e ∈ ends ++ [last], e.err? ≠ none → e.committed = [] := by
      intro e he herr
      cases hlast : last.err? with
      | none =>
          obtain ⟨k, _, hone⟩ := hall.mp (by simp [hlast])
          have hends' : e ∈ ends := by
            rcases List.mem_append.mp he with he | he
            · exact he
            · rw [List.mem_singleton.mp he] at herr
              exact absurd hlast herr
          rw [hcommitted] at hone
          cases last with
          | done effects =>
              rcases List.append_eq_singleton_iff.mp hone with ⟨hnil, _⟩ | ⟨_, hcons⟩
              · exact List.flatMap_eq_nil_iff.mp hnil e hends'
              · cases hcons
          | _ => cases hlast
      | some err =>
          have hzero := hnone.mp (by simp [hlast])
          rw [hcommitted, List.append_eq_nil_iff] at hzero
          rcases List.mem_append.mp he with he | he
          · exact List.flatMap_eq_nil_iff.mp hzero.1 e he
          · rw [List.mem_singleton.mp he]
            exact hzero.2
    intro e he
    cases herr : e.err? with
    | none =>
        cases e with
        | done effects => trivial
        | _ => cases herr
    | some err =>
        have hnotnone : e.err? ≠ none := by simp [herr]
        apply TransEnd.clean_of_committed hnotnone (hempty e he hnotnone)
        rintro err loose hbefore hafter rfl
        have hp := hpaired hbefore hafter
        rw [hevents] at hp
        exact not_threw_of_paired hbefore hp he
  · intro hclean
    have hnil : ends.flatMap TransEnd.committed = [] := by
      apply List.flatMap_eq_nil_iff.mpr
      intro e he
      exact TransEnd.committed_of_clean (hclean e (List.mem_append_left _ he)) (hends e he)
    have hpaired : opts.beforeTransFn = true → opts.afterTransFn = true → Paired s'.events := by
      intro hbefore hafter
      rw [hevents]
      apply paired_of_clean hbefore hafter hclean
      intro err he
      obtain ⟨k, hk⟩ := hscript _ he
      exact TransScript.reached_beforeThrew hk
    have hlastmem : last ∈ ends ++ [last] := List.mem_append_right _ List.mem_cons_self
    rw [hnil, List.nil_append] at hcommitted
    cases hlast : last.err? with
    | none =>
        cases last with
        | done effects =>
            obtain ⟨k, hk⟩ := hscript _ hlastmem
            obtain ⟨hok, heffects⟩ := TransScript.reached_done hk
            refine ⟨⟨fun _ => ⟨k, hok, ?_⟩, fun _ => rfl⟩, ⟨nofun, fun h => ?_⟩, hpaired⟩
            · rw [hcommitted, heffects]
              rfl
            · rw [hcommitted] at h
              cases h
        | _ => cases hlast
    | some err =>
        have hzero : s'.committed = [] := by
          rw [hcommitted]
          exact TransEnd.committed_of_clean (hclean last hlastmem) (by simp [hlast])
        refine ⟨⟨nofun, ?_⟩, ⟨fun _ => hzero, fun _ => rfl⟩, hpaired⟩
        rintro ⟨k, _, hone⟩
        rw [hzero] at hone
        cases hone

end Outcome

end TransRun

end ReportsFramework
