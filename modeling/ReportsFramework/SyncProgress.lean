/-
One run of `SyncQueue.process` with the progress it reports, while other calls add jobs to
the queue.
-/
import Mathlib.Algebra.BigOperators.Group.List.Basic
import Mathlib.Algebra.Order.BigOperators.Group.List
import ReportsFramework.JobProgress
import ReportsFramework.SyncQueue

namespace ReportsFramework

/-- How many private and public collections the schema syncs, and the allowed names. -/
structure SyncSchema where
  privSize : ℕ
  pubSize : ℕ
  allowedColls : List String
  size_pos : 0 < privSize + pubSize

namespace SyncSchema

def size (schema : SyncSchema) : ℕ := schema.privSize + schema.pubSize

def allMultipliers (schema : SyncSchema) : SyncColl → Option ℚ
  | .all => some 1
  | .coll name =>
      if name = "_PRIVATE" then some (schema.privSize / schema.size)
      else if name = "_PUBLIC" then some (schema.pubSize / schema.size)
      else if name ∈ schema.allowedColls then some (1 / schema.size)
      else none

end SyncSchema

namespace SyncOwner

/-- The owners whose jobs a run of this owner takes. -/
def takes : SyncOwner → SyncOwner → Bool
  | user id, owner => owner = scheduler || owner = user id
  | scheduler, _ => true

/-- The owners whose jobs the multipliers of such a run are taken from. -/
def counts : SyncOwner → SyncOwner → Bool
  | user id, owner => owner = user id
  | scheduler, _ => true

end SyncOwner

/-- A reported progress, and the queue at that time. -/
structure SyncReport where
  progress : ℤ
  jobs : List SyncJob
deriving DecidableEq

inductive ProcessPhase
  | looping (count : ℕ)
  | locking (count : ℕ) (nextSync : SyncJob)
  | processing (count : ℕ) (nextSync : SyncJob) (currMultiplier : ℚ) (events : List DataProgress)
  | settling (count : ℕ) (nextSync : SyncJob)
  | removing
  | settingEnd
  | done
deriving DecidableEq

structure SyncProcess where
  jobs : List SyncJob
  nextId : ℕ
  isFirstSync : Bool
  hasInterrupted : Bool
  phase : ProcessPhase
  prevSyncs : List SyncJob
  multiplier : ℚ
  reports : List SyncReport
deriving DecidableEq

/-- `progress` is the next call of the handler by the data inserter of the job. -/
inductive ProcessAction
  | add (owner : SyncOwner) (syncColls : List SyncColl)
  | interrupt
  | getNext
  | lock (colls : JobColls)
  | progress
  | subProcess
  | settle
  | removeByState (ids : List ℕ)
  | setEnd
  | fail

def setState (jobs : List SyncJob) (id : ℕ) (state : JobState) : List SyncJob :=
  jobs.map fun job => if job.id = id then { job with state } else job

namespace SyncProcess

/-- The jobs that are not finished, of the owners that count. -/
def waiting (s : SyncProcess) (owner : SyncOwner) : List SyncJob :=
  s.jobs.filter fun job => job.isActive && owner.counts job.owner

def futureSyncs (s : SyncProcess) (owner : SyncOwner) : List SyncJob :=
  (s.waiting owner).take 10

def setMultiplier (schema : SyncSchema) (accum : List (ℕ × ℚ)) (job : SyncJob) : List (ℕ × ℚ) :=
  match schema.allMultipliers job.collName with
  | some multiplier => (job.id, multiplier) :: accum.filter fun entry => entry.1 ≠ job.id
  | none => accum

def getMultipliers (schema : SyncSchema) (owner : SyncOwner) (s : SyncProcess) : List (ℕ × ℚ) :=
  (s.prevSyncs ++ s.futureSyncs owner).foldl (setMultiplier schema) []

def sumMultipliers (multipliers : List (ℕ × ℚ)) : ℚ :=
  (multipliers.map Prod.snd).sum

/-- The part of one job among all that the run has done and still waits for. -/
def getMultiplier (schema : SyncSchema) (owner : SyncOwner) (s : SyncProcess) (id : ℕ) : ℚ :=
  let multipliers := s.getMultipliers schema owner
  let multipliersSum := sumMultipliers multipliers
  match multipliers.lookup id with
  | some currMultiplier =>
      if currMultiplier = 0 ∨ multipliersSum = 0 then 0 else 1 / multipliersSum * currMultiplier
  | none => 0

/-- The number that is reported for a call of the handler, if any. -/
def asyncProgress (currMultiplier multiplier : ℚ) : DataProgress → Option ℤ
  | .value progress =>
      if currMultiplier = 0 ∨ progress = 0 then none
      else if progress < 100 then some (mathRound (multiplier * 100 + progress * currMultiplier))
      else none
  | .unauth => none

def goTo (s : SyncProcess) (phase : ProcessPhase) : SyncProcess :=
  { s with phase }

/-- `add` inserts its new jobs. -/
def insertElemsToDb (s : SyncProcess) (jobOwner : SyncOwner) (syncColls : List SyncColl) :
    SyncProcess :=
  { s with
    jobs := s.jobs ++ SyncSys.newJobs jobOwner s.nextId syncColls
    nextId := s.nextId + syncColls.length }

def setProgress (s : SyncProcess) (progress : ℤ) : SyncProcess :=
  { s with reports := s.reports ++ [⟨progress, s.jobs⟩] }

/-- The first job by id that the run may take; locked ones only when the process takes
its first. -/
def nextSync (s : SyncProcess) (owner : SyncOwner) : Option SyncJob :=
  s.jobs.find? fun job =>
    (job.state = .new || job.state = .error || (s.isFirstSync && job.state = .locked)) &&
      owner.takes job.owner

def step (schema : SyncSchema) (owner : SyncOwner) (s : SyncProcess) :
    ProcessAction → Option SyncProcess
  | .add jobOwner syncColls => some (s.insertElemsToDb jobOwner syncColls)
  | .interrupt => some { s with hasInterrupted := true }
  | .getNext =>
      match s.phase with
      | .looping count =>
          if s.hasInterrupted then some (s.goTo .removing)
          else match s.nextSync owner with
            | some job => some { s.goTo (if 10 < count + 1 then .removing
                else .locking (count + 1) job) with isFirstSync := false }
            | none => some { s.goTo .removing with isFirstSync := false }
      | _ => none
  | .lock colls =>
      match s.phase with
      | .locking count job =>
          some { s.goTo (.processing count job 0 (DataInserter.insertNewDataToDbMultiUser colls))
            with jobs := setState s.jobs job.id .locked }
      | _ => none
  | .progress =>
      match s.phase with
      | .processing count job _ (event :: events) =>
          let currMultiplier := s.getMultiplier schema owner job.id
          let next := s.goTo (.processing count job currMultiplier events)
          match asyncProgress currMultiplier s.multiplier event with
          | some progress => some (next.setProgress progress)
          | none => some next
      | _ => none
  | .subProcess =>
      match s.phase with
      | .processing count job currMultiplier events =>
          if events = [] ∨ s.hasInterrupted then
            some { s.goTo (.settling count job) with multiplier := s.multiplier + currMultiplier }
          else none
      | _ => none
  | .settle =>
      match s.phase with
      | .settling count job =>
          if s.hasInterrupted then
            some { s.goTo .removing with jobs := setState s.jobs job.id .new }
          else some { s.goTo (.looping count) with
            jobs := setState s.jobs job.id .finished
            prevSyncs := s.prevSyncs ++ [job] }
      | _ => none
  | .removeByState ids =>
      if s.phase = .removing then
        some { s.goTo (if s.hasInterrupted then .done else .settingEnd) with
          jobs := s.jobs.filter fun job => job.state ≠ .finished ∨ job.id ∉ ids }
      else none
  | .setEnd => if s.phase = .settingEnd then some ((s.goTo .done).setProgress 100) else none
  | .fail =>
      match s.phase with
      | .processing _ job _ _ =>
          some { s.goTo .done with jobs := setState s.jobs job.id .error }
      | .done => none
      | _ => some (s.goTo .done)

/-- A run that begins, on any queue. -/
def machine (schema : SyncSchema) (owner : SyncOwner) : Machine SyncProcess ProcessAction where
  init s := (s.jobs.map SyncJob.id).Nodup ∧ (∀ job ∈ s.jobs, job.id < s.nextId) ∧
    s.phase = .looping 0 ∧ s.prevSyncs = [] ∧ s.multiplier = 0 ∧ s.reports = []
  step := step schema owner

/-- The job is left for a run of this owner. -/
def isLeft (owner : SyncOwner) (job : SyncJob) : Bool :=
  job.isActive && owner.takes job.owner

/-- What is reported does not fall, stays within 0 and 100, and is 100 only when no job
is left. -/
structure Climbing (owner : SyncOwner) (s : SyncProcess) : Prop where
  sorted : s.reports.Pairwise fun report report' => report.progress ≤ report'.progress
  nonneg : ∀ report ∈ s.reports, 0 ≤ report.progress
  le_full : ∀ report ∈ s.reports, report.progress ≤ 100
  full : ∀ report ∈ s.reports, report.progress = 100 → ∀ job ∈ report.jobs, isLeft owner job = false

section Steady

variable (schema : SyncSchema) (owner : SyncOwner)

def weight (job : SyncJob) : ℚ := (schema.allMultipliers job.collName).getD 0

/-- The weight of the jobs that the run has finished, of the owners that count. -/
def doneWeight (s : SyncProcess) : ℚ :=
  ((s.prevSyncs.filter fun job => owner.counts job.owner).map (weight schema)).sum

def waitingWeight (s : SyncProcess) : ℚ :=
  ((s.waiting owner).map (weight schema)).sum

def wholeWeight (s : SyncProcess) : ℚ :=
  doneWeight schema owner s + waitingWeight schema owner s

/-- A part of the whole has been given to a job. -/
def hasCounted (s : SyncProcess) : Bool :=
  match s.phase with
  | .looping _ | .locking _ _ | .settling _ _ => s.multiplier ≠ 0
  | .processing _ _ currMultiplier _ => s.multiplier ≠ 0 || currMultiplier ≠ 0
  | _ => false

/-- The loop has ended because no job was left. -/
def isEnding (s : SyncProcess) : Bool :=
  match s.phase with
  | .removing => !s.hasInterrupted
  | .settingEnd => true
  | _ => false

/-- The queue of a run stays what it was when the first part was given: no job that counts
is added from then on, and none that the run could take behind its loop.  The loop ends
because nothing is left, locked by nobody, and not at its tenth job.  No job starts its own
progress again.  While a job is processed no more than ten wait, and when a progress is
reported more than half a per cent of the whole is left. -/
def isSteady (s : SyncProcess) : ProcessAction → Prop
  | .add jobOwner _ =>
      (owner.counts jobOwner = true → hasCounted s = false) ∧
        (owner.takes jobOwner = true → isEnding s = false)
  | .getNext =>
      match s.phase with
      | .looping count => s.hasInterrupted = true ∨
          (10 ≤ count → s.nextSync owner = none) ∧
          (s.nextSync owner = none → ∀ job ∈ s.jobs, owner.takes job.owner = true →
            job.state ≠ .locked)
      | _ => True
  | .lock colls => ¬ colls.restarts
  | .progress =>
      match s.phase with
      | .processing _ job _ (event :: _) => owner.counts job.owner = true →
          (s.waiting owner).length ≤ 10 ∧ ∀ p ∈ event.value?, p ≠ 0 → p < 100 →
            wholeWeight schema owner s <
              2 * (100 * waitingWeight schema owner s - p * weight schema job)
      | _ => True
  | _ => True

instance (s : SyncProcess) (action : ProcessAction) :
    Decidable (isSteady schema owner s action) := by
  unfold isSteady
  split <;> try split
  all_goals infer_instance

end Steady

end SyncProcess

end ReportsFramework
