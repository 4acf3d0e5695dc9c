/-
Calls of `Sync.start` and `SyncQueue.add` on one process.  Each action is what a call
does between two awaits, so any order of actions is an interleaving of the calls.
-/
import Mathlib.Data.Int.Order.Basic
import Mathlib.Logic.Function.Basic
import ReportsFramework.Machine

namespace ReportsFramework

inductive SyncColl
  | all
  | coll (name : String)
deriving DecidableEq

inductive SyncOwner
  | user (ownerUserId : ℤ)
  | scheduler
deriving DecidableEq

inductive JobState
  | new
  | locked
  | finished
  | error
deriving DecidableEq

structure SyncJob where
  id : ℕ
  collName : SyncColl
  owner : SyncOwner
  state : JobState
deriving DecidableEq

def SyncJob.isActive (job : SyncJob) : Bool :=
  job.state ≠ .finished

/-- The stored progress: a number of per cent, an error, or another state. -/
inductive Progress
  | value (p : ℤ)
  | error
  | interrupted
deriving DecidableEq

def Progress.isSyncInProgress : Progress → Bool
  | value p => p < 100
  | _ => false

/-- Where a call stands.  `goesOn` says that it is a `start` that has found no sync in
progress; `isHeld` that the call has already stored a progress of its own. -/
inductive SyncPhase
  | checkingEnable
  | checkingProgress (isEnable : Bool)
  | adding (goesOn : Bool)
  | inserting (goesOn : Bool) (uSyncColls : List SyncColl)
  | pinging
  | settingProgress
  | redirecting
  | looping (count : ℕ)
  | locking (count id : ℕ)
  | processing (count id : ℕ)
  | settling (count id : ℕ)
  | removing
  | settingEnd
  | failing (isHeld : Bool)
  | redirectingBack
  | done
deriving DecidableEq

structure SyncCall where
  isStart : Bool
  owner : SyncOwner
  syncColls : List SyncColl
  phase : SyncPhase

structure SyncSys where
  jobs : List SyncJob
  nextId : ℕ
  progress : Progress
  isEnable : Bool
  signedInUserIds : List ℤ
  hasInterrupted : Bool
  isFirstSync : Bool
  call : ℕ → SyncCall
  nextCall : ℕ
  /-- The jobs that were finished, and the calls whose loop finished them. -/
  finishedBy : List (ℕ × ℕ)

inductive SyncAction
  | start (owner : SyncOwner) (syncColls : List SyncColl)
  | add (owner : SyncOwner) (syncColls : List SyncColl)
  | isSchedulerEnabled (c : ℕ)
  | getProgress (c : ℕ)
  | getAll (c : ℕ)
  | insertElemsToDb (c : ℕ)
  | pingApi (c : ℕ)
  | redirectRequestsToApi (c : ℕ)
  | setProgress (c : ℕ) (progress : Progress) (isStored : Bool)
  | getNext (c : ℕ)
  | lock (c : ℕ)
  | subProcess (c : ℕ)
  | settle (c : ℕ)
  | removeByState (c : ℕ) (ids : List ℕ)
  | fail (c : ℕ)
  | finish (c : ℕ)
  | setEnable (isEnable : Bool)
  | signIn (signedInUserIds : List ℤ)
  | interrupt (hasInterrupted : Bool)
deriving DecidableEq

namespace SyncSys

def phase (s : SyncSys) (c : ℕ) : SyncPhase := (s.call c).phase

def owner (s : SyncSys) (c : ℕ) : SyncOwner := (s.call c).owner

def goTo (s : SyncSys) (c : ℕ) (p : SyncPhase) : SyncSys :=
  { s with call := Function.update s.call c { s.call c with phase := p } }

def newCall (s : SyncSys) (call : SyncCall) : SyncSys :=
  { s with call := Function.update s.call s.nextCall call, nextCall := s.nextCall + 1 }

/-- The owners whose jobs an `add` takes into account. -/
def inScope (s : SyncSys) : SyncOwner → SyncOwner → Bool
  | .user id, owner => owner = .scheduler || owner = .user id
  | .scheduler, .scheduler => true
  | .scheduler, .user id => id ∈ s.signedInUserIds

/-- The jobs that are not finished, of the owners in scope. -/
def allSyncs (s : SyncSys) (owner : SyncOwner) : List SyncJob :=
  s.jobs.filter fun job => job.isActive && s.inScope owner job.owner

def getUniqueNames (allSyncs : List SyncJob) (syncColls : List SyncColl) : List SyncColl :=
  syncColls.foldl (fun accum curr =>
    if (∀ item ∈ allSyncs, item.collName ≠ curr) ∧ curr ∉ accum then accum ++ [curr]
    else accum) []

/-- The names to insert, if anything is inserted. -/
def uSyncColls (s : SyncSys) (owner : SyncOwner) (syncColls : List SyncColl) :
    Option (List SyncColl) :=
  if owner = .scheduler ∧ s.signedInUserIds = [] then none
  else if ∃ item ∈ s.allSyncs owner, item.collName = .all then none
  else if s.allSyncs owner = [] then some syncColls
  else some (getUniqueNames (s.allSyncs owner) syncColls)

/-- New jobs with ascending ids. -/
def newJobs (owner : SyncOwner) : ℕ → List SyncColl → List SyncJob
  | _, [] => []
  | id, collName :: rest => ⟨id, collName, owner, .new⟩ :: newJobs owner (id + 1) rest

theorem mem_newJobs {owner : SyncOwner} {id : ℕ} {colls : List SyncColl} {job : SyncJob}
    (h : job ∈ newJobs owner id colls) :
    job.owner = owner ∧ job.collName ∈ colls ∧ job.isActive = true ∧ id ≤ job.id ∧
      job.id < id + colls.length := by
  induction colls generalizing id with
  | nil => simp [newJobs] at h
  | cons coll rest ih =>
      rcases List.mem_cons.mp h with rfl | hrest
      · simp [SyncJob.isActive]
      · obtain ⟨howner, hcoll, hactive, hle, hlt⟩ := ih hrest
        refine ⟨howner, .tail _ hcoll, hactive, by omega, ?_⟩
        rw [List.length_cons]
        omega

theorem ids_newJobs (owner : SyncOwner) (id : ℕ) (colls : List SyncColl) :
    (newJobs owner id colls).Pairwise fun job job' => job.id ≠ job'.id := by
  induction colls generalizing id with
  | nil => exact .nil
  | cons coll rest ih =>
      apply List.pairwise_cons.mpr
      constructor
      · intro job hjob
        have hle := (mem_newJobs hjob).2.2.2.1
        simp
        omega
      · exact ih (id + 1)

def updateStateById (s : SyncSys) (id : ℕ) (state : JobState) : SyncSys :=
  { s with jobs := s.jobs.map fun job => if job.id = id then { job with state } else job }

/-- The first job by id that a loop of this owner may take; locked ones only when the
process takes its first. -/
def nextSync (s : SyncSys) (owner : SyncOwner) : Option SyncJob :=
  s.jobs.find? fun job =>
    (job.state = .new || job.state = .error || (s.isFirstSync && job.state = .locked)) &&
      (match owner with
        | .user id => job.owner = .scheduler || job.owner = .user id
        | .scheduler => true)

/-- Where a call goes on once it is through with `add`. -/
def afterAdd (goesOn : Bool) : SyncPhase :=
  if goesOn then .pinging else .done

/-- The phase in which a call stores a progress, which one it may store there, and where
it goes on. -/
def storing (p : SyncPhase) (progress : Progress) : Option SyncPhase :=
  match p, progress with
  | .settingProgress, .value 0 => some .redirecting
  | .processing count id, .value _ => some (.processing count id)
  | .settingEnd, .value 100 => some .redirectingBack
  | .failing _, .error => some .redirectingBack
  | .redirectingBack, .error | .redirectingBack, .interrupted => some .done
  | _, _ => none

/-- Where a call goes on when what it awaits throws. -/
def failed (isStart : Bool) : SyncPhase → Option SyncPhase
  | .checkingEnable | .checkingProgress _ | .pinging => some (.failing false)
  | .adding _ | .inserting _ _ => some (if isStart then .failing false else .done)
  | .redirecting | .looping _ | .locking _ _ | .processing _ _ | .settling _ _ | .removing =>
      some (.failing true)
  | _ => none

def step (s : SyncSys) : SyncAction → Option SyncSys
  | .start owner syncColls => some (s.newCall ⟨true, owner, syncColls, .checkingEnable⟩)
  | .add owner syncColls => some (s.newCall ⟨false, owner, syncColls, .adding false⟩)
  | .isSchedulerEnabled c =>
      if s.phase c = .checkingEnable then some (s.goTo c (.checkingProgress s.isEnable))
      else none
  | .getProgress c =>
      match s.phase c with
      | .checkingProgress isEnable =>
          some (s.goTo c (if isEnable then .adding !s.progress.isSyncInProgress else .done))
      | _ => none
  | .getAll c =>
      match s.phase c with
      | .adding goesOn =>
          match s.uSyncColls (s.owner c) (s.call c).syncColls with
          | some colls => some (s.goTo c (.inserting goesOn colls))
          | none => some (s.goTo c (afterAdd goesOn))
      | _ => none
  | .insertElemsToDb c =>
      match s.phase c with
      | .inserting goesOn colls =>
          some { s.goTo c (afterAdd goesOn) with
            jobs := s.jobs ++ newJobs (s.owner c) s.nextId colls
            nextId := s.nextId + colls.length }
      | _ => none
  | .pingApi c => if s.phase c = .pinging then some (s.goTo c .settingProgress) else none
  | .redirectRequestsToApi c =>
      if s.phase c = .redirecting then some (s.goTo c (.looping 0)) else none
  | .setProgress c progress isStored =>
      (storing (s.phase c) progress).map fun p =>
        { s.goTo c p with progress := if isStored then progress else s.progress }
  | .getNext c =>
      match s.phase c with
      | .looping count =>
          if s.hasInterrupted then some (s.goTo c .removing)
          else match s.nextSync (s.owner c) with
            | some job => some { s.goTo c (if 10 < count + 1 then .removing
                else .locking (count + 1) job.id) with isFirstSync := false }
            | none => some { s.goTo c .removing with isFirstSync := false }
      | _ => none
  | .lock c =>
      match s.phase c with
      | .locking count id => some ((s.updateStateById id .locked).goTo c (.processing count id))
      | _ => none
  | .subProcess c =>
      match s.phase c with
      | .processing count id => some (s.goTo c (.settling count id))
      | _ => none
  | .settle c =>
      match s.phase c with
      | .settling count id =>
          if s.hasInterrupted then some ((s.updateStateById id .new).goTo c .removing)
          else some { (s.updateStateById id .finished).goTo c (.looping count) with
            finishedBy := s.finishedBy ++ [(id, c)] }
      | _ => none
  | .removeByState c ids =>
      if s.phase c = .removing then
        some { s.goTo c (if s.hasInterrupted then .redirectingBack else .settingEnd) with
          jobs := s.jobs.filter fun job => job.state ≠ .finished ∨ job.id ∉ ids }
      else none
  | .fail c =>
      (failed (s.call c).isStart (s.phase c)).map fun p =>
        match s.phase c with
        | .processing _ id => (s.updateStateById id .error).goTo c p
        -- `_getNext` has cleared the flag before its query throws
        | .looping _ => { s.goTo c p with isFirstSync := false }
        | _ => s.goTo c p
  | .finish c => if s.phase c = .redirectingBack then some (s.goTo c .done) else none
  | .setEnable isEnable => some { s with isEnable }
  | .signIn signedInUserIds => some { s with signedInUserIds }
  | .interrupt hasInterrupted => some { s with hasInterrupted }

/-- No two jobs that are not finished have one collection name and owner. -/
def UniqueJobs (jobs : List SyncJob) : Prop :=
  jobs.Pairwise fun job job' => job.isActive → job'.isActive →
    ¬ (job.collName = job'.collName ∧ job.owner = job'.owner)

/-- A process that has just started, on any queue without two such jobs. -/
def machine : Machine SyncSys SyncAction where
  init s := UniqueJobs s.jobs ∧ s.jobs.Pairwise (fun job job' => job.id ≠ job'.id) ∧
    (∀ job ∈ s.jobs, job.id < s.nextId) ∧ (∀ c, s.phase c = .done) ∧ s.finishedBy = []
  step := step

end SyncSys

namespace SyncPhase

/-- The `process` loop runs. -/
def isLooping : SyncPhase → Bool
  | looping _ | locking _ _ | processing _ _ | settling _ _ => true
  | _ => false

/-- A `start` between finding no sync in progress and storing its own progress. -/
def isBefore : SyncPhase → Bool
  | adding goesOn | inserting goesOn _ => goesOn
  | pinging | settingProgress => true
  | _ => false

/-- A `start` from storing its own progress on until it stores the end of it. -/
def isHolding : SyncPhase → Bool
  | redirecting | looping _ | locking _ _ | processing _ _ | settling _ _ | removing
  | settingEnd => true
  | failing isHeld => isHeld
  | _ => false

def isInserting : SyncPhase → Bool
  | inserting _ _ => true
  | _ => false

end SyncPhase

namespace SyncSys

/-- Nothing comes between the check and the write of a call: the progress is not read
while another `start` has read it and not yet stored its own; that one is really stored;
none that counts as the end is stored while a loop runs; and the queue is not read
while another call of the same owner is about to insert into it, nor read empty for a
list with repeated names. -/
def isOrderly (s : SyncSys) : SyncAction → Bool
  | .getProgress c => ∀ c' < s.nextCall, c' ≠ c → (s.phase c').isBefore = false
  | .setProgress c progress isStored =>
      match s.phase c with
      | .settingProgress => isStored
      | .processing _ _ => progress.isSyncInProgress
      | .failing false | .redirectingBack =>
          ∀ c' < s.nextCall, (s.phase c').isHolding = false
      | _ => true
  | .getAll c =>
      (∀ c' < s.nextCall, (s.phase c').isInserting = true → s.owner c' ≠ s.owner c) ∧
        (s.allSyncs (s.owner c) ≠ [] ∨ (s.call c).syncColls.Nodup)
  | _ => true

end SyncSys

end ReportsFramework
