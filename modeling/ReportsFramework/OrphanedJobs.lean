/-
Jobs that outlive their loops.  No job is lost before a loop has finished it; but one that
is locked while no loop has it in its hands is never taken again, once the process has
taken its first job, and nobody who reads the queue from then on and sees it can add its
collection.
-/
import ReportsFramework.SyncExclusion

namespace ReportsFramework.SyncSys

variable {s s' : SyncSys} {a : SyncAction} {job : SyncJob} {actions : List SyncAction}

/-- A job waits in the queue, or was finished by a loop. -/
def Kept (job : SyncJob) (s : SyncSys) : Prop :=
  (∃ job' ∈ s.jobs, job'.isActive = true ∧ job'.id = job.id ∧ job'.collName = job.collName ∧
    job'.owner = job.owner) ∨
  job.id ∈ s.finishedBy.map Prod.fst

theorem Kept.step (hkept : Kept job s) (h : s.step a = some s') : Kept job s' := by
  have hmoves := tableMoves_of_step h
  rcases hkept with ⟨job', hjob', hactive, hid, hsame⟩ | hfin
  · rcases hmoves with ⟨hjobs, _⟩ | ⟨_, _, _, _, _, hjobs, _⟩ |
      ⟨c, id, state, _, hjobs, _, hfinished, _⟩ | ⟨ids, hjobs, _⟩
    · exact .inl ⟨job', hjobs ▸ hjob', hactive, hid, hsame⟩
    · exact .inl ⟨job', hjobs ▸ List.mem_append_left _ hjob', hactive, hid, hsame⟩
    · by_cases hupdated : job'.id = id
      · by_cases hstate : state = .finished
        · right
          rw [hfinished, if_pos hstate, ← hid, hupdated]
          simp
        · left
          refine ⟨{ job' with state }, ?_, by simpa [SyncJob.isActive] using hstate, hid, hsame⟩
          rw [hjobs]
          exact List.mem_map.mpr ⟨job', hjob', if_pos hupdated⟩
      · left
        refine ⟨job', ?_, hactive, hid, hsame⟩
        rw [hjobs]
        exact List.mem_map.mpr ⟨job', hjob', if_neg hupdated⟩
    · left
      refine ⟨job', ?_, hactive, hid, hsame⟩
      rw [hjobs]
      apply List.mem_filter.mpr
      have hne : job'.state ≠ .finished := by simpa [SyncJob.isActive] using hactive
      exact ⟨hjob', by simp [hne]⟩
  · right
    rcases hmoves with ⟨_, _, hfinished, _⟩ | ⟨_, _, _, _, _, _, _, hfinished, _⟩ |
      ⟨c, id, state, _, _, _, hfinished, _⟩ | ⟨_, _, _, hfinished, _⟩ <;> rw [hfinished]
    · exact hfin
    · exact hfin
    · split_ifs
      · rw [List.map_append]
        exact List.mem_append_left _ hfin
      · exact hfin
    · exact hfin

/-- Whatever the calls do, and wherever they throw, a job that is not finished remains in
the queue under its name and owner until a loop has finished it. -/
theorem no_job_lost (hjob : job ∈ s.jobs) (hactive : job.isActive = true)
    (hrun : machine.run Machine.free s actions = some s') :
    (∃ job' ∈ s'.jobs, job'.isActive = true ∧ job'.id = job.id ∧
      job'.collName = job.collName ∧ job'.owner = job.owner) ∨
    ∃ c, (job.id, c) ∈ s'.finishedBy := by
  have hkept : Kept job s' := by
    apply Machine.run_invariant (I := Kept job) _ _ hrun
    · exact fun _ _ _ hkept _ h => hkept.step h
    · exact .inl ⟨job, hjob, hactive, rfl, rfl, rfl⟩
  rcases hkept with hwaits | hfin
  · exact .inl hwaits
  · obtain ⟨⟨id, c⟩, hmem, hid⟩ := List.mem_map.mp hfin
    right
    refine ⟨c, ?_⟩
    rw [← hid]
    exact hmem

/-- A locked job that no loop has in its hands, after the first job was taken. -/
structure Orphaned (job : SyncJob) (s : SyncSys) : Prop where
  mem : job ∈ s.jobs
  locked : job.state = .locked
  key : ∀ job' ∈ s.jobs, job'.id = job.id → job' = job
  bounded : job.id < s.nextId
  notFirst : s.isFirstSync = false
  notTaken : ∀ c, ¬ s.taken c job.id

/-- Only the first job of a process may be a locked one. -/
theorem isFirstSync_step (h : s.step a = some s') (hfirst : s.isFirstSync = false) :
    s'.isFirstSync = false := by
  cases a with
  | setProgress c progress isStored =>
      obtain ⟨_, _, rfl⟩ := Option.map_eq_some_iff.mp h
      exact hfirst
  | fail c =>
      obtain ⟨_, _, rfl⟩ := Option.map_eq_some_iff.mp h
      split
      · exact hfirst
      · rfl
      · exact hfirst
  | _ =>
      simp only [step] at h
      grind [goTo, newCall, updateStateById]

/-- A call takes a job in its hands by `_getNext` only. -/
theorem taken_step (h : s.step a = some s') (hfirst : s.isFirstSync = false) {c id : ℕ}
    (htaken : s'.taken c id) :
    s.taken c id ∨ ∃ job' ∈ s.jobs, job'.state ≠ .locked ∧ job'.id = id := by
  cases moves_of_step h with
  | getNext hphase hjob =>
      have hmem := List.mem_of_find?_eq_some hjob
      have hstate := List.find?_some hjob
      simp only [hfirst, Bool.false_and, Bool.or_false, Bool.and_eq_true] at hstate
      grind [taken]
  | fail hp =>
      have hfailed := failed_cases hp
      grind [taken]
  | _ => grind [taken, storing_cases, afterAdd]

theorem Orphaned.step (horphaned : Orphaned job s) (h : s.step a = some s') : Orphaned job s' := by
  have hnotTaken : ∀ c, ¬ s'.taken c job.id := by
    intro c htaken
    rcases taken_step h horphaned.notFirst htaken with hold | ⟨job', hjob', hstate, hid⟩
    · exact horphaned.notTaken c hold
    · rw [horphaned.key job' hjob' hid] at hstate
      exact hstate horphaned.locked
  have hfirst := isFirstSync_step h horphaned.notFirst
  rcases tableMoves_of_step h with ⟨hjobs, hnextId, _⟩ | ⟨c, _, colls, _, _, hjobs, hnextId, _⟩ |
    ⟨c, id, state, hold, hjobs, hnextId, _⟩ | ⟨ids, hjobs, hnextId, _⟩
  · exact ⟨hjobs ▸ horphaned.mem, horphaned.locked, hjobs ▸ horphaned.key,
      hnextId ▸ horphaned.bounded, hfirst, hnotTaken⟩
  · refine ⟨hjobs ▸ List.mem_append_left _ horphaned.mem, horphaned.locked, ?_, ?_, hfirst,
      hnotTaken⟩
    · intro job' hjob' hid
      rw [hjobs] at hjob'
      rcases List.mem_append.mp hjob' with hbefore | hnew
      · exact horphaned.key job' hbefore hid
      · have hle := (mem_newJobs hnew).2.2.2.1
        have hlt := horphaned.bounded
        omega
    · rw [hnextId]
      exact Nat.lt_add_right _ horphaned.bounded
  · have hne : job.id ≠ id := by
      rintro rfl
      exact horphaned.notTaken c hold
    refine ⟨?_, horphaned.locked, ?_, hnextId ▸ horphaned.bounded, hfirst, hnotTaken⟩
    · rw [hjobs]
      exact List.mem_map.mpr ⟨job, horphaned.mem, if_neg hne⟩
    · intro job' hjob' hid
      rw [hjobs] at hjob'
      obtain ⟨old, hmem, hsame, _, _, ⟨hupdated, _⟩ | ⟨_, rfl⟩⟩ := mem_updateStateById hjob'
      · exact absurd (hid.symm.trans (hsame.trans hupdated)) hne
      · exact horphaned.key job' hmem hid
  · refine ⟨?_, horphaned.locked, ?_, hnextId ▸ horphaned.bounded, hfirst, hnotTaken⟩
    · rw [hjobs]
      exact List.mem_filter.mpr ⟨horphaned.mem, by simp [horphaned.locked]⟩
    · intro job' hjob' hid
      rw [hjobs] at hjob'
      exact horphaned.key job' (List.mem_filter.mp hjob').1 hid

/-- The collection of a job in scope is not among the names to insert. -/
theorem notMem_uSyncColls {owner : SyncOwner} {syncColls colls : List SyncColl}
    (hjob : job ∈ s.allSyncs owner) (h : s.uSyncColls owner syncColls = some colls) :
    job.collName ≠ .all ∧ job.collName ∉ colls := by
  unfold uSyncColls at h
  split_ifs at h with hscheduler hall hempty
  · rw [hempty] at hjob
    cases hjob
  · obtain rfl := Option.some.inj h
    constructor
    · exact fun hcoll => hall ⟨job, hjob, hcoll⟩
    · exact fun hmem => (getUniqueNames_spec _ _).2 _ hmem job hjob rfl

/-- An `add` of the owner has the jobs of the other one in scope, whichever of the sign-ins of
a run was the last. -/
def KeepsInScope (s : SyncSys) (actions : List SyncAction) (owner jobOwner : SyncOwner) : Prop :=
  s.inScope owner jobOwner = true ∧ ∀ ids, .signIn ids ∈ actions →
    { s with signedInUserIds := ids }.inScope owner jobOwner = true

theorem inScope_congr (h : s'.signedInUserIds = s.signedInUserIds) (owner jobOwner : SyncOwner) :
    s'.inScope owner jobOwner = s.inScope owner jobOwner := by
  cases owner <;> cases jobOwner <;> simp [inScope, h]

/-- A call that is about to insert has read the queue before, as the owner it has now. -/
theorem inserting_step (h : s.step a = some s') {c : ℕ} {goesOn : Bool} {colls : List SyncColl}
    (hphase : s'.phase c = .inserting goesOn colls) :
    s'.owner c = s.owner c ∧ (s.phase c = .inserting goesOn colls ∨
      s.uSyncColls (s.owner c) (s.call c).syncColls = some colls) := by
  cases moves_of_step h with
  | fail hp =>
      have hfailed := failed_cases hp
      grind
  | _ => grind [storing_cases, afterAdd]

theorem signedIn_step (h : s.step a = some s') :
    s'.signedInUserIds = s.signedInUserIds ∨ a = .signIn s'.signedInUserIds := by
  cases moves_of_step h with
  | signIn ids => exact .inr rfl
  | _ => exact .inl rfl

/-- A call that has the job in scope does not insert its collection. -/
structure Barred (job : SyncJob) (start : SyncSys) (actions : List SyncAction) (c : ℕ)
    (s : SyncSys) : Prop where
  orphaned : Orphaned job s
  signedIn : s.signedInUserIds = start.signedInUserIds ∨ .signIn s.signedInUserIds ∈ actions
  colls : ∀ goesOn colls, s.phase c = .inserting goesOn colls →
    KeepsInScope start actions (s.owner c) job.owner → job.collName ≠ .all ∧ job.collName ∉ colls

theorem Barred.inScope {start : SyncSys} {c : ℕ} (hbarred : Barred job start actions c s)
    {owner : SyncOwner} (hscope : KeepsInScope start actions owner job.owner) :
    s.inScope owner job.owner = true := by
  rcases hbarred.signedIn with hsame | hsigned
  · rw [inScope_congr hsame]
    exact hscope.1
  · rw [← hscope.2 _ hsigned]
    exact inScope_congr rfl _ _

theorem Barred.step {start : SyncSys} {c : ℕ} (hbarred : Barred job start actions c s)
    (ha : a ∈ actions) (h : s.step a = some s') : Barred job start actions c s' := by
  constructor
  · exact hbarred.orphaned.step h
  · rcases signedIn_step h with hsame | rfl
    · rw [hsame]
      exact hbarred.signedIn
    · exact .inr ha
  · intro goesOn colls hphase hscope
    obtain ⟨howner, hold | hread⟩ := inserting_step h hphase
    · exact hbarred.colls goesOn colls hold (howner ▸ hscope)
    · apply notMem_uSyncColls _ hread
      have hactive : job.isActive = true := by simp [SyncJob.isActive, hbarred.orphaned.locked]
      rw [howner] at hscope
      apply List.mem_filter.mpr
      exact ⟨hbarred.orphaned.mem, by simp [hactive, hbarred.inScope hscope]⟩

/-- What is inserted are jobs of the names that were found when the queue was read. -/
theorem mem_insertElemsToDb {c : ℕ} (h : s.step (.insertElemsToDb c) = some s')
    (hjob : job ∈ s'.jobs) : job ∈ s.jobs ∨
      ∃ goesOn colls, s.phase c = .inserting goesOn colls ∧ job.collName ∈ colls := by
  cases moves_of_step h with
  | insertElemsToDb hphase =>
    rcases List.mem_append.mp hjob with hold | hnew
    · exact .inl hold
    · exact .inr ⟨_, _, hphase, (mem_newJobs hnew).2.1⟩

/-- Once the process has taken its first job, a locked job that no loop has in its hands stays
locked for as long as the process runs.  A call that reads the queue in the meantime, and has the
job in scope, does not insert its collection, and nothing if it stands for all of them. -/
theorem orphaned_job_stays (hjob : job ∈ s.jobs) (hlocked : job.state = .locked)
    (hkey : ∀ job' ∈ s.jobs, job'.id = job.id → job' = job) (hbound : job.id < s.nextId)
    (hfirst : s.isFirstSync = false) (hfree : ∀ c, ¬ s.taken c job.id)
    (hrun : machine.run Machine.free s actions = some s') :
    job ∈ s'.jobs ∧ (∀ c, ¬ s'.taken c job.id) ∧
      ∀ c s'', (s.phase c).isInserting = false →
        KeepsInScope s actions (s'.owner c) job.owner →
        s'.step (.insertElemsToDb c) = some s'' → ∀ job' ∈ s''.jobs,
          job' ∈ s'.jobs ∨ job.collName ≠ .all ∧ job'.collName ≠ job.collName := by
  have horphaned : Orphaned job s := ⟨hjob, hlocked, hkey, hbound, hfirst, hfree⟩
  have hbarred (c : ℕ) (hread : (s.phase c).isInserting = false) :
      Barred job s actions c s' := by
    apply Machine.run_invariant_of_mem (I := Barred job s actions c) _ _ hrun
    · exact fun _ _ ha _ hbarred _ h => hbarred.step ha h
    · refine ⟨horphaned, .inl rfl, fun goesOn colls hphase => ?_⟩
      rw [hphase] at hread
      cases hread
  have horphaned' : Orphaned job s' := by
    apply Machine.run_invariant (I := Orphaned job) _ horphaned hrun
    exact fun _ _ _ horphaned _ h => horphaned.step h
  refine ⟨horphaned'.mem, horphaned'.notTaken, ?_⟩
  intro c s'' hread hscope hinsert job' hjob'
  rcases mem_insertElemsToDb hinsert hjob' with hold | ⟨goesOn, colls, hphase, hmem⟩
  · exact .inl hold
  · right
    obtain ⟨hall, hnot⟩ := (hbarred c hread).colls goesOn colls hphase hscope
    refine ⟨hall, fun hsame => hnot ?_⟩
    rw [← hsame]
    exact hmem

namespace UnsettledWitness

/-- A process that has just started, with a job of user 8. -/
def initial : SyncSys where
  jobs := [⟨1, .coll "trades", .user 8, .new⟩]
  nextId := 2
  progress := .interrupted
  isEnable := true
  signedInUserIds := [7, 8]
  hasInterrupted := false
  isFirstSync := true
  call _ := ⟨true, .scheduler, [], .done⟩
  nextCall := 0
  finishedBy := []

/-- User 7 loads the ledgers, and the write that would finish the job throws. -/
def unsettled : SyncSys :=
  (machine.run Machine.free initial
    [.start (.user 7) [.coll "ledgers"], .isSchedulerEnabled 0, .getProgress 0, .getAll 0,
      .insertElemsToDb 0, .pingApi 0, .setProgress 0 (.value 0) true, .redirectRequestsToApi 0,
      .getNext 0, .lock 0, .subProcess 0, .fail 0]).get (by decide)

/-- Then the job of user 8 is finished, and user 7 asks for the ledgers and the trades. -/
def later : List SyncAction :=
  [.setProgress 0 .error true, .finish 0, .start (.user 8) [.coll "trades"],
    .isSchedulerEnabled 1, .getProgress 1, .getAll 1, .insertElemsToDb 1, .pingApi 1,
    .setProgress 1 (.value 0) true, .redirectRequestsToApi 1, .getNext 1, .lock 1, .subProcess 1,
    .settle 1, .add (.user 7) [.coll "ledgers", .coll "trades"], .getAll 2]

def ended : SyncSys := (machine.run Machine.free unsettled later).get (by decide)

theorem run_later : machine.run Machine.free unsettled later = some ended :=
  (Option.some_get _).symm

theorem phase_unsettled_zero : unsettled.phase 0 = .failing true := by decide

theorem not_taken_unsettled (c : ℕ) : ¬ unsettled.taken c 2 := by
  cases c with
  | zero => rintro ⟨count, h | h | h⟩ <;> rw [phase_unsettled_zero] at h <;> cases h
  | succ c => rintro ⟨count, h | h | h⟩ <;> cases h

/-- The job of user 8 is finished. -/
theorem no_job_lost_of_finished :
    (∃ job' ∈ ended.jobs, job'.isActive = true ∧ job'.id = 1 ∧
      job'.collName = .coll "trades" ∧ job'.owner = .user 8) ∨ ∃ c, (1, c) ∈ ended.finishedBy :=
  have hjob : ⟨1, .coll "trades", .user 8, .new⟩ ∈ unsettled.jobs := by decide
  no_job_lost hjob rfl run_later

/-- The one of user 7 is not, and user 7 gets the trades only. -/
theorem orphaned_job_stays_of_unsettled :
    ⟨2, .coll "ledgers", .user 7, .locked⟩ ∈ ended.jobs ∧ (∀ c, ¬ ended.taken c 2) ∧
      ∀ c s'', (unsettled.phase c).isInserting = false →
        KeepsInScope unsettled later (ended.owner c) (.user 7) →
        ended.step (.insertElemsToDb c) = some s'' → ∀ job' ∈ s''.jobs,
          job' ∈ ended.jobs ∨ SyncColl.coll "ledgers" ≠ .all ∧ job'.collName ≠ .coll "ledgers" :=
  have hjob : ⟨2, .coll "ledgers", .user 7, .locked⟩ ∈ unsettled.jobs := by decide
  orphaned_job_stays hjob rfl (by decide) (by decide) (by decide) not_taken_unsettled run_later

end UnsettledWitness

end ReportsFramework.SyncSys
