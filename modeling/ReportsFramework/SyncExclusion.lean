/-
Exclusive sync loops.  At most one `start` at a time is between finding no sync in
progress and storing the end of its own, as long as nothing comes between the check
and the write of a call; from this follows that a job is in the hands of one loop.
-/
import Mathlib.Data.List.Nodup
import Mathlib.Data.List.Pairwise
import ReportsFramework.SyncQueue

namespace ReportsFramework

namespace SyncPhase

/-- A `start` that goes to run its loop, runs it or has not stored the end of it. -/
def claims (p : SyncPhase) : Bool := p.isBefore || p.isHolding

theorem claims_of_isLooping {p : SyncPhase} (h : p.isLooping = true) : p.isHolding = true := by
  cases p <;> simp_all [isLooping, isHolding]

theorem exists_of_isInserting {p : SyncPhase} (h : p.isInserting = true) :
    ∃ goesOn colls, p = .inserting goesOn colls := by
  cases p <;> simp_all [isInserting]

end SyncPhase

namespace SyncSys

variable {s s' : SyncSys} {a : SyncAction}

@[grind =] theorem phase_eq (s : SyncSys) (c : ℕ) : s.phase c = (s.call c).phase := rfl

@[grind =] theorem owner_eq (s : SyncSys) (c : ℕ) : s.owner c = (s.call c).owner := rfl

@[simp, grind =] theorem call_goTo (s : SyncSys) (c c' : ℕ) (p : SyncPhase) :
    (s.goTo c p).call c' = if c' = c then { s.call c with phase := p } else s.call c' := by
  simp [goTo, Function.update_apply]

@[simp, grind =] theorem call_newCall (s : SyncSys) (call : SyncCall) (c : ℕ) :
    (s.newCall call).call c = if c = s.nextCall then call else s.call c := by
  simp [newCall, Function.update_apply]

@[simp, grind =] theorem call_updateStateById (s : SyncSys) (id : ℕ) (state : JobState) :
    (s.updateStateById id state).call = s.call := rfl

@[simp, grind =] theorem nextCall_goTo (s : SyncSys) (c : ℕ) (p : SyncPhase) :
    (s.goTo c p).nextCall = s.nextCall := rfl

@[simp, grind =] theorem nextCall_newCall (s : SyncSys) (call : SyncCall) :
    (s.newCall call).nextCall = s.nextCall + 1 := rfl

@[simp, grind =] theorem nextCall_updateStateById (s : SyncSys) (id : ℕ) (state : JobState) :
    (s.updateStateById id state).nextCall = s.nextCall := rfl

/-- What an action requires and does, one case for each. -/
inductive Moves (s : SyncSys) : SyncAction → SyncSys → Prop
  | start (owner syncColls) :
      Moves s (.start owner syncColls) (s.newCall ⟨true, owner, syncColls, .checkingEnable⟩)
  | add (owner syncColls) :
      Moves s (.add owner syncColls) (s.newCall ⟨false, owner, syncColls, .adding false⟩)
  | isSchedulerEnabled {c} (hphase : s.phase c = .checkingEnable) :
      Moves s (.isSchedulerEnabled c) (s.goTo c (.checkingProgress s.isEnable))
  | getProgress {c isEnable} (p : SyncPhase) (hphase : s.phase c = .checkingProgress isEnable)
      (hp : p = .done ∨ p = .adding !s.progress.isSyncInProgress) :
      Moves s (.getProgress c) (s.goTo c p)
  | getAll {c goesOn colls} (hphase : s.phase c = .adding goesOn)
      (hcolls : s.uSyncColls (s.owner c) (s.call c).syncColls = some colls) :
      Moves s (.getAll c) (s.goTo c (.inserting goesOn colls))
  | getAllNone {c goesOn} (hphase : s.phase c = .adding goesOn) :
      Moves s (.getAll c) (s.goTo c (afterAdd goesOn))
  | insertElemsToDb {c goesOn colls} (hphase : s.phase c = .inserting goesOn colls) :
      Moves s (.insertElemsToDb c) { s.goTo c (afterAdd goesOn) with
        jobs := s.jobs ++ newJobs (s.owner c) s.nextId colls
        nextId := s.nextId + colls.length }
  | pingApi {c} (hphase : s.phase c = .pinging) :
      Moves s (.pingApi c) (s.goTo c .settingProgress)
  | redirectRequestsToApi {c} (hphase : s.phase c = .redirecting) :
      Moves s (.redirectRequestsToApi c) (s.goTo c (.looping 0))
  | setProgress {c p progress} (isStored) (hp : storing (s.phase c) progress = some p) :
      Moves s (.setProgress c progress isStored) { s.goTo c p with
        progress := if isStored then progress else s.progress }
  | getNext {c count job} (hphase : s.phase c = .looping count)
      (hjob : s.nextSync (s.owner c) = some job) :
      Moves s (.getNext c) { s.goTo c (.locking (count + 1) job.id) with isFirstSync := false }
  | getNextNone {c count} (isFirstSync) (hphase : s.phase c = .looping count) :
      Moves s (.getNext c) { s.goTo c .removing with isFirstSync }
  | lock {c count id} (hphase : s.phase c = .locking count id) :
      Moves s (.lock c) ((s.updateStateById id .locked).goTo c (.processing count id))
  | subProcess {c count id} (hphase : s.phase c = .processing count id) :
      Moves s (.subProcess c) (s.goTo c (.settling count id))
  | settleNew {c count id} (hphase : s.phase c = .settling count id) :
      Moves s (.settle c) ((s.updateStateById id .new).goTo c .removing)
  | settle {c count id} (hphase : s.phase c = .settling count id) :
      Moves s (.settle c) { (s.updateStateById id .finished).goTo c (.looping count) with
        finishedBy := s.finishedBy ++ [(id, c)] }
  | removeByState {c} (p ids) (hphase : s.phase c = .removing)
      (hp : p = .redirectingBack ∨ p = .settingEnd) :
      Moves s (.removeByState c ids) { s.goTo c p with
        jobs := s.jobs.filter fun job => job.state ≠ .finished ∨ job.id ∉ ids }
  | failProcessing {c count id} (hphase : s.phase c = .processing count id) :
      Moves s (.fail c) ((s.updateStateById id .error).goTo c (.failing true))
  | failLooping {c count} (hphase : s.phase c = .looping count) :
      Moves s (.fail c) { s.goTo c (.failing true) with isFirstSync := false }
  | fail {c p} (hp : failed (s.call c).isStart (s.phase c) = some p) :
      Moves s (.fail c) (s.goTo c p)
  | finish {c} (hphase : s.phase c = .redirectingBack) : Moves s (.finish c) (s.goTo c .done)
  | setEnable (isEnable) : Moves s (.setEnable isEnable) { s with isEnable }
  | signIn (signedInUserIds) : Moves s (.signIn signedInUserIds) { s with signedInUserIds }
  | interrupt (hasInterrupted) : Moves s (.interrupt hasInterrupted) { s with hasInterrupted }

theorem moves_of_step (h : s.step a = some s') : s.Moves a s' := by
  cases a with
  | setProgress c progress isStored =>
      obtain ⟨p, hp, rfl⟩ := Option.map_eq_some_iff.mp h
      exact .setProgress isStored hp
  | fail c =>
      obtain ⟨p, hp, rfl⟩ := Option.map_eq_some_iff.mp h
      rcases hphase : s.phase c with _ | _ | _ | _ | _ | _ | _ | count | _ | ⟨count, id⟩ <;>
        rw [hphase] at hp
      case processing =>
        obtain rfl := Option.some.inj hp
        exact .failProcessing hphase
      case looping =>
        obtain rfl := Option.some.inj hp
        exact .failLooping hphase
      all_goals exact .fail (by rwa [hphase])
  | getNext c =>
      simp only [step] at h
      split at h
      case h_2 => simp at h
      rename_i count hphase
      by_cases hinterrupted : s.hasInterrupted = true
      · rw [if_pos hinterrupted] at h
        obtain rfl := Option.some.inj h
        exact .getNextNone s.isFirstSync hphase
      rw [if_neg hinterrupted] at h
      rcases hjob : s.nextSync (s.owner c) with _ | job <;> rw [hjob] at h <;>
        obtain rfl := Option.some.inj h
      · exact .getNextNone false hphase
      by_cases hcount : 10 < count + 1
      · rw [if_pos hcount]
        exact .getNextNone false hphase
      · rw [if_neg hcount]
        exact .getNext hphase hjob
  | _ =>
      simp only [step] at h
      grind [Moves]

theorem storing_cases {p p' : SyncPhase} {progress : Progress}
    (h : storing p progress = some p') :
    (p = .settingProgress ∧ progress = .value 0 ∧ p' = .redirecting) ∨
      (∃ count id, p = .processing count id ∧ p' = .processing count id) ∨
      (p = .settingEnd ∧ p' = .redirectingBack) ∨
      (∃ isHeld, p = .failing isHeld ∧ p' = .redirectingBack) ∨
      (p = .redirectingBack ∧ p' = .done) := by
  unfold storing at h
  split at h <;> simp only [Option.some.injEq, reduceCtorEq] at h <;> subst h <;> simp

theorem failed_cases {p p' : SyncPhase} {isStart : Bool} (h : failed isStart p = some p') :
    p' = .done ∨ p' = .failing false ∨ (p' = .failing true ∧ p.isHolding = true) := by
  cases p <;> simp only [failed, Option.some.injEq, reduceCtorEq] at h <;> subst h <;>
    simp [SyncPhase.isHolding]

theorem failed_done (isStart : Bool) : failed isStart .done = none := rfl

/-- A call comes to claim the loop only by finding no sync in progress. -/
theorem claims_of_step (h : s.step a = some s') {c : ℕ} (hc : (s'.phase c).claims = true) :
    (s.phase c).claims = true ∨
      a = .getProgress c ∧ s.progress.isSyncInProgress = false := by
  cases moves_of_step h <;>
    grind [SyncPhase.claims, SyncPhase.isBefore, SyncPhase.isHolding, storing_cases,
      failed_cases, afterAdd]

/-- A call comes to hold the loop only by storing its own progress. -/
theorem isHolding_of_step (h : s.step a = some s') {c : ℕ}
    (hc : (s'.phase c).isHolding = true) :
    (s.phase c).isHolding = true ∨
      s.phase c = .settingProgress ∧ ∃ isStored, a = .setProgress c (.value 0) isStored := by
  cases moves_of_step h <;>
    grind [SyncPhase.isHolding, storing_cases, failed_cases, afterAdd]

theorem progress_of_step (h : s.step a = some s') :
    s'.progress = s.progress ∨ ∃ c progress isStored, a = .setProgress c progress isStored ∧
      s'.progress = progress ∧ storing (s.phase c) progress = some (s'.phase c) := by
  cases moves_of_step h with
  | setProgress isStored hp =>
      rcases isStored with _ | _
      · exact .inl rfl
      · exact .inr ⟨_, _, _, rfl, rfl, by simpa [phase_eq] using hp⟩
  | _ => exact .inl rfl

/-- At most one call claims the loop, and while it holds it the progress says so. -/
structure LoopInv (s : SyncSys) : Prop where
  one : ∀ c c', (s.phase c).claims = true → (s.phase c').claims = true → c = c'
  active : ∀ c, (s.phase c).isHolding = true → s.progress.isSyncInProgress = true
  uncalled : ∀ c, s.nextCall ≤ c → s.phase c = .done

theorem LoopInv.lt_nextCall (hs : s.LoopInv) {c : ℕ} (hc : (s.phase c).claims = true) :
    c < s.nextCall := by
  by_contra hle
  rw [hs.uncalled c (Nat.le_of_not_lt hle)] at hc
  exact absurd hc (by decide)

theorem claims_of_isHolding {p : SyncPhase} (h : p.isHolding = true) : p.claims = true := by
  simp [SyncPhase.claims, h]

/-- The call that finds no sync in progress is the only one to claim the loop. -/
theorem LoopInv.one_step (hs : s.LoopInv) (ha : s.isOrderly a = true)
    (h : s.step a = some s') {c c' : ℕ} (hc : (s'.phase c).claims = true)
    (hc' : (s'.phase c').claims = true) : c = c' := by
  have hnew : ∀ c c', a = .getProgress c → s.progress.isSyncInProgress = false →
      (s.phase c').claims = true → c = c' := by
    rintro c c' rfl hidle hclaims
    by_contra hne
    have hbefore := of_decide_eq_true ha c' (hs.lt_nextCall hclaims) (Ne.symm hne)
    have hholding : (s.phase c').isHolding = true := by
      simpa [SyncPhase.claims, hbefore] using hclaims
    rw [hs.active c' hholding] at hidle
    exact absurd hidle (by decide)
  rcases claims_of_step h hc with hold | ⟨hget, hidle⟩
  · rcases claims_of_step h hc' with hold' | ⟨hget', hidle'⟩
    · exact hs.one c c' hold hold'
    · exact (hnew c' c hget' hidle' hold).symm
  · rcases claims_of_step h hc' with hold' | ⟨hget', _⟩
    · exact hnew c c' hget hidle hold'
    · rw [hget] at hget'
      injection hget'

theorem LoopInv.active_step (hs : s.LoopInv) (ha : s.isOrderly a = true)
    (h : s.step a = some s') {c : ℕ} (hc : (s'.phase c).isHolding = true) :
    s'.progress.isSyncInProgress = true := by
  rcases isHolding_of_step h hc with hold | ⟨hphase, isStored, rfl⟩
  · rcases progress_of_step h with hsame | ⟨d, progress, isStored, rfl, hset, hstoring⟩
    · rw [hsame]
      exact hs.active c hold
    · rw [hset]
      -- the holder itself stores no end and goes on holding
      have hother : (s.phase d).isHolding = true → (s'.phase d).isHolding = false → False := by
        intro hd hd'
        obtain rfl := hs.one c d (claims_of_isHolding hold) (claims_of_isHolding hd)
        rw [hc] at hd'
        exact absurd hd' (by decide)
      rcases storing_cases hstoring with ⟨_, rfl, _⟩ | ⟨count, id, hd, _⟩ | ⟨hd, hd'⟩ |
        ⟨isHeld, hd, hd'⟩ | ⟨hd, _⟩
      · rfl
      · simpa [isOrderly, hd] using ha
      · exact (hother (by rw [hd]; rfl) (by rw [hd']; rfl)).elim
      · rcases isHeld with _ | _
        · simp only [isOrderly, hd, decide_eq_true_eq] at ha
          have hnone := ha c (hs.lt_nextCall (claims_of_isHolding hold))
          rw [hold] at hnone
          exact absurd hnone (by decide)
        · exact (hother (by rw [hd]; rfl) (by rw [hd']; rfl)).elim
      · simp only [isOrderly, hd, decide_eq_true_eq] at ha
        have hnone := ha c (hs.lt_nextCall (claims_of_isHolding hold))
        rw [hold] at hnone
        exact absurd hnone (by decide)
  · have hstored : isStored = true := by simpa [isOrderly, hphase] using ha
    rcases progress_of_step h with hsame | ⟨d, progress, isStored', hset, hval, _⟩
    · cases moves_of_step h with
      | setProgress _ hp => simp [hstored, Progress.isSyncInProgress]
    · injection hset with _ hval'
      rw [hval, ← hval']
      rfl

theorem uncalled_step (h : s.step a = some s')
    (hs : ∀ c, s.nextCall ≤ c → s.phase c = .done) {c : ℕ} (hc : s'.nextCall ≤ c) :
    s'.phase c = .done := by
  have hold := hs c
  cases moves_of_step h <;> grind [storing_cases, failed_done]

theorem LoopInv.step (hs : s.LoopInv) (ha : s.isOrderly a = true) (h : s.step a = some s') :
    s'.LoopInv where
  one _ _ := hs.one_step ha h
  active _ := hs.active_step ha h
  uncalled _ := uncalled_step h hs.uncalled

/-- The job a call has in its hands. -/
def taken (s : SyncSys) (c id : ℕ) : Prop :=
  ∃ count, s.phase c = .locking count id ∨ s.phase c = .processing count id ∨
    s.phase c = .settling count id

/-- The jobs a loop works on are not finished, and no job is finished twice. -/
structure JobInv (s : SyncSys) : Prop where
  unique : UniqueJobs s.jobs
  ids : s.jobs.Pairwise fun job job' => job.id ≠ job'.id
  bounded : ∀ job ∈ s.jobs, job.id < s.nextId
  taken : ∀ c id, s.taken c id → id < s.nextId ∧ id ∉ s.finishedBy.map Prod.fst ∧
    ∀ job ∈ s.jobs, job.id = id → job.isActive = true
  finished : (s.finishedBy.map Prod.fst).Nodup ∧
    ∀ id ∈ s.finishedBy.map Prod.fst, id < s.nextId ∧
      ∀ job ∈ s.jobs, job.id = id → job.isActive = false
  inserting : ∀ c goesOn colls, s.phase c = .inserting goesOn colls → colls.Nodup ∧
    ∀ job ∈ s.jobs, job.isActive = true → job.owner = s.owner c → job.collName ∉ colls
  oneInserting : ∀ c c', (s.phase c).isInserting = true → (s.phase c').isInserting = true →
    s.owner c = s.owner c' → c = c'

theorem isLooping_of_taken {c id : ℕ} (h : s.taken c id) : (s.phase c).isLooping = true := by
  obtain ⟨count, h | h | h⟩ := h <;> rw [h] <;> rfl

theorem LoopInv.taken_eq (hs : s.LoopInv) {c c' id id' : ℕ} (h : s.taken c id)
    (h' : s.taken c' id') : c = c' := by
  apply hs.one
  · exact claims_of_isHolding (SyncPhase.claims_of_isLooping (isLooping_of_taken h))
  · exact claims_of_isHolding (SyncPhase.claims_of_isLooping (isLooping_of_taken h'))

theorem active_of_nextSync {owner : SyncOwner} {job : SyncJob}
    (h : s.nextSync owner = some job) : job.isActive = true := by
  have hfound := List.find?_some h
  cases hstate : job.state <;> simp [SyncJob.isActive, hstate] at hfound ⊢

/-- What an action does to the queue. -/
inductive TableMoves (s s' : SyncSys) : Prop
  | same (hjobs : s'.jobs = s.jobs) (hnextId : s'.nextId = s.nextId)
      (hfinished : s'.finishedBy = s.finishedBy)
      (htaken : ∀ c id, s'.taken c id → s.taken c id ∨
        ∃ job ∈ s.jobs, job.isActive = true ∧ job.id = id)
  | insert (c : ℕ) (goesOn : Bool) (colls : List SyncColl)
      (hphase : s.phase c = .inserting goesOn colls)
      (hphase' : s'.phase c = afterAdd goesOn)
      (hjobs : s'.jobs = s.jobs ++ newJobs (s.owner c) s.nextId colls)
      (hnextId : s'.nextId = s.nextId + colls.length)
      (hfinished : s'.finishedBy = s.finishedBy)
      (htaken : ∀ c id, s'.taken c id → s.taken c id)
  | update (c id : ℕ) (state : JobState) (hold : s.taken c id)
      (hjobs : s'.jobs = (s.updateStateById id state).jobs) (hnextId : s'.nextId = s.nextId)
      (hfinished : s'.finishedBy =
        if state = .finished then s.finishedBy ++ [(id, c)] else s.finishedBy)
      (htaken : ∀ c' id', s'.taken c' id' → s.taken c' id')
      (hkept : ∀ id', s'.taken c id' → state ≠ .finished)
  | remove (ids : List ℕ)
      (hjobs : s'.jobs = s.jobs.filter fun job => job.state ≠ .finished ∨ job.id ∉ ids)
      (hnextId : s'.nextId = s.nextId) (hfinished : s'.finishedBy = s.finishedBy)
      (htaken : ∀ c id, s'.taken c id → s.taken c id)

theorem tableMoves_of_step (h : s.step a = some s') : s.TableMoves s' := by
  cases moves_of_step h with
  | insertElemsToDb hphase =>
      refine .insert _ _ _ hphase ?_ rfl rfl rfl ?_
      · grind
      · grind [taken, afterAdd]
  | lock hphase =>
      refine .update _ _ .locked ⟨_, .inl hphase⟩ rfl rfl rfl ?_ ?_
      · grind [taken]
      · simp
  | settleNew hphase =>
      refine .update _ _ .new ⟨_, .inr (.inr hphase)⟩ rfl rfl rfl ?_ ?_
      · grind [taken]
      · simp
  | settle hphase =>
      refine .update _ _ .finished ⟨_, .inr (.inr hphase)⟩ rfl rfl rfl ?_ ?_
      · grind [taken]
      · grind [taken]
  | failProcessing hphase =>
      refine .update _ _ .error ⟨_, .inr (.inl hphase)⟩ rfl rfl rfl ?_ ?_
      · grind [taken]
      · simp
  | removeByState p ids hphase hp =>
      refine .remove ids rfl rfl rfl ?_
      grind [taken]
  | getNext hphase hjob =>
      refine .same rfl rfl rfl ?_
      have hmem := List.mem_of_find?_eq_some hjob
      have hactive := active_of_nextSync hjob
      grind [taken]
  | fail hp =>
      refine .same rfl rfl rfl ?_
      have hfailed := failed_cases hp
      grind [taken]
  | _ =>
      refine .same rfl rfl rfl ?_
      grind [taken, storing_cases, afterAdd]

theorem uniqueJobs_newJobs {colls : List SyncColl} (owner : SyncOwner) (id : ℕ)
    (h : colls.Nodup) : UniqueJobs (newJobs owner id colls) := by
  induction colls generalizing id with
  | nil => exact .nil
  | cons coll rest ih =>
      obtain ⟨hcoll, hrest⟩ := List.nodup_cons.mp h
      apply List.pairwise_cons.mpr
      constructor
      · rintro job hjob _ _ ⟨hname, _⟩
        have hmem := (mem_newJobs hjob).2.1
        rw [← hname] at hmem
        exact hcoll hmem
      · exact ih (id + 1) hrest

/-- Jobs that keep name and owner, and become active only if they were. -/
theorem uniqueJobs_map {jobs : List SyncJob} (f : SyncJob → SyncJob)
    (hname : ∀ job, (f job).collName = job.collName ∧ (f job).owner = job.owner)
    (hactive : ∀ job ∈ jobs, (f job).isActive = true → job.isActive = true)
    (h : UniqueJobs jobs) : UniqueJobs (jobs.map f) := by
  apply List.pairwise_map.mpr
  apply List.Pairwise.imp_of_mem _ h
  intro job job' hmem hmem' hne hjob hjob' hsame
  apply hne (hactive job hmem hjob) (hactive job' hmem' hjob')
  rwa [(hname job).1, (hname job).2, (hname job').1, (hname job').2] at hsame

theorem getUniqueNames_spec (allSyncs : List SyncJob) (syncColls : List SyncColl) :
    (getUniqueNames allSyncs syncColls).Nodup ∧
      ∀ coll ∈ getUniqueNames allSyncs syncColls, ∀ item ∈ allSyncs, item.collName ≠ coll := by
  apply List.foldlRecOn (motive := fun accum : List SyncColl => accum.Nodup ∧
    ∀ coll ∈ accum, ∀ item ∈ allSyncs, item.collName ≠ coll)
  · simp
  · rintro accum ⟨hnodup, hnew⟩ curr _
    split_ifs with hcurr
    · constructor
      · exact List.nodup_append.mpr ⟨hnodup, List.nodup_singleton _, by grind⟩
      · grind
    · exact ⟨hnodup, hnew⟩

/-- The names to insert are new for the owner, and repeated only if the queue was empty
for a list with repeated names. -/
theorem uSyncColls_spec {owner : SyncOwner} {syncColls colls : List SyncColl}
    (hlist : s.allSyncs owner ≠ [] ∨ syncColls.Nodup)
    (h : s.uSyncColls owner syncColls = some colls) :
    colls.Nodup ∧ ∀ job ∈ s.jobs, job.isActive = true → job.owner = owner →
      job.collName ∉ colls := by
  have hscope : ∀ job ∈ s.jobs, job.isActive = true → job.owner = owner →
      job ∈ s.allSyncs owner := by
    rintro job hjob hactive rfl
    have hself : s.inScope job.owner job.owner = true := by
      cases howner : job.owner <;> simp [inScope]
    simp [allSyncs, hjob, hactive, hself]
  unfold uSyncColls at h
  split_ifs at h with hscheduler hall hempty
  · obtain rfl := Option.some.inj h
    refine ⟨hlist.resolve_left (absurd hempty), ?_⟩
    intro job hjob hactive howner
    have hmem := hscope job hjob hactive howner
    rw [hempty] at hmem
    exact absurd hmem List.not_mem_nil
  · obtain rfl := Option.some.inj h
    obtain ⟨hnodup, hnew⟩ := getUniqueNames_spec (s.allSyncs owner) syncColls
    refine ⟨hnodup, ?_⟩
    intro job hjob hactive howner hmem
    exact hnew _ hmem job (hscope job hjob hactive howner) rfl

theorem mem_updateStateById {id : ℕ} {state : JobState} {job : SyncJob}
    (h : job ∈ (s.updateStateById id state).jobs) :
    ∃ old ∈ s.jobs, job.id = old.id ∧ job.collName = old.collName ∧ job.owner = old.owner ∧
      (old.id = id ∧ job.state = state ∨ old.id ≠ id ∧ job = old) := by
  obtain ⟨old, hmem, rfl⟩ := List.mem_map.mp h
  by_cases hid : old.id = id
  · exact ⟨old, hmem, by simp [hid]⟩
  · exact ⟨old, hmem, by simp [hid]⟩

theorem JobInv.unique_step (hs : s.JobInv) (h : s.step a = some s') : UniqueJobs s'.jobs := by
  rcases tableMoves_of_step h with ⟨hjobs⟩ | ⟨c, goesOn, colls, hphase, _, hjobs⟩ |
    ⟨c, id, state, hold, hjobs⟩ | ⟨ids, hjobs⟩ <;> rw [hjobs]
  · exact hs.unique
  · obtain ⟨hnodup, hnew⟩ := hs.inserting c goesOn colls hphase
    apply List.pairwise_append.mpr
    refine ⟨hs.unique, uniqueJobs_newJobs _ _ hnodup, ?_⟩
    rintro job hjob job' hjob' hactive _ ⟨hname, howner⟩
    have hmem := mem_newJobs hjob'
    rw [hmem.1] at howner
    rw [← hname] at hmem
    exact hnew job hjob hactive howner hmem.2.1
  · apply uniqueJobs_map _ _ _ hs.unique
    · intro job
      split_ifs <;> exact ⟨rfl, rfl⟩
    · intro job hjob hactive
      by_cases hid : job.id = id
      · exact (hs.taken c id hold).2.2 job hjob hid
      · rwa [if_neg hid] at hactive
  · exact hs.unique.filter _

theorem JobInv.ids_step (hs : s.JobInv) (h : s.step a = some s') :
    s'.jobs.Pairwise (fun job job' => job.id ≠ job'.id) ∧ ∀ job ∈ s'.jobs, job.id < s'.nextId := by
  rcases tableMoves_of_step h with ⟨hjobs, hnextId⟩ | ⟨c, goesOn, colls, _, _, hjobs, hnextId⟩ |
    ⟨c, id, state, _, hjobs, hnextId⟩ | ⟨ids, hjobs, hnextId⟩ <;> rw [hjobs, hnextId]
  · exact ⟨hs.ids, hs.bounded⟩
  · constructor
    · apply List.pairwise_append.mpr
      refine ⟨hs.ids, ids_newJobs _ _ _, ?_⟩
      intro job hjob job' hjob'
      have hlt := hs.bounded job hjob
      have hle := (mem_newJobs hjob').2.2.2.1
      omega
    · intro job hjob
      rcases List.mem_append.mp hjob with hold | hnew
      · exact Nat.lt_add_right _ (hs.bounded job hold)
      · exact (mem_newJobs hnew).2.2.2.2
  · constructor
    · apply List.pairwise_map.mpr
      apply hs.ids.imp
      intro job job' hne
      by_cases hid : job.id = id <;> by_cases hid' : job'.id = id <;> simp [hid, hid'] <;> omega
    · intro job hjob
      obtain ⟨old, hmem, hid, _⟩ := mem_updateStateById hjob
      rw [hid]
      exact hs.bounded old hmem
  · exact ⟨hs.ids.filter _, fun job hjob => hs.bounded job (List.mem_filter.mp hjob).1⟩

theorem JobInv.finished_step (hs : s.JobInv) (h : s.step a = some s') :
    (s'.finishedBy.map Prod.fst).Nodup ∧ ∀ id ∈ s'.finishedBy.map Prod.fst, id < s'.nextId ∧
      ∀ job ∈ s'.jobs, job.id = id → job.isActive = false := by
  obtain ⟨hnodup, hfin⟩ := hs.finished
  rcases tableMoves_of_step h with ⟨hjobs, hnextId, hfinished, _⟩ |
    ⟨c, goesOn, colls, _, _, hjobs, hnextId, hfinished, _⟩ |
    ⟨c, id, state, hold, hjobs, hnextId, hfinished, _⟩ | ⟨ids, hjobs, hnextId, hfinished, _⟩ <;>
    rw [hjobs, hnextId, hfinished]
  · exact hs.finished
  · refine ⟨hnodup, ?_⟩
    intro id hid
    refine ⟨Nat.lt_add_right _ (hfin id hid).1, ?_⟩
    intro job hjob hjobid
    rcases List.mem_append.mp hjob with hmem | hnew
    · exact (hfin id hid).2 job hmem hjobid
    · have hle := (mem_newJobs hnew).2.2.2.1
      have hlt := (hfin id hid).1
      omega
  · obtain ⟨hlt, hnot, _⟩ := hs.taken c id hold
    have hother : ∀ id' ∈ s.finishedBy.map Prod.fst, id' < s.nextId ∧
        ∀ job ∈ (s.updateStateById id state).jobs, job.id = id' → job.isActive = false := by
      intro id' hid'
      refine ⟨(hfin id' hid').1, ?_⟩
      intro job hjob hjobid
      obtain ⟨old, hmem, hsame, _, _, ⟨hold', _⟩ | ⟨_, rfl⟩⟩ := mem_updateStateById hjob
      · rw [← hold', ← hsame, hjobid] at hnot
        exact absurd hid' hnot
      · exact (hfin id' hid').2 job hmem hjobid
    by_cases hstate : state = .finished
    · rw [if_pos hstate, List.map_append]
      constructor
      · apply List.nodup_append.mpr
        refine ⟨hnodup, List.nodup_singleton _, ?_⟩
        rintro id' hid' _ hmem rfl
        rw [List.map_singleton, List.mem_singleton] at hmem
        rw [hmem] at hid'
        exact hnot hid'
      · intro id' hid'
        rcases List.mem_append.mp hid' with hmem | hnew
        · exact hother id' hmem
        · obtain rfl := List.mem_singleton.mp hnew
          refine ⟨hlt, ?_⟩
          intro job hjob hjobid
          obtain ⟨old, _, hsame, _, _, ⟨_, hset⟩ | ⟨hne, _⟩⟩ := mem_updateStateById hjob
          · simp [SyncJob.isActive, hset, hstate]
          · exact absurd (hsame.symm.trans hjobid) hne
    · rw [if_neg hstate]
      exact ⟨hnodup, hother⟩
  · refine ⟨hnodup, ?_⟩
    intro id hid
    refine ⟨(hfin id hid).1, ?_⟩
    intro job hjob
    exact (hfin id hid).2 job (List.mem_filter.mp hjob).1

theorem taken_inj {c id id' : ℕ} (h : s.taken c id) (h' : s.taken c id') : id = id' := by
  obtain ⟨count, h | h | h⟩ := h <;> obtain ⟨count', h' | h' | h'⟩ := h' <;>
    rw [h] at h' <;> cases h' <;> rfl

theorem JobInv.taken_step (hs : s.JobInv) (hl : s.LoopInv) (h : s.step a = some s')
    {c id : ℕ} (htaken' : s'.taken c id) :
    id < s'.nextId ∧ id ∉ s'.finishedBy.map Prod.fst ∧
      ∀ job ∈ s'.jobs, job.id = id → job.isActive = true := by
  rcases tableMoves_of_step h with ⟨hjobs, hnextId, hfinished, htaken⟩ |
    ⟨d, goesOn, colls, _, _, hjobs, hnextId, hfinished, htaken⟩ |
    ⟨d, id', state, hold, hjobs, hnextId, hfinished, htaken, hkept⟩ |
    ⟨ids, hjobs, hnextId, hfinished, htaken⟩ <;> rw [hjobs, hnextId, hfinished]
  · rcases htaken c id htaken' with hbefore | ⟨job, hjob, hactive, rfl⟩
    · exact hs.taken c id hbefore
    · refine ⟨hs.bounded job hjob, ?_, ?_⟩
      · intro hmem
        have hover := (hs.finished.2 job.id hmem).2 job hjob rfl
        rw [hactive] at hover
        exact absurd hover (by decide)
      · intro job' hjob' hid
        by_contra hne
        have hdiff : job' ≠ job := by
          rintro rfl
          exact hne hactive
        have hsymm : Std.Symm fun job job' : SyncJob => job.id ≠ job'.id := ⟨fun _ _ => Ne.symm⟩
        exact hs.ids.forall hjob' hjob hdiff hid
  · obtain ⟨hlt, hnot, hactive⟩ := hs.taken c id (htaken c id htaken')
    refine ⟨Nat.lt_add_right _ hlt, hnot, ?_⟩
    intro job hjob hid
    rcases List.mem_append.mp hjob with hmem | hnew
    · exact hactive job hmem hid
    · exact (mem_newJobs hnew).2.2.1
  · have hbefore := htaken c id htaken'
    obtain rfl := hl.taken_eq hold hbefore
    obtain rfl := taken_inj hold hbefore
    obtain ⟨hlt, hnot, hactive⟩ := hs.taken _ _ hbefore
    have hstate := hkept _ htaken'
    rw [if_neg hstate]
    refine ⟨hlt, hnot, ?_⟩
    intro job hjob _
    obtain ⟨old, hmem, _, _, _, ⟨_, hset⟩ | ⟨hne, rfl⟩⟩ := mem_updateStateById hjob
    · simpa [SyncJob.isActive, hset] using hstate
    · exact hactive job hmem (by assumption)
  · obtain ⟨hlt, hnot, hactive⟩ := hs.taken c id (htaken c id htaken')
    refine ⟨hlt, hnot, ?_⟩
    intro job hjob
    exact hactive job (List.mem_filter.mp hjob).1

/-- A call comes to insert only by reading the queue. -/
theorem inserting_of_step (h : s.step a = some s') {c : ℕ} {goesOn : Bool}
    {colls : List SyncColl} (hphase : s'.phase c = .inserting goesOn colls) :
    s'.owner c = s.owner c ∧ (s.phase c = .inserting goesOn colls ∨
      a = .getAll c ∧ s'.jobs = s.jobs ∧
        s.uSyncColls (s.owner c) (s.call c).syncColls = some colls) := by
  cases moves_of_step h with
  | fail hp =>
      have hfailed := failed_cases hp
      grind
  | getAll hphase' hcolls =>
      have hjobs : ∀ p, (s.goTo c p).jobs = s.jobs := fun _ => rfl
      grind
  | _ => grind [storing_cases, afterAdd]

theorem JobInv.inserting_step (hs : s.JobInv) (ha : s.isOrderly a = true)
    (h : s.step a = some s') {c : ℕ} {goesOn : Bool} {colls : List SyncColl}
    (hphase : s'.phase c = .inserting goesOn colls) :
    colls.Nodup ∧ ∀ job ∈ s'.jobs, job.isActive = true → job.owner = s'.owner c →
      job.collName ∉ colls := by
  obtain ⟨howner, hold | ⟨rfl, hjobs, hcolls⟩⟩ := inserting_of_step h hphase
  · obtain ⟨hnodup, hnew⟩ := hs.inserting c goesOn colls hold
    refine ⟨hnodup, ?_⟩
    rw [howner]
    rcases tableMoves_of_step h with ⟨hjobs⟩ | ⟨d, goesOn', colls', hd, hd', hjobs⟩ |
      ⟨d, id, state, htaken, hjobs⟩ | ⟨ids, hjobs⟩ <;> rw [hjobs]
    · exact hnew
    · intro job hjob hactive hsame
      rcases List.mem_append.mp hjob with hmem | hadded
      · exact hnew job hmem hactive hsame
      · -- the other call would be of the same owner
        have hother := (mem_newJobs hadded).1.symm.trans hsame
        obtain rfl := hs.oneInserting d c (by rw [hd]; rfl) (by rw [hold]; rfl) hother
        rw [hphase] at hd'
        cases goesOn' <;> exact absurd hd' (by simp [afterAdd])
    · intro job hjob hactive hsame
      obtain ⟨old, hmem, _, hname, hown, hcase⟩ := mem_updateStateById hjob
      rw [hname]
      apply hnew old hmem _ (hown.symm.trans hsame)
      rcases hcase with ⟨hid, _⟩ | ⟨_, rfl⟩
      · exact (hs.taken d id htaken).2.2 old hmem hid
      · exact hactive
    · intro job hjob
      exact hnew job (List.mem_filter.mp hjob).1
  · have hlist := (of_decide_eq_true ha).2
    obtain ⟨hnodup, hnew⟩ := uSyncColls_spec hlist hcolls
    rw [howner, hjobs]
    exact ⟨hnodup, hnew⟩

theorem JobInv.oneInserting_step (hs : s.JobInv) (hl : s.LoopInv) (ha : s.isOrderly a = true)
    (h : s.step a = some s') {c c' : ℕ} (hc : (s'.phase c).isInserting = true)
    (hc' : (s'.phase c').isInserting = true) (howner : s'.owner c = s'.owner c') : c = c' := by
  have hform : ∀ {c : ℕ}, (s'.phase c).isInserting = true →
      s'.owner c = s.owner c ∧ ((s.phase c).isInserting = true ∨ a = .getAll c) := by
    intro c hc
    obtain ⟨goesOn, colls, hphase⟩ := SyncPhase.exists_of_isInserting hc
    obtain ⟨hown, hold | ⟨hget, _⟩⟩ := inserting_of_step h hphase
    · exact ⟨hown, .inl (by rw [hold]; rfl)⟩
    · exact ⟨hown, .inr hget⟩
  have hnew : ∀ c c', a = .getAll c → (s.phase c').isInserting = true →
      s.owner c' ≠ s.owner c := by
    rintro c c' rfl hins
    apply (of_decide_eq_true ha).1 c' _ hins
    by_contra hle
    rw [hl.uncalled c' (Nat.le_of_not_lt hle)] at hins
    exact absurd hins (by decide)
  obtain ⟨hown, hold | hget⟩ := hform hc
  · obtain ⟨hown', hold' | hget'⟩ := hform hc'
    · exact hs.oneInserting c c' hold hold' (hown.symm.trans (howner.trans hown'))
    · exact absurd (hown.symm.trans (howner.trans hown')) (hnew c' c hget' hold)
  · obtain ⟨hown', hold' | hget'⟩ := hform hc'
    · exact absurd (hown.symm.trans (howner.trans hown')).symm (hnew c c' hget hold')
    · rw [hget] at hget'
      injection hget'

theorem JobInv.step (hs : s.JobInv) (hl : s.LoopInv) (ha : s.isOrderly a = true)
    (h : s.step a = some s') : s'.JobInv where
  unique := hs.unique_step h
  ids := (hs.ids_step h).1
  bounded := (hs.ids_step h).2
  taken _ _ htaken := hs.taken_step hl h htaken
  finished := hs.finished_step h
  inserting _ _ _ hphase := hs.inserting_step ha h hphase
  oneInserting _ _ hc hc' howner := hs.oneInserting_step hl ha h hc hc' howner

theorem inv_of_reachable (hs : machine.Reachable (isOrderly · ·) s) :
    s.LoopInv ∧ s.JobInv := by
  apply hs.invariant (I := fun s => s.LoopInv ∧ s.JobInv)
  · rintro s ⟨hunique, hids, hbounded, hdone, hfinished⟩
    constructor
    · refine ⟨?_, ?_, fun c _ => hdone c⟩ <;> simp [hdone, SyncPhase.claims, SyncPhase.isBefore,
        SyncPhase.isHolding]
    · refine ⟨hunique, hids, hbounded, ?_, ?_, ?_, ?_⟩ <;>
        simp [taken, hdone, hfinished, SyncPhase.isInserting]
  · rintro s a s' ⟨hl, hj⟩ ha h
    exact ⟨hl.step ha h, hj.step hl ha h⟩

/-- Over every orderly interleaving of any calls, at any moment: at most one `process`
loop runs; a job is in the hands of one loop at most, and none is finished by two
loops or twice; and no two jobs that are not finished have one collection name and
owner. -/
theorem sync_exclusive (hs : machine.Reachable (isOrderly · ·) s) :
    (∀ c c', (s.phase c).isLooping = true → (s.phase c').isLooping = true → c = c') ∧
      (∀ c c' id, s.taken c id → s.taken c' id → c = c') ∧
      (s.finishedBy.map Prod.fst).Nodup ∧
      (∀ c id, s.taken c id → id ∉ s.finishedBy.map Prod.fst) ∧ UniqueJobs s.jobs := by
  obtain ⟨hl, hj⟩ := inv_of_reachable hs
  refine ⟨?_, ?_, hj.finished.1, ?_, hj.unique⟩
  · intro c c' hc hc'
    exact hl.one c c' (claims_of_isHolding (SyncPhase.claims_of_isLooping hc))
      (claims_of_isHolding (SyncPhase.claims_of_isLooping hc'))
  · intro c c' id hc hc'
    exact hl.taken_eq hc hc'
  · intro c id hc
    exact (hj.taken c id hc).2.1

namespace TwoLoopsWitness

def start : SyncSys where
  jobs := []
  nextId := 1
  progress := .value 100
  isEnable := true
  signedInUserIds := [7, 8]
  hasInterrupted := false
  isFirstSync := true
  call _ := ⟨true, .scheduler, [], .done⟩
  nextCall := 0
  finishedBy := []

theorem init_start : machine.init start :=
  ⟨.nil, .nil, by simp [start], fun _ => rfl, rfl⟩

/-- Two users start at once, and the second loop takes the job out of the hands of the
first. -/
def overlapping : List SyncAction :=
  [.start (.user 7) [.all], .start (.user 7) [.all],
    .isSchedulerEnabled 0, .isSchedulerEnabled 1, .getProgress 0, .getProgress 1,
    .getAll 0, .getAll 1, .insertElemsToDb 0, .insertElemsToDb 1, .pingApi 0, .pingApi 1,
    .setProgress 0 (.value 0) true, .setProgress 1 (.value 0) true,
    .redirectRequestsToApi 0, .redirectRequestsToApi 1,
    .getNext 0, .getNext 1, .lock 0, .lock 1]

def overlapped : SyncSys :=
  (machine.run Machine.free start overlapping).get (by decide)

/-- One call of a user without jobs, for a list that names a collection twice. -/
def repeated : SyncSys :=
  (machine.run Machine.free start
    [.add (.user 7) [.coll "ledgers", .coll "ledgers"], .getAll 0, .insertElemsToDb 0]).get
      (by decide)

theorem two_loops_on_one_job :
    machine.Reachable Machine.free overlapped ∧
      overlapped.phase 0 = .processing 1 1 ∧ overlapped.phase 1 = .processing 1 1 ∧
      overlapped.jobs = [⟨1, .all, .user 7, .locked⟩, ⟨2, .all, .user 7, .new⟩] ∧
      machine.Reachable Machine.free repeated ∧ ¬ UniqueJobs repeated.jobs := by
  have hstart : machine.Reachable Machine.free start := .init init_start
  refine ⟨hstart.run (Option.some_get _).symm, by decide, by decide, by decide,
    hstart.run (Option.some_get _).symm, ?_⟩
  intro hunique
  have hjobs : repeated.jobs = [⟨1, .coll "ledgers", .user 7, .new⟩,
      ⟨2, .coll "ledgers", .user 7, .new⟩] := by decide
  rw [hjobs] at hunique
  exact (List.pairwise_cons.mp hunique).1 _ (.head _) rfl rfl ⟨rfl, rfl⟩

/-- The second user asks while the loop of the first runs, the first again while the
second adds; the loop takes the jobs one after the other, and one of them fails. -/
def orderly : List SyncAction :=
  [.start (.user 7) [.coll "ledgers", .coll "trades"], .isSchedulerEnabled 0, .getProgress 0,
    .getAll 0, .insertElemsToDb 0, .pingApi 0, .setProgress 0 (.value 0) true,
    .start (.user 8) [.all], .isSchedulerEnabled 1, .redirectRequestsToApi 0, .getProgress 1,
    .getNext 0, .lock 0, .getAll 1, .add (.user 7) [.coll "trades", .coll "orders"], .getAll 2,
    .insertElemsToDb 2, .insertElemsToDb 1, .setProgress 0 (.value 50) true, .subProcess 0,
    .settle 0, .getNext 0, .lock 0, .fail 0, .setProgress 0 .error true, .finish 0,
    .start (.user 8) [.all], .isSchedulerEnabled 3, .getProgress 3, .getAll 3, .pingApi 3,
    .setProgress 3 (.value 0) true, .redirectRequestsToApi 3, .getNext 3, .lock 3]

def served : SyncSys :=
  (machine.run (isOrderly · ·) start orderly).get (by decide)

theorem reachable_served : machine.Reachable (isOrderly · ·) served :=
  (Machine.Reachable.init init_start).run (Option.some_get _).symm

theorem sync_exclusive_of_served :
    (served.phase 3 = .processing 1 4 ∧ served.finishedBy = [(1, 0)] ∧
      served.jobs = [⟨1, .coll "ledgers", .user 7, .finished⟩,
        ⟨2, .coll "trades", .user 7, .error⟩, ⟨3, .coll "orders", .user 7, .new⟩,
        ⟨4, .all, .user 8, .locked⟩]) ∧
    (∀ c c', (served.phase c).isLooping = true → (served.phase c').isLooping = true → c = c') ∧
      (∀ c c' id, served.taken c id → served.taken c' id → c = c') ∧
      (served.finishedBy.map Prod.fst).Nodup ∧
      (∀ c id, served.taken c id → id ∉ served.finishedBy.map Prod.fst) ∧
      UniqueJobs served.jobs :=
  ⟨by decide, sync_exclusive reachable_served⟩

end TwoLoopsWitness

end SyncSys

end ReportsFramework
