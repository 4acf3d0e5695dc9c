/-
In a steady run of `SyncQueue.process` the reported progress climbs.
-/
import Mathlib.Tactic.Linarith
import ReportsFramework.SyncWeights

namespace ReportsFramework

namespace SyncProcess

variable {schema : SyncSchema} {owner : SyncOwner} {s : SyncProcess} {job : SyncJob}

section Inv

variable (schema : SyncSchema) (owner : SyncOwner)

/-- No report is above the number. -/
def Below (s : SyncProcess) (x : ℚ) : Prop :=
  ∀ report ∈ s.reports, report.progress ≤ mathRound x

/-- The run is in its loop, with the multiplier not above the part of the finished jobs and
what was gained since. -/
structure InLoop (s : SyncProcess) (gained : ℚ) : Prop where
  nodup : (s.prevSyncs.map SyncJob.id).Nodup
  finished : ∀ job ∈ s.prevSyncs, { job with state := .finished } ∈ s.jobs
  multiplier_nonneg : 0 ≤ s.multiplier
  multiplier_le : s.multiplier * wholeWeight schema owner s ≤
    doneWeight schema owner s + gained

/-- A job is processed whose last progress was `progress`. -/
structure Processing (s : SyncProcess) (job : SyncJob) (currMultiplier : ℚ)
    (events : List DataProgress) (progress : ℤ) : Prop where
  inLoop : InLoop schema owner s 0
  locked : { job with state := .locked } ∈ s.jobs
  curr_nonneg : 0 ≤ currMultiplier
  curr_le : currMultiplier * wholeWeight schema owner s ≤ countedWeight schema owner job
  curr_eq : currMultiplier = 0 ∨ currMultiplier = s.getMultiplier schema owner job.id
  nonneg : 0 ≤ progress
  le_full : progress ≤ 100
  climbs : Climbs progress 100 (DataInserter.values events)
  below : Below s (s.multiplier * 100 + progress * currMultiplier)

def NoneLeft (s : SyncProcess) : Prop :=
  ∀ job ∈ s.jobs, isLeft owner job = false

def PhaseInv (s : SyncProcess) : Prop :=
  match s.phase with
  | .looping _ => InLoop schema owner s 0 ∧ Below s (s.multiplier * 100)
  | .locking _ job => InLoop schema owner s 0 ∧ Below s (s.multiplier * 100) ∧
      job ∈ s.jobs ∧ job.isActive = true
  | .processing _ job currMultiplier events =>
      ∃ progress, Processing schema owner s job currMultiplier events progress
  | .settling _ job => InLoop schema owner s (countedWeight schema owner job) ∧
      Below s (s.multiplier * 100) ∧ { job with state := .locked } ∈ s.jobs
  | .removing => s.hasInterrupted = true ∨ NoneLeft owner s
  | .settingEnd => NoneLeft owner s
  | .done => True

structure Inv (s : SyncProcess) : Prop where
  ids : (s.jobs.map SyncJob.id).Nodup
  ids_lt : ∀ job ∈ s.jobs, job.id < s.nextId
  climbing : Climbing owner s
  phase : PhaseInv schema owner s

end Inv

section Steps

variable {s' : SyncProcess} {gained : ℚ}

theorem Climbing.of_eq (h : Climbing owner s) (hreports : s'.reports = s.reports) :
    Climbing owner s' := by
  constructor
  · rw [hreports]
    exact h.sorted
  · rw [hreports]
    exact h.nonneg
  · rw [hreports]
    exact h.le_full
  · rw [hreports]
    exact h.full

theorem InLoop.of_eq (h : InLoop schema owner s gained) (hsub : ∀ job ∈ s.jobs, job ∈ s'.jobs)
    (hprev : s'.prevSyncs = s.prevSyncs) (hmultiplier : s'.multiplier = s.multiplier)
    (hwaiting : s'.waiting owner = s.waiting owner) : InLoop schema owner s' gained := by
  constructor
  · rw [hprev]
    exact h.nodup
  · rw [hprev]
    intro job hjob
    exact hsub _ (h.finished job hjob)
  · rw [hmultiplier]
    exact h.multiplier_nonneg
  · rw [hmultiplier, wholeWeight_of_eq hprev hwaiting, doneWeight, hprev]
    exact h.multiplier_le

/-- As long as no part has been given the whole may grow. -/
theorem InLoop.of_zero (h : InLoop schema owner s gained) (hgained : 0 ≤ gained)
    (hsub : ∀ job ∈ s.jobs, job ∈ s'.jobs) (hprev : s'.prevSyncs = s.prevSyncs)
    (hmultiplier : s'.multiplier = 0) : InLoop schema owner s' gained := by
  constructor
  · rw [hprev]
    exact h.nodup
  · rw [hprev]
    intro job hjob
    exact hsub _ (h.finished job hjob)
  · rw [hmultiplier]
  · rw [hmultiplier, zero_mul]
    exact add_nonneg doneWeight_nonneg hgained

variable {jobOwner : SyncOwner} {syncColls : List SyncColl}

theorem mem_insertElemsToDb (hjob : job ∈ s.jobs) :
    job ∈ (s.insertElemsToDb jobOwner syncColls).jobs :=
  List.mem_append_left _ hjob

theorem waiting_insertElemsToDb (h : owner.counts jobOwner = false) :
    (s.insertElemsToDb jobOwner syncColls).waiting owner = s.waiting owner := by
  have hnone : (SyncSys.newJobs jobOwner s.nextId syncColls).filter
      (fun job => job.isActive && owner.counts job.owner) = [] := by
    apply List.filter_eq_nil_iff.mpr
    intro job hjob
    rw [(SyncSys.mem_newJobs hjob).1, h]
    simp
  unfold waiting insertElemsToDb
  rw [List.filter_append, hnone, List.append_nil]

theorem InLoop.insertElemsToDb (h : InLoop schema owner s gained) (hgained : 0 ≤ gained)
    (hzero : owner.counts jobOwner = true → s.multiplier = 0) :
    InLoop schema owner (s.insertElemsToDb jobOwner syncColls) gained := by
  cases hcounts : owner.counts jobOwner with
  | true => exact h.of_zero hgained (fun _ => mem_insertElemsToDb) rfl (hzero hcounts)
  | false =>
      exact h.of_eq (fun _ => mem_insertElemsToDb) rfl rfl (waiting_insertElemsToDb hcounts)

theorem Processing.insertElemsToDb {currMultiplier : ℚ} {events : List DataProgress}
    {progress : ℤ} (h : Processing schema owner s job currMultiplier events progress)
    (hzero : owner.counts jobOwner = true → s.multiplier = 0 ∧ currMultiplier = 0) :
    Processing schema owner (s.insertElemsToDb jobOwner syncColls) job currMultiplier events
      progress where
  inLoop := h.inLoop.insertElemsToDb le_rfl fun hcounts => (hzero hcounts).1
  locked := mem_insertElemsToDb h.locked
  curr_nonneg := h.curr_nonneg
  curr_le := by
    cases hcounts : owner.counts jobOwner with
    | true =>
        rw [(hzero hcounts).2, zero_mul]
        exact countedWeight_nonneg job
    | false =>
        have hwhole : wholeWeight schema owner (s.insertElemsToDb jobOwner syncColls) =
            wholeWeight schema owner s := wholeWeight_of_eq rfl (waiting_insertElemsToDb hcounts)
        rw [hwhole]
        exact h.curr_le
  curr_eq := by
    cases hcounts : owner.counts jobOwner with
    | true => exact .inl (hzero hcounts).2
    | false =>
        have hsame : (s.insertElemsToDb jobOwner syncColls).getMultiplier schema owner job.id =
            s.getMultiplier schema owner job.id := by
          apply getMultiplier_of_eq
          · rfl
          · exact waiting_insertElemsToDb hcounts
        rw [hsame]
        exact h.curr_eq
  nonneg := h.nonneg
  le_full := h.le_full
  climbs := h.climbs
  below := h.below

theorem NoneLeft.insertElemsToDb (h : NoneLeft owner s) (htakes : owner.takes jobOwner = false) :
    NoneLeft owner (s.insertElemsToDb jobOwner syncColls) := by
  intro job hjob
  rcases List.mem_append.mp hjob with hjob | hjob
  · exact h job hjob
  · simp [isLeft, (SyncSys.mem_newJobs hjob).1, htakes]

theorem Inv.insertElemsToDb (h : Inv schema owner s)
    (hsteady : isSteady schema owner s (.add jobOwner syncColls)) :
    Inv schema owner (s.insertElemsToDb jobOwner syncColls) := by
  obtain ⟨hcounts, htakes⟩ := hsteady
  constructor
  · unfold SyncProcess.insertElemsToDb
    rw [List.map_append]
    apply List.Nodup.append h.ids
    · exact List.pairwise_map.mpr (SyncSys.ids_newJobs jobOwner s.nextId syncColls)
    · rintro id hid hid'
      obtain ⟨job, hjob, rfl⟩ := List.mem_map.mp hid
      obtain ⟨job', hjob', heq⟩ := List.mem_map.mp hid'
      have hlt := h.ids_lt job hjob
      have hle := (SyncSys.mem_newJobs hjob').2.2.2.1
      omega
  · intro job hjob
    simp only [SyncProcess.insertElemsToDb]
    rcases List.mem_append.mp hjob with hjob | hjob
    · have hlt := h.ids_lt job hjob
      omega
    · exact (SyncSys.mem_newJobs hjob).2.2.2.2
  · exact h.climbing.of_eq rfl
  · have hphase := h.phase
    have hsame : (s.insertElemsToDb jobOwner syncColls).phase = s.phase := rfl
    unfold PhaseInv at hphase ⊢
    rw [hsame]
    unfold hasCounted isEnding at *
    cases hp : s.phase with
    | looping count =>
        simp only [hp] at hphase hcounts
        exact ⟨hphase.1.insertElemsToDb le_rfl (by simpa using hcounts), hphase.2⟩
    | locking count job =>
        simp only [hp] at hphase hcounts
        obtain ⟨hloop, hbelow, hjob, hactive⟩ := hphase
        exact ⟨hloop.insertElemsToDb le_rfl (by simpa using hcounts), hbelow,
          mem_insertElemsToDb hjob, hactive⟩
    | processing count job currMultiplier events =>
        simp only [hp] at hphase hcounts
        obtain ⟨progress, hprocessing⟩ := hphase
        exact ⟨progress, hprocessing.insertElemsToDb (by simpa using hcounts)⟩
    | settling count job =>
        simp only [hp] at hphase hcounts
        obtain ⟨hloop, hbelow, hjob⟩ := hphase
        exact ⟨hloop.insertElemsToDb (countedWeight_nonneg job) (by simpa using hcounts), hbelow,
          mem_insertElemsToDb hjob⟩
    | removing =>
        simp only [hp] at hphase htakes
        rcases hphase with hinterrupted | hnone
        · exact .inl hinterrupted
        · cases hinterrupted : s.hasInterrupted with
          | true => exact .inl hinterrupted
          | false =>
              right
              apply hnone.insertElemsToDb
              simpa [hinterrupted] using htakes
    | settingEnd =>
        simp only [hp] at hphase htakes
        exact hphase.insertElemsToDb (by simpa using htakes)
    | done => trivial

end Steps

section Loop

variable {s' : SyncProcess} {gained : ℚ} {state : JobState}

/-- A job that is not finished is none of those that the run has finished. -/
theorem InLoop.id_ne (h : InLoop schema owner s gained) (hids : (s.jobs.map SyncJob.id).Nodup)
    (hjob : job ∈ s.jobs) (hactive : job.isActive = true) {prev : SyncJob}
    (hprev : prev ∈ s.prevSyncs) : prev.id ≠ job.id := by
  intro heq
  have hsame := eq_of_id_eq hids (h.finished prev hprev) hjob heq
  rw [← hsame] at hactive
  simp [SyncJob.isActive] at hactive

theorem noneLeft_of_nextSync (hnone : s.nextSync owner = none)
    (hlocked : ∀ job ∈ s.jobs, owner.takes job.owner = true → job.state ≠ .locked) :
    NoneLeft owner s := by
  intro job hjob
  by_contra hleft
  simp only [isLeft, SyncJob.isActive, Bool.not_eq_false, Bool.and_eq_true,
    decide_eq_true_eq] at hleft
  have hnot := List.find?_eq_none.mp hnone job hjob
  have hne := hlocked job hjob hleft.2
  cases hstate : job.state with
  | new => simp [hstate, hleft.2] at hnot
  | locked => exact hne hstate
  | finished => exact hleft.1 hstate
  | error => simp [hstate, hleft.2] at hnot

theorem of_nextSync (h : s.nextSync owner = some job) :
    job ∈ s.jobs ∧ job.isActive = true := by
  refine ⟨List.mem_of_find?_eq_some h, ?_⟩
  have htaken := List.find?_some h
  unfold SyncJob.isActive
  cases hstate : job.state with
  | finished => simp [hstate] at htaken
  | _ => simp

/-- Locking its next job leaves a loop what it is. -/
theorem InLoop.lock (h : InLoop schema owner s gained) (hids : (s.jobs.map SyncJob.id).Nodup)
    (hjob : job ∈ s.jobs) (hactive : job.isActive = true)
    (hjobs : s'.jobs = setState s.jobs job.id .locked) (hprev : s'.prevSyncs = s.prevSyncs)
    (hmultiplier : s'.multiplier = s.multiplier) : InLoop schema owner s' gained := by
  have hwaiting : waitingWeight schema owner s' = waitingWeight schema owner s := by
    have hsum := @waitingWeight_of_setState schema owner s job s' .locked hids hjob hjobs
    simp only [hactive, if_true, ne_eq, reduceCtorEq, not_false_eq_true] at hsum
    linarith
  constructor
  · rw [hprev]
    exact h.nodup
  · rw [hprev, hjobs]
    intro prev hmem
    have hne : prev.id ≠ job.id := h.id_ne hids hjob hactive hmem
    exact mem_setState_of_ne (h.finished prev hmem) hne
  · rw [hmultiplier]
    exact h.multiplier_nonneg
  · rw [hmultiplier, wholeWeight, hwaiting, doneWeight, hprev]
    exact h.multiplier_le

/-- What was gained by the processed job becomes its part once it is finished. -/
theorem InLoop.settle (h : InLoop schema owner s (countedWeight schema owner job))
    (hids : (s.jobs.map SyncJob.id).Nodup) (hjob : { job with state := .locked } ∈ s.jobs)
    (hjobs : s'.jobs = setState s.jobs job.id .finished)
    (hprev : s'.prevSyncs = s.prevSyncs ++ [job])
    (hmultiplier : s'.multiplier = s.multiplier) : InLoop schema owner s' 0 := by
  have hne : ∀ prev ∈ s.prevSyncs, prev.id ≠ job.id := fun prev hmem =>
    h.id_ne hids hjob rfl hmem
  have hwaiting : waitingWeight schema owner s' + countedWeight schema owner job =
      waitingWeight schema owner s := by
    have hsum := @waitingWeight_of_setState schema owner s _ s' .finished hids hjob hjobs
    simpa [SyncJob.isActive, countedWeight, weight] using hsum
  have hdone : doneWeight schema owner s' =
      doneWeight schema owner s + countedWeight schema owner job := by
    unfold doneWeight countedWeight
    rw [hprev, List.filter_append, List.map_append, List.sum_append]
    by_cases hcounts : owner.counts job.owner = true
    · simp [hcounts]
    · simp [hcounts]
  constructor
  · rw [hprev, List.map_append]
    apply List.Nodup.append h.nodup
    · simp
    · intro id hid hid'
      obtain ⟨prev, hmem, rfl⟩ := List.mem_map.mp hid
      exact hne prev hmem (by simpa using hid')
  · rw [hprev, hjobs]
    intro prev hmem
    rcases List.mem_append.mp hmem with hmem | hmem
    · exact mem_setState_of_ne (h.finished prev hmem) (hne prev hmem)
    · obtain rfl := List.mem_singleton.mp hmem
      have hset := @mem_setState_self s.jobs _ .finished hjob
      exact hset
  · rw [hmultiplier]
    exact h.multiplier_nonneg
  · have hle := h.multiplier_le
    unfold wholeWeight at hle ⊢
    rw [hmultiplier, hdone, ← hwaiting] at *
    linarith

/-- The jobs that the multipliers are taken from have ids of their own. -/
theorem InLoop.nodup_allSyncs (h : InLoop schema owner s gained)
    (hids : (s.jobs.map SyncJob.id).Nodup) :
    ((s.prevSyncs ++ s.futureSyncs owner).map SyncJob.id).Nodup := by
  have hsub : (s.futureSyncs owner).Sublist s.jobs :=
    (List.take_sublist 10 _).trans List.filter_sublist
  rw [List.map_append]
  apply List.Nodup.append h.nodup
  · exact hids.sublist (hsub.map SyncJob.id)
  · intro id hid hid'
    obtain ⟨prev, hprev, rfl⟩ := List.mem_map.mp hid
    obtain ⟨job, hjob, heq⟩ := List.mem_map.mp hid'
    have hactive : job.isActive = true := by
      have hmem := (List.mem_filter.mp (List.mem_of_mem_take hjob)).2
      exact (Bool.and_eq_true_iff.mp hmem).1
    exact h.id_ne hids (hsub.subset hjob) hactive hprev heq.symm

/-- A job of an owner who does not count has no part. -/
theorem InLoop.getMultiplier_eq_zero (h : InLoop schema owner s gained)
    (hids : (s.jobs.map SyncJob.id).Nodup) (hjob : { job with state := .locked } ∈ s.jobs)
    (hcounts : ¬ owner.counts job.owner = true) : s.getMultiplier schema owner job.id = 0 := by
  apply getMultiplier_of_not_mem (h.nodup_allSyncs hids)
  intro other hother heq
  rcases List.mem_append.mp hother with hother | hother
  · exact h.id_ne hids hjob rfl hother heq
  · obtain ⟨hmem, hcounted⟩ := List.mem_filter.mp (List.mem_of_mem_take hother)
    have hsame := eq_of_id_eq hids hmem hjob heq
    rw [hsame] at hcounted
    exact hcounts (Bool.and_eq_true_iff.mp hcounted).2

/-- The part that a processed job is given is not above its weight in the whole. -/
theorem InLoop.getMultiplier_mem (h : InLoop schema owner s gained)
    (hids : (s.jobs.map SyncJob.id).Nodup) (hjob : { job with state := .locked } ∈ s.jobs)
    (hten : owner.counts job.owner = true → (s.waiting owner).length ≤ 10) :
    0 ≤ s.getMultiplier schema owner job.id ∧
      s.getMultiplier schema owner job.id * wholeWeight schema owner s ≤
        countedWeight schema owner job := by
  have hall := h.nodup_allSyncs hids
  by_cases hcounts : owner.counts job.owner = true
  · have hfuture : s.futureSyncs owner = s.waiting owner :=
      List.take_of_length_le (hten hcounts)
    have hmem : { job with state := .locked } ∈ s.prevSyncs ++ s.futureSyncs owner := by
      apply List.mem_append_right
      rw [hfuture]
      apply List.mem_filter.mpr
      exact ⟨hjob, by simpa [SyncJob.isActive] using hcounts⟩
    have hpart : s.getMultiplier schema owner job.id =
        weight schema job / ((s.prevSyncs ++ s.futureSyncs owner).map (weight schema)).sum :=
      @getMultiplier_of_mem schema owner s { job with state := .locked } hall hmem
    have hwhole : wholeWeight schema owner s ≤
        ((s.prevSyncs ++ s.futureSyncs owner).map (weight schema)).sum := by
      have hle := @sum_filter_le schema s.prevSyncs fun job => owner.counts job.owner
      rw [hfuture, List.map_append, List.sum_append]
      unfold wholeWeight doneWeight waitingWeight
      linarith
    have hweight := @weight_nonneg schema job
    have hsum : 0 ≤ ((s.prevSyncs ++ s.futureSyncs owner).map (weight schema)).sum :=
      sum_weight_nonneg _
    rw [hpart, countedWeight, if_pos hcounts]
    refine ⟨div_nonneg hweight hsum, ?_⟩
    calc weight schema job / ((s.prevSyncs ++ s.futureSyncs owner).map (weight schema)).sum *
          wholeWeight schema owner s
        ≤ weight schema job / ((s.prevSyncs ++ s.futureSyncs owner).map (weight schema)).sum *
          ((s.prevSyncs ++ s.futureSyncs owner).map (weight schema)).sum := by gcongr
      _ ≤ weight schema job := div_mul_le_self hweight hsum
  · rw [h.getMultiplier_eq_zero hids hjob hcounts, zero_mul]
    exact ⟨le_rfl, countedWeight_nonneg job⟩

end Loop

section Preserve

variable {s' : SyncProcess} {count : ℕ} {currMultiplier : ℚ} {events : List DataProgress}
  {event : DataProgress} {progress : ℤ}

/-- One more report, not below those before. -/
theorem Climbing.setProgress (h : Climbing owner s)
    (hle : ∀ report ∈ s.reports, report.progress ≤ progress) (hlow : 0 ≤ progress)
    (hhigh : progress ≤ 100) (hfull : progress = 100 → NoneLeft owner s) :
    Climbing owner (s.setProgress progress) := by
  have hmem : ∀ report ∈ (s.setProgress progress).reports,
      report ∈ s.reports ∨ report = ⟨progress, s.jobs⟩ := by
    intro report hreport
    simpa [SyncProcess.setProgress] using hreport
  constructor
  · apply List.pairwise_append.mpr
    refine ⟨h.sorted, by simp, ?_⟩
    intro report hreport last hlast
    obtain rfl := List.mem_singleton.mp hlast
    exact hle report hreport
  · intro report hreport
    rcases hmem report hreport with hreport | rfl
    · exact h.nonneg report hreport
    · exact hlow
  · intro report hreport
    rcases hmem report hreport with hreport | rfl
    · exact h.le_full report hreport
    · exact hhigh
  · intro report hreport
    rcases hmem report hreport with hreport | rfl
    · exact h.full report hreport
    · exact hfull

/-- More than half a per cent of the whole is left: the progress is not rounded up to 100. -/
theorem mathRound_lt_full (hloop : InLoop schema owner s 0)
    (hcurr : currMultiplier * wholeWeight schema owner s ≤ weight schema job)
    (hlow : 0 ≤ progress)
    (hleft : wholeWeight schema owner s <
      2 * (100 * waitingWeight schema owner s - progress * weight schema job)) :
    mathRound (s.multiplier * 100 + progress * currMultiplier) < 100 := by
  have hwhole := @wholeWeight_nonneg schema owner s
  have hmultiplier := hloop.multiplier_le
  have hprogress : (0 : ℚ) ≤ progress := by exact_mod_cast hlow
  have hscaled : (s.multiplier * 100 + progress * currMultiplier) * wholeWeight schema owner s <
      (100 - 1 / 2) * wholeWeight schema owner s := by
    have hpart := mul_le_mul_of_nonneg_left hcurr hprogress
    have hsum : wholeWeight schema owner s =
      doneWeight schema owner s + waitingWeight schema owner s := rfl
    linarith
  apply mathRound_lt (n := 100)
  exact_mod_cast lt_of_mul_lt_mul_right hscaled hwhole

/-- One call of the handler, before anything is reported. -/
theorem Processing.next
    (h : Processing schema owner s job currMultiplier (event :: events) progress)
    (hids : (s.jobs.map SyncJob.id).Nodup)
    (hten : owner.counts job.owner = true → (s.waiting owner).length ≤ 10) {progress' : ℤ}
    (hprogress : progress' = event.value?.getD progress) :
    Processing schema owner
      (s.goTo (.processing count job (s.getMultiplier schema owner job.id) events)) job
      (s.getMultiplier schema owner job.id) events progress' := by
  obtain ⟨hnonneg, hle⟩ := h.inLoop.getMultiplier_mem hids h.locked hten
  have hclimbs : progress ≤ progress' ∧ progress' ≤ 100 ∧
      Climbs progress' 100 (DataInserter.values events) := by
    have hall := h.climbs
    cases event with
    | unauth =>
        subst hprogress
        exact ⟨le_rfl, h.le_full, hall⟩
    | value p =>
        subst hprogress
        obtain ⟨hfirst, hrest⟩ := List.pairwise_cons.mp hall.sorted
        refine ⟨hall.low_le progress' List.mem_cons_self,
          hall.le_high progress' List.mem_cons_self, hrest, hfirst, ?_⟩
        intro x hx
        exact hall.le_high x (List.mem_cons_of_mem progress' hx)
  have hlow : 0 ≤ progress' := h.nonneg.trans hclimbs.1
  have hcast : (progress : ℚ) ≤ progress' := by exact_mod_cast hclimbs.1
  have hcast' : (0 : ℚ) ≤ progress' := by exact_mod_cast hlow
  constructor
  · exact h.inLoop.of_eq (fun _ => id) rfl rfl rfl
  · exact h.locked
  · exact hnonneg
  · exact hle
  · exact .inr rfl
  · exact hlow
  · exact hclimbs.2.1
  · exact hclimbs.2.2
  · intro report hreport
    apply (h.below report hreport).trans
    apply mathRound_mono
    have hpart : progress * currMultiplier ≤ progress' * s.getMultiplier schema owner job.id := by
      rcases h.curr_eq with hzero | hsame
      · rw [hzero, mul_zero]
        exact mul_nonneg hcast' hnonneg
      · rw [hsame]
        exact mul_le_mul_of_nonneg_right hcast hnonneg
    simpa [goTo] using hpart

theorem Processing.of_eq (h : Processing schema owner s job currMultiplier events progress)
    (hjobs : s'.jobs = s.jobs) (hprev : s'.prevSyncs = s.prevSyncs)
    (hmultiplier : s'.multiplier = s.multiplier)
    (hbelow : Below s' (s.multiplier * 100 + progress * currMultiplier)) :
    Processing schema owner s' job currMultiplier events progress := by
  have hwaiting : s'.waiting owner = s.waiting owner := by simp only [waiting, hjobs]
  constructor
  · exact h.inLoop.of_eq (by simp [hjobs]) hprev hmultiplier hwaiting
  · rw [hjobs]
    exact h.locked
  · exact h.curr_nonneg
  · rw [wholeWeight_of_eq hprev hwaiting]
    exact h.curr_le
  · rw [getMultiplier_of_eq hprev hwaiting]
    exact h.curr_eq
  · exact h.nonneg
  · exact h.le_full
  · exact h.climbs
  · rw [hmultiplier]
    exact hbelow

/-- A reported progress is none of those before, and 100 is not reached. -/
theorem Processing.setProgress
    (h : Processing schema owner s job currMultiplier (event :: events) progress)
    (hids : (s.jobs.map SyncJob.id).Nodup)
    (hsteady : owner.counts job.owner = true →
      (s.waiting owner).length ≤ 10 ∧ ∀ p ∈ event.value?, p ≠ 0 → p < 100 →
        wholeWeight schema owner s <
          2 * (100 * waitingWeight schema owner s - p * weight schema job))
    {reported : ℤ}
    (hreported : asyncProgress (s.getMultiplier schema owner job.id) s.multiplier event =
      some reported) :
    ∃ progress', event.value? = some progress' ∧
      reported = mathRound (s.multiplier * 100 +
        progress' * s.getMultiplier schema owner job.id) ∧ 0 ≤ reported ∧ reported < 100 := by
  obtain ⟨hnonneg, hle⟩ := h.inLoop.getMultiplier_mem hids h.locked fun hcounts =>
    (hsteady hcounts).1
  cases event with
  | unauth => simp [asyncProgress] at hreported
  | value p =>
      simp only [asyncProgress] at hreported
      split_ifs at hreported with hzero hfull
      obtain rfl := Option.some.inj hreported
      obtain ⟨hcurr, hp⟩ := not_or.mp hzero
      have hcounts : owner.counts job.owner = true := by
        by_contra hcounts
        exact hcurr (h.inLoop.getMultiplier_eq_zero hids h.locked hcounts)
      have hlow : 0 ≤ p := h.nonneg.trans (h.climbs.low_le p List.mem_cons_self)
      have hcast : (0 : ℚ) ≤ p := by exact_mod_cast hlow
      refine ⟨p, rfl, rfl, ?_, ?_⟩
      · apply mathRound_nonneg
        have hmultiplier := h.inLoop.multiplier_nonneg
        positivity
      · rw [countedWeight, if_pos hcounts] at hle
        exact mathRound_lt_full h.inLoop hle hlow ((hsteady hcounts).2 p rfl hp hfull)

theorem Inv.next (h : Inv schema owner s)
    (hphase : s.phase = .processing count job currMultiplier (event :: events))
    (hsteady : isSteady schema owner s .progress)
    (hstep : s.step schema owner .progress = some s') : Inv schema owner s' := by
  simp only [isSteady, hphase] at hsteady
  obtain ⟨progress, hprocessing⟩ : ∃ progress,
      Processing schema owner s job currMultiplier (event :: events) progress := by
    have hinv := h.phase
    simp only [PhaseInv, hphase] at hinv
    exact hinv
  have hnext := fun progress' => @Processing.next schema owner s job count currMultiplier events
    event progress hprocessing h.ids (fun hcounts => (hsteady hcounts).1) progress'
  simp only [step, hphase] at hstep
  cases hasync : asyncProgress (s.getMultiplier schema owner job.id) s.multiplier event with
  | none =>
      rw [hasync] at hstep
      obtain rfl := Option.some.inj hstep
      exact ⟨h.ids, h.ids_lt, h.climbing.of_eq rfl, _, hnext _ rfl⟩
  | some reported =>
      rw [hasync] at hstep
      obtain rfl := Option.some.inj hstep
      obtain ⟨progress', hvalue, hreported, hlow, hlt⟩ :=
        hprocessing.setProgress h.ids hsteady hasync
      have hlater := hnext progress' (by simp [hvalue])
      have hle : ∀ report ∈ s.reports, report.progress ≤ reported := by
        rw [hreported]
        exact hlater.below
      constructor
      · exact h.ids
      · exact h.ids_lt
      · have hclimbing : Climbing owner (s.goTo (.processing count job
            (s.getMultiplier schema owner job.id) events)) := h.climbing.of_eq rfl
        apply hclimbing.setProgress hle hlow hlt.le
        omega
      · refine ⟨progress', hlater.of_eq rfl rfl rfl ?_⟩
        intro report hreport
        rcases List.mem_append.mp hreport with hreport | hreport
        · exact hlater.below report hreport
        · obtain rfl := List.mem_singleton.mp hreport
          exact hreported.le

theorem Inv.interrupt (h : Inv schema owner s)
    (hstep : s.step schema owner .interrupt = some s') : Inv schema owner s' := by
  have hs' := Option.some.inj hstep
  have hjobs : s'.jobs = s.jobs := by rw [← hs']
  have hprev : s'.prevSyncs = s.prevSyncs := by rw [← hs']
  have hmultiplier : s'.multiplier = s.multiplier := by rw [← hs']
  have hreports : s'.reports = s.reports := by rw [← hs']
  have hsame : s'.phase = s.phase := by rw [← hs']
  have hloop : ∀ gained, InLoop schema owner s gained → InLoop schema owner s' gained := by
    intro gained hloop
    apply hloop.of_eq _ hprev hmultiplier
    · simp only [waiting, hjobs]
    · simp [hjobs]
  have hinv := h.phase
  constructor
  · rw [hjobs]
    exact h.ids
  · rw [← hs']
    exact h.ids_lt
  · exact h.climbing.of_eq hreports
  · unfold PhaseInv Below at *
    rw [hsame, hjobs, hmultiplier, hreports]
    cases hphase : s.phase with
    | looping count =>
        simp only [hphase] at hinv
        exact ⟨hloop _ hinv.1, hinv.2⟩
    | locking count job =>
        simp only [hphase] at hinv
        exact ⟨hloop _ hinv.1, hinv.2⟩
    | processing count job currMultiplier events =>
        simp only [hphase] at hinv
        obtain ⟨progress, hprocessing⟩ := hinv
        refine ⟨progress, hprocessing.of_eq hjobs hprev hmultiplier ?_⟩
        rw [Below, hreports]
        exact hprocessing.below
    | settling count job =>
        simp only [hphase] at hinv
        exact ⟨hloop _ hinv.1, hinv.2⟩
    | removing =>
        left
        rw [← hs']
    | settingEnd =>
        simp only [hphase] at hinv
        rw [NoneLeft, hjobs]
        exact hinv
    | done => trivial

theorem Inv.getNext (h : Inv schema owner s) (hphase : s.phase = .looping count)
    (hsteady : isSteady schema owner s .getNext)
    (hstep : s.step schema owner .getNext = some s') : Inv schema owner s' := by
  simp only [isSteady, hphase] at hsteady
  have hinv := h.phase
  simp only [PhaseInv, hphase] at hinv
  obtain ⟨hloop, hbelow⟩ := hinv
  have hfree : ∀ phase isFirstSync, InLoop schema owner
      { s.goTo phase with isFirstSync := isFirstSync } 0 := fun _ _ =>
    hloop.of_eq (fun _ => id) rfl rfl rfl
  simp only [step, hphase] at hstep
  cases hinterrupted : s.hasInterrupted with
  | true =>
      simp only [hinterrupted, if_true] at hstep
      obtain rfl := Option.some.inj hstep
      exact ⟨h.ids, h.ids_lt, h.climbing.of_eq rfl, .inl hinterrupted⟩
  | false =>
      obtain ⟨hfew, hlocked⟩ := hsteady.resolve_left (by simp [hinterrupted])
      simp only [hinterrupted, Bool.false_eq_true, if_false] at hstep
      cases hnext : s.nextSync owner with
      | none =>
          have hnone : NoneLeft owner s := noneLeft_of_nextSync hnext (hlocked hnext)
          rw [hnext] at hstep
          obtain rfl := Option.some.inj hstep
          exact ⟨h.ids, h.ids_lt, h.climbing.of_eq rfl, .inr hnone⟩
      | some job =>
          have hcount : ¬ 10 < count + 1 := by
            intro hlt
            rw [hfew (by omega)] at hnext
            cases hnext
          have hjob := of_nextSync hnext
          simp only [hnext, if_neg hcount] at hstep
          obtain rfl := Option.some.inj hstep
          exact ⟨h.ids, h.ids_lt, h.climbing.of_eq rfl, hfree _ _, hbelow, hjob⟩

theorem Inv.lock (h : Inv schema owner s) (hphase : s.phase = .locking count job)
    {colls : JobColls} (hsteady : ¬ colls.restarts)
    (hstep : s.step schema owner (.lock colls) = some s') : Inv schema owner s' := by
  have hinv := h.phase
  simp only [PhaseInv, hphase] at hinv
  obtain ⟨hloop, hbelow, hjob, hactive⟩ := hinv
  simp only [step, hphase] at hstep
  obtain rfl := Option.some.inj hstep
  constructor
  · rw [map_id_setState]
    exact h.ids
  · intro job' hjob'
    exact lt_of_mem_setState h.ids_lt hjob'
  · exact h.climbing.of_eq rfl
  · refine ⟨0, ?_⟩
    constructor
    · exact hloop.lock h.ids hjob hactive rfl rfl rfl
    · exact mem_setState_self hjob
    · exact le_rfl
    · rw [zero_mul]
      exact countedWeight_nonneg job
    · exact .inl rfl
    · exact le_rfl
    · norm_num
    · exact DataInserter.climbs_insertNewDataToDbMultiUser hsteady
    · intro report hreport
      simpa [goTo] using hbelow report hreport

theorem Inv.subProcess (h : Inv schema owner s)
    (hphase : s.phase = .processing count job currMultiplier events)
    (hstep : s.step schema owner .subProcess = some s') : Inv schema owner s' := by
  have hinv := h.phase
  simp only [PhaseInv, hphase] at hinv
  obtain ⟨progress, hprocessing⟩ := hinv
  simp only [step, hphase] at hstep
  split_ifs at hstep
  obtain rfl := Option.some.inj hstep
  refine ⟨h.ids, h.ids_lt, h.climbing.of_eq rfl, ?_, ?_, hprocessing.locked⟩
  · constructor
    · exact hprocessing.inLoop.nodup
    · exact hprocessing.inLoop.finished
    · exact add_nonneg hprocessing.inLoop.multiplier_nonneg hprocessing.curr_nonneg
    · have hle := add_le_add hprocessing.inLoop.multiplier_le hprocessing.curr_le
      rw [add_zero, ← add_mul] at hle
      exact hle
  · intro report hreport
    apply (hprocessing.below report hreport).trans
    apply mathRound_mono
    have hcast : (progress : ℚ) ≤ 100 := by exact_mod_cast hprocessing.le_full
    have hpart := mul_le_mul_of_nonneg_right hcast hprocessing.curr_nonneg
    have hsum : (s.multiplier + currMultiplier) * 100 =
        s.multiplier * 100 + 100 * currMultiplier := by ring
    rw [hsum]
    exact add_le_add_right hpart _

theorem Inv.settle (h : Inv schema owner s) (hphase : s.phase = .settling count job)
    (hstep : s.step schema owner .settle = some s') : Inv schema owner s' := by
  have hinv := h.phase
  simp only [PhaseInv, hphase] at hinv
  obtain ⟨hloop, hbelow, hjob⟩ := hinv
  have hids : ∀ state, ((setState s.jobs job.id state).map SyncJob.id).Nodup := by
    intro state
    rw [map_id_setState]
    exact h.ids
  simp only [step, hphase] at hstep
  split_ifs at hstep with hinterrupted
  · obtain rfl := Option.some.inj hstep
    refine ⟨hids _, ?_, h.climbing.of_eq rfl, .inl hinterrupted⟩
    intro job' hjob'
    exact lt_of_mem_setState h.ids_lt hjob'
  · obtain rfl := Option.some.inj hstep
    refine ⟨hids _, ?_, h.climbing.of_eq rfl, ?_, hbelow⟩
    · intro job' hjob'
      exact lt_of_mem_setState h.ids_lt hjob'
    · exact hloop.settle h.ids hjob rfl rfl rfl

theorem Inv.removeByState (h : Inv schema owner s) {ids : List ℕ}
    (hstep : s.step schema owner (.removeByState ids) = some s') : Inv schema owner s' := by
  have hids : ((s.jobs.filter fun job => job.state ≠ .finished ∨ job.id ∉ ids).map
      SyncJob.id).Nodup := h.ids.sublist (List.filter_sublist.map SyncJob.id)
  have hlt : ∀ job ∈ s.jobs.filter (fun job => job.state ≠ .finished ∨ job.id ∉ ids),
      job.id < s.nextId := fun job hjob => h.ids_lt job (List.mem_of_mem_filter hjob)
  simp only [step] at hstep
  split_ifs at hstep with hphase hinterrupted
  · obtain rfl := Option.some.inj hstep
    exact ⟨hids, hlt, h.climbing.of_eq rfl, trivial⟩
  · obtain rfl := Option.some.inj hstep
    have hinv := h.phase
    simp only [PhaseInv, hphase] at hinv
    have hnone : NoneLeft owner s := hinv.resolve_left hinterrupted
    refine ⟨hids, hlt, h.climbing.of_eq rfl, ?_⟩
    intro job hjob
    exact hnone job (List.mem_of_mem_filter hjob)

theorem Inv.setEnd (h : Inv schema owner s)
    (hstep : s.step schema owner .setEnd = some s') : Inv schema owner s' := by
  simp only [step] at hstep
  split_ifs at hstep with hphase
  obtain rfl := Option.some.inj hstep
  have hinv := h.phase
  simp only [PhaseInv, hphase] at hinv
  have hclimbing : Climbing owner (s.goTo .done) := h.climbing.of_eq rfl
  refine ⟨h.ids, h.ids_lt, ?_, trivial⟩
  apply hclimbing.setProgress
  · exact h.climbing.le_full
  · norm_num
  · exact le_rfl
  · intro _
    exact hinv

theorem Inv.fail (h : Inv schema owner s)
    (hstep : s.step schema owner .fail = some s') : Inv schema owner s' := by
  simp only [step] at hstep
  split at hstep
  · obtain rfl := Option.some.inj hstep
    refine ⟨?_, ?_, h.climbing.of_eq rfl, trivial⟩
    · rw [map_id_setState]
      exact h.ids
    · intro job' hjob'
      exact lt_of_mem_setState h.ids_lt hjob'
  · cases hstep
  · obtain rfl := Option.some.inj hstep
    exact ⟨h.ids, h.ids_lt, h.climbing.of_eq rfl, trivial⟩

theorem Inv.of_init (h : (machine schema owner).init s) : Inv schema owner s := by
  obtain ⟨hids, hlt, hphase, hprev, hmultiplier, hreports⟩ := h
  refine ⟨hids, hlt, ?_, ?_⟩
  · constructor <;> simp [hreports]
  · simp only [PhaseInv, hphase]
    constructor
    · constructor
      · simp [hprev]
      · simp [hprev]
      · rw [hmultiplier]
      · rw [hmultiplier, zero_mul, add_zero]
        exact doneWeight_nonneg
    · simp [Below, hreports]

theorem Inv.step (h : Inv schema owner s) {action : ProcessAction}
    (hsteady : isSteady schema owner s action)
    (hstep : s.step schema owner action = some s') : Inv schema owner s' := by
  cases action with
  | add jobOwner syncColls =>
      obtain rfl := Option.some.inj hstep
      exact h.insertElemsToDb hsteady
  | interrupt => exact h.interrupt hstep
  | getNext =>
      cases hphase : s.phase with
      | looping count => exact h.getNext hphase hsteady hstep
      | _ => simp [SyncProcess.step, hphase] at hstep
  | lock colls =>
      cases hphase : s.phase with
      | locking count job => exact h.lock hphase hsteady hstep
      | _ => simp [SyncProcess.step, hphase] at hstep
  | progress =>
      cases hphase : s.phase with
      | processing count job currMultiplier events =>
          cases events with
          | nil => simp [SyncProcess.step, hphase] at hstep
          | cons event events => exact h.next hphase hsteady hstep
      | _ => simp [SyncProcess.step, hphase] at hstep
  | subProcess =>
      cases hphase : s.phase with
      | processing count job currMultiplier events => exact h.subProcess hphase hstep
      | _ => simp [SyncProcess.step, hphase] at hstep
  | settle =>
      cases hphase : s.phase with
      | settling count job => exact h.settle hphase hstep
      | _ => simp [SyncProcess.step, hphase] at hstep
  | removeByState ids => exact h.removeByState hstep
  | setEnd => exact h.setEnd hstep
  | fail => exact h.fail hstep

end Preserve

/-- In every steady run the reported progress climbs, and reaches 100 with the last job. -/
theorem climbing_of_steady (schema : SyncSchema) (owner : SyncOwner) (s : SyncProcess)
    (hs : (machine schema owner).Reachable (isSteady schema owner) s) : Climbing owner s := by
  have hinv : Inv schema owner s := by
    apply hs.invariant
    · intro s hinit
      exact Inv.of_init hinit
    · intro s action s' h hsteady hstep
      exact h.step hsteady hstep
  exact hinv.climbing

namespace ProgressWitness

/-- The schema with 12 private and 11 public collections. -/
def syncSchema : SyncSchema := ⟨12, 11, ["ledgers", "trades"], by decide⟩

def queued (collNames : List String) : SyncProcess where
  jobs := SyncSys.newJobs (.user 1) 1 (collNames.map .coll)
  nextId := collNames.length + 1
  isFirstSync := false
  hasInterrupted := false
  phase := .looping 0
  prevSyncs := []
  multiplier := 0
  reports := []

theorem queued_init (collNames : List String) :
    (machine syncSchema (.user 1)).init (queued collNames) := by
  refine ⟨?_, ?_, rfl, rfl, rfl, rfl⟩
  · exact List.pairwise_map.mpr (SyncSys.ids_newJobs _ _ _)
  · intro job hjob
    have hlt := (SyncSys.mem_newJobs hjob).2.2.2.2
    rw [List.length_map] at hlt
    simp only [queued]
    omega

def progresses (s : SyncProcess) : List ℤ := s.reports.map SyncReport.progress

/-- One job with these users and public collections, from its start to its end. -/
def wholeJob (colls : JobColls) : List ProcessAction :=
  [.getNext, .lock colls] ++
    List.replicate (DataInserter.insertNewDataToDbMultiUser colls).length .progress ++
    [.subProcess, .settle]

/-- A user and a sub-user with one collection each. -/
def twoUsers : JobColls := ⟨1, [.colls 1, .colls 1], 0, by decide⟩

/-- One user with all private collections. -/
def privColls : JobColls := ⟨12, [.colls 12], 0, by decide⟩

/-- All public collections. -/
def pubColls : JobColls := ⟨11, [.colls 0], 11, by decide⟩

/-- Two jobs one after the other. -/
theorem climbing_of_steady_two :
    ∃ s, progresses s = [25, 75, 100] ∧ Climbing (.user 1) s := by
  obtain ⟨s, hs, hprogresses⟩ := @Machine.exists_of_run _ _ (machine syncSchema (.user 1))
    (isSteady syncSchema (.user 1)) _ _ (queued_init ["ledgers", "trades"])
    (wholeJob twoUsers ++ wholeJob twoUsers ++ [.getNext, .removeByState [], .setEnd])
    (fun s => progresses s = [25, 75, 100]) _ (by decide +kernel)
  exact ⟨s, hprogresses, climbing_of_steady syncSchema (.user 1) s hs⟩

/-- A job that is added takes its part from the one that is processed, and comes on top of
one that is finished; one that is added behind the loop is left. -/
theorem not_climbing :
    (∃ s, (machine syncSchema (.user 1)).Reachable Machine.free s ∧
      progresses s = [8, 17, 25, 33, 22]) ∧
    (∃ s, (machine syncSchema (.user 1)).Reachable Machine.free s ∧
      progresses s = [8, 17, 25, 33, 42, 50, 58, 67, 75, 83, 92, 104]) ∧
    (∃ s, (machine syncSchema (.user 1)).Reachable Machine.free s ∧
      ∃ report ∈ s.reports, report.progress = 100 ∧
        ∃ job ∈ report.jobs, isLeft (.user 1) job = true) ∧
    ¬ ∀ s, (machine syncSchema (.user 1)).Reachable Machine.free s → Climbing (.user 1) s := by
  have hfalls := @Machine.exists_of_run _ _ (machine syncSchema (.user 1)) Machine.free _ _
    (queued_init ["_PRIVATE"])
    ([.getNext, .lock privColls, .progress, .progress, .progress, .progress,
      .add (.user 1) [.coll "_PUBLIC"], .progress])
    (fun s => progresses s = [8, 17, 25, 33, 22]) _ (by decide +kernel)
  refine ⟨hfalls, ?_, ?_, ?_⟩
  · exact @Machine.exists_of_run _ _ (machine syncSchema (.user 1)) Machine.free _ _
      (queued_init ["_PRIVATE"])
      (wholeJob privColls ++
        [.add (.user 1) [.coll "_PUBLIC"], .getNext, .lock pubColls, .progress])
      _ _ (by decide +kernel)
  · exact @Machine.exists_of_run _ _ (machine syncSchema (.user 1)) Machine.free _ _
      (queued_init ["ledgers"])
      (wholeJob twoUsers ++ [.getNext, .add (.user 1) [.coll "trades"], .removeByState [], .setEnd])
      _ _ (by decide +kernel)
  · intro hall
    obtain ⟨s, hs, hprogresses⟩ := hfalls
    have hsorted := (hall s hs).sorted
    have hmap : (progresses s).Pairwise (· ≤ ·) := List.pairwise_map.mpr hsorted
    rw [hprogresses] at hmap
    revert hmap
    decide

end ProgressWitness

end SyncProcess

end ReportsFramework
