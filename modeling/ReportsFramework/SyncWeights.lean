/-
The weights of the jobs of a run, and the part that the multipliers give to one of them.
-/
import Mathlib.Data.List.Nodup
import Mathlib.Tactic.Linarith
import ReportsFramework.SyncProgress

namespace ReportsFramework

theorem SyncSchema.allMultipliers_nonneg {schema : SyncSchema} {collName : SyncColl}
    {multiplier : ℚ} (h : schema.allMultipliers collName = some multiplier) :
    0 ≤ multiplier := by
  cases collName with
  | all =>
      obtain rfl := Option.some.inj h
      norm_num
  | coll name =>
      simp only [allMultipliers] at h
      split_ifs at h
      all_goals
        obtain rfl := Option.some.inj h
        positivity

section SetState

variable {jobs : List SyncJob} {job job' : SyncJob} {id : ℕ} {state : JobState}

theorem map_id_setState : (setState jobs id state).map SyncJob.id = jobs.map SyncJob.id := by
  unfold setState
  rw [List.map_map]
  apply List.map_congr_left
  intro job _
  simp only [Function.comp_apply]
  split_ifs
  · rfl
  · rfl

/-- The queue around one of its jobs, which alone is changed. -/
theorem exists_setState_eq (hids : (jobs.map SyncJob.id).Nodup) (hjob : job ∈ jobs) :
    ∃ before behind, jobs = before ++ job :: behind ∧
      ∀ state, setState jobs job.id state = before ++ { job with state } :: behind := by
  obtain ⟨before, behind, rfl⟩ := List.append_of_mem hjob
  refine ⟨before, behind, rfl, ?_⟩
  intro state
  simp only [List.map_append, List.map_cons, List.nodup_append, List.nodup_cons,
    List.mem_map, List.mem_cons] at hids
  have hother : ∀ other, other ∈ before ∨ other ∈ behind → other.id ≠ job.id := by
    rintro other (h | h) heq
    · exact hids.2.2 other.id ⟨other, h, rfl⟩ job.id (.inl rfl) heq
    · exact hids.2.1.1 ⟨other, h, heq⟩
  have hsame : ∀ others : List SyncJob, (∀ other ∈ others, other.id ≠ job.id) →
      setState others job.id state = others := by
    intro others h
    unfold setState
    calc others.map _ = others.map (fun job => job) := by
          apply List.map_congr_left
          intro other hmem
          exact if_neg (h other hmem)
      _ = others := List.map_id others
  have hbefore := hsame before fun other h => hother other (.inl h)
  have hbehind := hsame behind fun other h => hother other (.inr h)
  unfold setState at hbefore hbehind ⊢
  rw [List.map_append, List.map_cons, hbefore, hbehind, if_pos rfl]

theorem mem_setState_of_ne (hjob : job ∈ jobs) (hne : job.id ≠ id) :
    job ∈ setState jobs id state :=
  List.mem_map.mpr ⟨job, hjob, if_neg hne⟩

theorem mem_setState_self (hjob : job ∈ jobs) :
    { job with state } ∈ setState jobs job.id state :=
  List.mem_map.mpr ⟨job, hjob, if_pos rfl⟩

theorem lt_of_mem_setState {nextId : ℕ} (hlt : ∀ job ∈ jobs, job.id < nextId)
    (hjob : job ∈ setState jobs id state) : job.id < nextId := by
  have hmem : job.id ∈ (setState jobs id state).map SyncJob.id := List.mem_map_of_mem hjob
  rw [map_id_setState] at hmem
  obtain ⟨old, hold, heq⟩ := List.mem_map.mp hmem
  rw [← heq]
  exact hlt old hold

theorem eq_of_id_eq (hids : (jobs.map SyncJob.id).Nodup) (hjob : job ∈ jobs) (hjob' : job' ∈ jobs)
    (h : job.id = job'.id) : job = job' :=
  List.inj_on_of_nodup_map hids hjob hjob' h

end SetState

namespace SyncProcess

variable {schema : SyncSchema} {owner : SyncOwner} {s : SyncProcess} {job : SyncJob}

section Multipliers

theorem weight_nonneg (job : SyncJob) : 0 ≤ weight schema job := by
  unfold weight
  cases h : schema.allMultipliers job.collName with
  | none => exact le_rfl
  | some multiplier => exact SyncSchema.allMultipliers_nonneg h

theorem sum_weight_nonneg (jobs : List SyncJob) : 0 ≤ (jobs.map (weight schema)).sum := by
  apply List.sum_nonneg
  intro x hx
  obtain ⟨job, _, rfl⟩ := List.mem_map.mp hx
  exact weight_nonneg job

theorem doneWeight_nonneg : 0 ≤ doneWeight schema owner s :=
  sum_weight_nonneg _

theorem waitingWeight_nonneg : 0 ≤ waitingWeight schema owner s :=
  sum_weight_nonneg _

theorem wholeWeight_nonneg : 0 ≤ wholeWeight schema owner s :=
  add_nonneg doneWeight_nonneg waitingWeight_nonneg

theorem setMultiplier_eq {accum : List (ℕ × ℚ)} (hnew : ∀ entry ∈ accum, entry.1 ≠ job.id) :
    setMultiplier schema accum job =
      ((schema.allMultipliers job.collName).map fun multiplier => (job.id, multiplier)).toList ++
        accum := by
  unfold setMultiplier
  cases schema.allMultipliers job.collName with
  | none => rfl
  | some multiplier =>
      have hfilter : accum.filter (fun entry => entry.1 ≠ job.id) = accum := by
        apply List.filter_eq_self.mpr
        intro entry hentry
        simpa using hnew entry hentry
      simp only [hfilter]
      rfl

/-- The entries of jobs with ids of their own stand beside each other. -/
theorem foldl_setMultiplier {jobs : List SyncJob} {accum : List (ℕ × ℚ)}
    (hids : (jobs.map SyncJob.id).Nodup)
    (hnew : ∀ job ∈ jobs, ∀ entry ∈ accum, entry.1 ≠ job.id) :
    jobs.foldl (setMultiplier schema) accum =
      (jobs.filterMap fun job =>
        (schema.allMultipliers job.collName).map fun multiplier => (job.id, multiplier)).reverse ++
        accum := by
  induction jobs generalizing accum with
  | nil => rfl
  | cons job rest ih =>
      obtain ⟨hjob, hrest⟩ := List.nodup_cons.mp hids
      have hentry := hnew job List.mem_cons_self
      rw [List.foldl_cons, setMultiplier_eq hentry, ih hrest]
      · cases h : schema.allMultipliers job.collName with
        | none => simp [h]
        | some multiplier => simp [h]
      · intro later hlater entry hmem
        rcases List.mem_append.mp hmem with hmem | hmem
        · cases h : schema.allMultipliers job.collName with
          | none => simp [h] at hmem
          | some multiplier =>
              simp only [h, Option.map_some, Option.toList_some, List.mem_singleton] at hmem
              subst hmem
              intro heq
              exact hjob (List.mem_map.mpr ⟨later, hlater, heq.symm⟩)
        · exact hnew later (List.mem_cons_of_mem job hlater) entry hmem

theorem sumMultipliers_of_nodup {jobs : List SyncJob} (hids : (jobs.map SyncJob.id).Nodup) :
    sumMultipliers (jobs.foldl (setMultiplier schema) []) = (jobs.map (weight schema)).sum := by
  rw [foldl_setMultiplier hids (by simp), List.append_nil]
  unfold sumMultipliers
  rw [List.map_reverse, List.sum_reverse]
  clear hids
  induction jobs with
  | nil => rfl
  | cons job rest ih =>
      cases h : schema.allMultipliers job.collName with
      | none => simp [h, ih, weight]
      | some multiplier => simp [h, ih, weight]

theorem mem_multipliers {jobs : List SyncJob} (hids : (jobs.map SyncJob.id).Nodup) {id : ℕ}
    {multiplier : ℚ} :
    (id, multiplier) ∈ jobs.foldl (setMultiplier schema) [] ↔
      ∃ job ∈ jobs, job.id = id ∧ schema.allMultipliers job.collName = some multiplier := by
  rw [foldl_setMultiplier hids (by simp), List.append_nil, List.mem_reverse, List.mem_filterMap]
  constructor
  · rintro ⟨job, hjob, h⟩
    obtain ⟨_, hmultiplier, heq⟩ := Option.map_eq_some_iff.mp h
    obtain ⟨rfl, rfl⟩ := Prod.mk.inj heq
    exact ⟨job, hjob, rfl, hmultiplier⟩
  · rintro ⟨job, hjob, rfl, hmultiplier⟩
    exact ⟨job, hjob, by simp [hmultiplier]⟩

theorem lookup_multipliers {jobs : List SyncJob} (hids : (jobs.map SyncJob.id).Nodup)
    (hjob : job ∈ jobs) :
    (jobs.foldl (setMultiplier schema) []).lookup job.id =
      schema.allMultipliers job.collName := by
  cases hlookup : (jobs.foldl (setMultiplier schema) []).lookup job.id with
  | some multiplier =>
      obtain ⟨before, behind, heq, -⟩ := List.lookup_eq_some_iff.mp hlookup
      have hmem : (job.id, multiplier) ∈ jobs.foldl (setMultiplier schema) [] := by
        rw [heq]
        simp
      obtain ⟨job', hjob', hid, hmultiplier⟩ := (mem_multipliers hids).mp hmem
      rw [eq_of_id_eq hids hjob hjob' hid.symm, hmultiplier]
  | none =>
      cases h : schema.allMultipliers job.collName with
      | none => rfl
      | some multiplier =>
          have hmem := (mem_multipliers hids).mpr ⟨job, hjob, rfl, h⟩
          have hne := List.lookup_eq_none_iff.mp hlookup _ hmem
          simp at hne

/-- A job among those of the run has its part of their weight. -/
theorem getMultiplier_of_mem
    (hids : ((s.prevSyncs ++ s.futureSyncs owner).map SyncJob.id).Nodup)
    (hjob : job ∈ s.prevSyncs ++ s.futureSyncs owner) :
    s.getMultiplier schema owner job.id =
      weight schema job / ((s.prevSyncs ++ s.futureSyncs owner).map (weight schema)).sum := by
  have hlookup := @lookup_multipliers schema job _ hids hjob
  have hsum := @sumMultipliers_of_nodup schema _ hids
  simp only [getMultiplier, getMultipliers, hlookup, hsum]
  unfold weight
  cases h : schema.allMultipliers job.collName with
  | none => simp
  | some multiplier =>
      simp only [Option.getD_some]
      split_ifs with hzero
      · rcases hzero with hzero | hzero
        · simp [hzero]
        · rw [hzero, div_zero]
      · ring

theorem getMultiplier_of_not_mem
    (hids : ((s.prevSyncs ++ s.futureSyncs owner).map SyncJob.id).Nodup) {id : ℕ}
    (hid : ∀ job ∈ s.prevSyncs ++ s.futureSyncs owner, job.id ≠ id) :
    s.getMultiplier schema owner id = 0 := by
  have hlookup : (s.getMultipliers schema owner).lookup id = none := by
    apply List.lookup_eq_none_iff.mpr
    rintro ⟨id', multiplier⟩ hmem
    obtain ⟨job, hjob, rfl, -⟩ := (mem_multipliers hids).mp hmem
    simpa using (hid job hjob).symm
  simp only [getMultiplier, hlookup]

theorem sum_filter_le (jobs : List SyncJob) (p : SyncJob → Bool) :
    ((jobs.filter p).map (weight schema)).sum ≤ (jobs.map (weight schema)).sum := by
  induction jobs with
  | nil => exact le_rfl
  | cons job rest ih =>
      have hweight := @weight_nonneg schema job
      cases hp : p job with
      | true =>
          rw [List.filter_cons_of_pos hp]
          simpa using ih
      | false =>
          rw [List.filter_cons_of_neg (by simp [hp])]
          simp only [List.map_cons, List.sum_cons]
          linarith

theorem div_mul_le_self {x y : ℚ} (hx : 0 ≤ x) (hy : 0 ≤ y) : x / y * y ≤ x := by
  rcases hy.eq_or_lt with hy | hy
  · rw [← hy, mul_zero]
    exact hx
  · rw [div_mul_cancel₀ x hy.ne']

end Multipliers

section Weights

variable {s' : SyncProcess} {state : JobState}

/-- The weight of a job among those that count. -/
def countedWeight (schema : SyncSchema) (owner : SyncOwner) (job : SyncJob) : ℚ :=
  if owner.counts job.owner then weight schema job else 0

theorem countedWeight_nonneg (job : SyncJob) : 0 ≤ countedWeight schema owner job := by
  unfold countedWeight
  split_ifs
  · exact weight_nonneg job
  · exact le_rfl

/-- The weight that waits, when one job changes its state. -/
theorem waitingWeight_of_setState (hids : (s.jobs.map SyncJob.id).Nodup) (hjob : job ∈ s.jobs)
    (hjobs : s'.jobs = setState s.jobs job.id state) :
    waitingWeight schema owner s' + (if job.isActive then countedWeight schema owner job else 0) =
      waitingWeight schema owner s +
        (if state ≠ .finished then countedWeight schema owner job else 0) := by
  obtain ⟨before, behind, heq, hset⟩ := exists_setState_eq hids hjob
  have hactive : ({ job with state } : SyncJob).isActive = decide (state ≠ .finished) := rfl
  unfold waitingWeight waiting
  rw [hjobs, hset, heq]
  simp only [List.filter_append, List.filter_cons, hactive, countedWeight]
  by_cases hcounts : owner.counts job.owner = true
  · by_cases hold : job.isActive = true
    · by_cases hnew : state = .finished
      · simp [hcounts, hold, hnew]
        ring
      · simp [hcounts, hold, hnew, weight]
    · by_cases hnew : state = .finished
      · simp [hcounts, hold, hnew]
      · simp [hcounts, hold, hnew, weight]
        ring
  · simp [hcounts]

theorem wholeWeight_of_eq (hprev : s'.prevSyncs = s.prevSyncs)
    (hwaiting : s'.waiting owner = s.waiting owner) :
    wholeWeight schema owner s' = wholeWeight schema owner s := by
  simp only [wholeWeight, doneWeight, waitingWeight, hprev, hwaiting]

theorem getMultiplier_of_eq (hprev : s'.prevSyncs = s.prevSyncs)
    (hwaiting : s'.waiting owner = s.waiting owner) (id : ℕ) :
    s'.getMultiplier schema owner id = s.getMultiplier schema owner id := by
  have hsame : s'.getMultipliers schema owner = s.getMultipliers schema owner := by
    simp only [getMultipliers, futureSyncs, hprev, hwaiting]
  unfold getMultiplier
  rw [hsame]

end Weights

end SyncProcess

end ReportsFramework
