/-
No gap in the history of a private collection.  Whatever pages a run is interrupted after,
the next ones make up for it, unless a temporary table with a gap is left behind; and once
a run finishes, all records up to the end of its windows are in the main table.
-/
import ReportsFramework.StepLoads

namespace ReportsFramework.SyncSteps

open Coverage DataChecker SyncUserStepManager

variable {ρ κ : Type*} {src : PageSource ρ κ} {minStartMts : ℤ} {db : CollDb src}

section Runs

variable [DecidableEq κ] {infoMts : ℤ} {run : SyncRun} {d : SyncUserStepData}

theorem insertApiData_marked {writes : ℕ} {db' : CollDb src} {left : SyncUserStepData × ℕ}
    (h : DataInserter.insertApiData db d writes = (db', .ok left)) : left.1 = marked d := by
  rcases insertApiData_cases h with ⟨_, hres⟩ | ⟨_, _, _, _, hres⟩ |
    ⟨_, _, _, _, _, _, _, _, ⟨_, hres⟩ | ⟨_, _, hres⟩⟩
  · cases hres
  · cases hres
  · cases hres
  · rw [Except.ok.inj hres]
    rfl

/-- A kind of step is marked as ready once the steps are inserted, unless there is none of it
to be synchronised. -/
theorem wereSynced_marked {should was : SyncUserStepData → Bool} {steps : List SyncUserStepData}
    (hsame : ∀ d, should (marked d) = should d)
    (hwas : ∀ d, should d = true → was (marked d) = true)
    (h : ∃ d ∈ steps, should d = true) : wereSynced should was (steps.map marked) = true := by
  obtain ⟨d, hd, hshould⟩ := h
  unfold wereSynced
  simp only [Bool.and_eq_true, Bool.not_eq_true', List.isEmpty_eq_false_iff, List.all_eq_true,
    List.mem_filter, List.mem_map]
  constructor
  · apply List.ne_nil_of_mem
    exact List.mem_filter.mpr ⟨List.mem_map_of_mem hd, (hsame d).trans hshould⟩
  · rintro _ ⟨⟨d', _, rfl⟩, hshould'⟩
    exact hwas d' ((hsame d').symm.trans hshould')

theorem wereBaseStepsSynced_marked {steps : List SyncUserStepData}
    (h : ∃ d ∈ steps, shouldBaseStepBeSynced d .none = true) :
    wereBaseStepsSynced (steps.map marked) .none = true :=
  wereSynced_marked (fun _ => rfl) (fun d hd => by simp [marked, hd]) h

theorem wereCurrStepsSynced_marked {steps : List SyncUserStepData}
    (h : ∃ d ∈ steps, shouldCurrStepBeSynced d .none = true) :
    wereCurrStepsSynced (steps.map marked) .none = true :=
  wereSynced_marked (fun _ => rfl) (fun d hd => by simp [marked, hd]) h

/-- The moved table has the records of both. -/
theorem mem_main_updateSyncInfo (h : ∀ r ∈ db.stored, r ∈ src.history)
    (start : List SyncUserStepData) (syncedAt : ℤ) {r : ρ} :
    r ∈ (DataInserter.updateSyncInfo db start syncedAt).main.contents ↔ r ∈ db.stored := by
  have hrows : (TempRows.ofTable db.temp).rows.map Prod.snd = db.temp.contents := by
    simp [TempRows.ofTable, Sql.Table.contents]
  have hmove : (DataInserter.updateSyncInfo db start syncedAt).main =
      db.main.insertAll db.temp.contents := by
    unfold DataInserter.updateSyncInfo
    rw [SyncTables.moveTable_eq_copyWhole, copyWhole, if_neg Bool.false_ne_true, hrows]
  rw [hmove]
  exact PageSource.mem_insertAll (fun r hr => h r (.inl hr)) fun r hr => h r (.inr hr)

/-- What is stored when a run finishes. -/
theorem missing_updateSyncInfo (h : db.Within minStartMts) (start : List SyncUserStepData)
    (syncedAt : ℤ) :
    (DataInserter.updateSyncInfo db start syncedAt).missing minStartMts =
      db.missing minStartMts := by
  ext r
  have hmem := mem_main_updateSyncInfo (fun _ hx => h.history hx) start syncedAt (r := r)
  constructor
  · rintro ⟨hr, hafter, hnot⟩
    exact ⟨hr, hafter, fun hold => hnot (.inl (hmem.mpr hold))⟩
  · rintro ⟨hr, hafter, hnot⟩
    refine ⟨hr, hafter, ?_⟩
    rintro (hmain | htemp)
    · exact hnot (hmem.mp hmain)
    · cases htemp

theorem resting_of_finish (h : db.Resting minStartMts) (hcomplete : db.AllComplete minStartMts)
    {start : List SyncUserStepData} {syncedAt : ℤ} (hstart : start ≠ [])
    (hbase : db.step.isBaseStepReady = true ∨ wereBaseStepsSynced start .none = true) :
    (DataInserter.updateSyncInfo db start syncedAt).Resting minStartMts := by
  have hmem {r : ρ} :=
    mem_main_updateSyncInfo (fun _ hx => h.within.history hx) start syncedAt (r := r)
  have hmissing := missing_updateSyncInfo h.within start syncedAt
  have hrow : (DataInserter.updateSyncInfo db start syncedAt).row =
      some (setSynced db.row syncedAt start .none) := by
    have hempty : start.isEmpty = false := by simpa using hstart
    simp [DataInserter.updateSyncInfo, hempty]
  have hstep : (DataInserter.updateSyncInfo db start syncedAt).step =
      setSynced db.row syncedAt start .none := by
    simp [CollDb.step, hrow]
  have hready : (DataInserter.updateSyncInfo db start syncedAt).step.isBaseStepReady = true := by
    rw [hstep]
    exact Bool.or_eq_true_iff.mpr hbase
  constructor
  · constructor
    · rintro r (hr | hr)
      · exact h.within.history (hmem.mp hr)
      · cases hr
    · rintro r (hr | hr)
      · exact h.within.start_le (hmem.mp hr)
      · cases hr
  · intro r hr x hx
    rw [hmissing] at hr
    exact hcomplete r hr x (hmem.mp hx)
  · intro r _ x hx
    cases hx
  · constructor
    · exact fun _ => ⟨rfl, hready⟩
    · intro hfalse
      exact absurd (hfalse.symm.trans hready) Bool.false_ne_true
    · intro _ hfalse
      exact absurd (hfalse.symm.trans hready) Bool.false_ne_true
    · intro _ hfalse
      exact absurd (hfalse.symm.trans hready) Bool.false_ne_true
    · intro start' hstart'
      rw [hstep] at hstart'
      exact h.fits.currStart hstart'
    · intro _ hfalse
      exact absurd (hfalse.symm.trans hready) Bool.false_ne_true
    · intro r x _ hx
      cases hx
    · intro start' r hmain hstart' hr
      rw [hstep] at hstart'
      rw [hmissing] at hr
      apply h.fits.after _ hstart' hr
      apply List.eq_nil_iff_forall_not_mem.mpr
      intro x hx
      have hx' := hmem.mpr (.inl hx)
      simp [hmain] at hx'

/-- The fresh step beside a step that is left. -/
def freshOf (d : SyncUserStepData) (last : Option ℤ) (currMts : ℤ) : SyncUserStepData :=
  { d.ofParams with currStart := last, currEnd := some currMts, isCurrStepReady := false }

omit [DecidableEq κ] in
theorem stepsOf_eq (minStartMts : ℤ) (db : CollDb src) (run : SyncRun) :
    DataInserter.stepsOf minStartMts db run =
      (if !(lastSynced minStartMts db run.infoMts).1.isBaseStepReady ||
          !(lastSynced minStartMts db run.infoMts).1.isCurrStepReady then
        [(lastSynced minStartMts db run.infoMts).1]
      else []) ++
      (if shouldFreshSyncBeAdded (lastSynced minStartMts db run.infoMts).1 run.currMts
          allowedDiff then
        [freshOf (lastSynced minStartMts db run.infoMts).1
          (lastSynced minStartMts db run.infoMts).2 run.currMts]
      else []) := rfl

/-- Without a fresh step the windows end less than 61 minutes before the check. -/
theorem lt_of_not_fresh {currMts : ℤ} (h : shouldFreshSyncBeAdded d currMts allowedDiff = false) :
    currMts - 3660000 <
      max (if !d.isBaseStepReady && d.hasBaseStep then d.baseEnd.getD 0 else 0)
        (if !d.isCurrStepReady && d.hasCurrStep then d.currEnd.getD 0 else 0) := by
  have hdiff : ¬ 60 < diffMinutes currMts
      (max (if !d.isBaseStepReady && d.hasBaseStep then d.baseEnd.getD 0 else 0)
        (if !d.isCurrStepReady && d.hasCurrStep then d.currEnd.getD 0 else 0)) := by
    simpa [shouldFreshSyncBeAdded, allowedDiff] using h
  unfold diffMinutes at hdiff
  generalize max (if !d.isBaseStepReady && d.hasBaseStep then d.baseEnd.getD 0 else 0)
    (if !d.isCurrStepReady && d.hasCurrStep then d.currEnd.getD 0 else 0) = stop at hdiff ⊢
  by_contra hge
  rw [Int.tdiv_eq_ediv_of_nonneg (by omega)] at hdiff
  omega

/-- A collection whose steps are ready gets a fresh one. -/
theorem fresh_of_ready {currMts : ℤ} (hhour : 3660000 ≤ currMts) (hbase : d.isBaseStepReady = true)
    (hcurr : d.isCurrStepReady = true) : shouldFreshSyncBeAdded d currMts allowedDiff = true := by
  by_contra hnot
  have hlt := lt_of_not_fresh (by simpa using hnot)
  simp only [hbase, hcurr, Bool.not_true, Bool.false_and, Bool.false_eq_true, if_false,
    max_self] at hlt
  omega

variable {last currMts : ℤ} {temp₂ : Sql.Table src.key}

/-- The fresh step behind the one that is left. -/
theorem freshReady_of_left (h : db.Resting minStartMts) (hleft : Left minStartMts db d last)
    (hloaded : LeftLoaded minStartMts db d last temp₂) :
    FreshReady minStartMts ⟨some (updateSyncInfo db.row d), db.main, temp₂⟩
      (freshOf d (some last) currMts) last currMts where
  resting := hloaded.resting
  complete := hloaded.complete
  notReady := rfl
  currStart := rfl
  currEnd := rfl
  start_le := hleft.start_le
  last_lt := hloaded.last_lt
  base := by
    intro hbase
    obtain ⟨hrow, hstart, stop, hstop, hlt, _⟩ := hleft.base hbase
    exact ⟨h.fits.first hrow, hstart, stop, hstop, hlt, fun hr => hloaded.base hbase hstop hr,
      hloaded.exhausted hbase hstop⟩

theorem Left.isReady (hleft : Left minStartMts db d last)
    (hbase : db.step.isBaseStepReady = true) : d.isBaseStepReady = true := by
  by_contra hnot
  have hrow := (hleft.base (by simpa using hnot)).1
  exact absurd (hrow.symm.trans hbase) Bool.false_ne_true

/-- The fresh step of a collection whose steps are ready. -/
theorem freshReady_of_ready (h : db.Resting minStartMts) (hleft : Left minStartMts db d last)
    (hcurr : db.step.isCurrStepReady = true) :
    FreshReady minStartMts db (freshOf d (some last) currMts) last currMts := by
  obtain ⟨hnil, hbase⟩ := h.fits.ready hcurr
  have hcomplete : db.AllComplete minStartMts := by
    rintro r hr x (hx | hx)
    · exact h.main r hr x hx
    · simp [hnil] at hx
  refine ⟨h, hcomplete, rfl, rfl, rfl, hleft.start_le, ?_, ?_⟩
  · exact fun hr => hleft.last_lt hr (hcomplete _ hr)
  · intro hfalse
    exact absurd (hfalse.symm.trans (hleft.isReady hbase)) Bool.false_ne_true

/-- A date behind the windows that a step has to load: the base one, unless it is ready, and
the current one. -/
structure IsBehind (d : SyncUserStepData) (date : ℤ) : Prop where
  base {stop} : d.isBaseStepReady = false → d.baseEnd = some stop → stop < date
  curr {stop} : d.currEnd = some stop → stop < date

/-- What a run that finishes leaves missing: records behind the windows of its steps, and
dated less than 61 minutes before the run. -/
def UpToDate (minStartMts : ℤ) (db : CollDb src) (run : SyncRun) (db' : CollDb src) : Prop :=
  ∀ r ∈ src.history, minStartMts < src.date r → r ∉ db'.main.contents →
    run.currMts - 3660000 < src.date r ∧
      ∀ d ∈ DataInserter.stepsOf minStartMts db run, IsBehind d (src.date r)

/-- Before its last transaction a run has inserted its steps, and nothing that is stored is
newer than what is missing. -/
structure Inserted (minStartMts : ℤ) (db : CollDb src) (run : SyncRun) (db' : CollDb src)
    (start : List SyncUserStepData) : Prop where
  resting : db'.Resting minStartMts
  complete : db'.AllComplete minStartMts
  ne_nil : start ≠ []
  ready : db'.step.isBaseStepReady = true ∨ wereBaseStepsSynced start .none = true
  upToDate {r} : r ∈ db'.missing minStartMts → run.currMts - 3660000 < src.date r ∧
    ∀ d ∈ DataInserter.stepsOf minStartMts db run, IsBehind d (src.date r)

/-- A base window is never empty. -/
theorem shouldBase_of_left (hleft : Left minStartMts db d last)
    (hbase : d.isBaseStepReady = false) : shouldBaseStepBeSynced d .none = true := by
  obtain ⟨_, hstart, stop, hstop, hlt, _⟩ := hleft.base hbase
  rw [shouldBase_of_window hbase hstart hstop]
  exact decide_eq_true hlt

theorem LeftLoaded.isBehind {temp₂ : Sql.Table src.key}
    (hloaded : LeftLoaded minStartMts db d last temp₂) {r : ρ}
    (hr : r ∈ CollDb.missing minStartMts ⟨some (updateSyncInfo db.row d), db.main, temp₂⟩) :
    IsBehind d (src.date r) :=
  ⟨fun hbase hstop => hloaded.base hbase hstop hr, fun hstop => hloaded.curr hstop hr⟩

omit [DecidableEq κ] in
theorem isBehind_fresh {last : Option ℤ} {date : ℤ}
    (hbase : ∀ stop, d.isBaseStepReady = false → d.baseEnd = some stop → stop < date)
    (hlt : currMts < date) : IsBehind (freshOf d last currMts) date where
  base hnot hstop := hbase _ hnot hstop
  curr hstop := by
    obtain rfl := Option.some.inj hstop
    exact hlt

/-- What comes of inserting the steps of a run. -/
structure Inserts (minStartMts : ℤ) (db : CollDb src) (run : SyncRun) (db' : CollDb src)
    (res : Except (ℕ × Interruption) (List SyncUserStepData × ℕ)) : Prop where
  error {e} : res = .error e → (e = (1, .inCurr) →
    Gapless src.date (db'.missing minStartMts) db'.found) → db'.Resting minStartMts
  ok {left} : res = .ok left → Inserted minStartMts db run db' left.1

variable {db' : CollDb src} {res : Except (ℕ × Interruption) (List SyncUserStepData × ℕ)}

theorem inserts_fresh (hlimit : src.history.length < DataInserter.limit)
    (h : db.Resting minStartMts)
    (hleft : Left minStartMts db d last) (hcurr : db.step.isCurrStepReady = true)
    (hsteps : DataInserter.stepsOf minStartMts db run = [freshOf d (some last) run.currMts])
    (hres : DataInserter.insertSteps db [] [freshOf d (some last) run.currMts] run.writes =
      (db', res)) :
    Inserts minStartMts db run db' res := by
  obtain ⟨hnil, hbase⟩ := h.fits.ready hcurr
  have hready : FreshReady minStartMts db (freshOf d (some last) run.currMts) last run.currMts :=
    freshReady_of_ready h hleft hcurr
  rcases hins : DataInserter.insertApiData db (freshOf d (some last) run.currMts) run.writes
    with ⟨db₁, e | left⟩
  · simp only [DataInserter.insertSteps, hins] at hres
    obtain ⟨rfl, rfl⟩ := Prod.mk.inj hres
    refine ⟨fun _ _ => ?_, fun hok => (by cases hok)⟩
    exact (insertApiData_fresh hready hlimit hins).1 e rfl fun _ hne => absurd hnil hne
  · simp only [DataInserter.insertSteps, hins, List.nil_append] at hres
    obtain ⟨rfl, rfl⟩ := Prod.mk.inj hres
    refine ⟨fun herror => (by cases herror), ?_⟩
    rintro _ ⟨⟩
    obtain ⟨temp₂, rfl, hresting, hcomplete, hlate⟩ :=
      (insertApiData_fresh hready hlimit hins).2 left rfl
    refine ⟨hresting, hcomplete, List.cons_ne_nil _ _, .inl (hleft.isReady hbase), ?_⟩
    intro r hr
    have hlt := (hlate r hr).2
    refine ⟨by omega, ?_⟩
    intro d' hd'
    rw [hsteps, List.mem_singleton] at hd'
    subst hd'
    apply isBehind_fresh _ hlt
    intro stop hnot
    exact absurd (hnot.symm.trans (hleft.isReady hbase)) Bool.false_ne_true

/-- Without a fresh step the run ends where the step that is left does. -/
theorem inserts_left (hhour : 3660000 ≤ minStartMts)
    (hlimit : src.history.length < DataInserter.limit) (h : db.Resting minStartMts)
    (hleft : Left minStartMts db d last) (hcurr : db.step.isCurrStepReady = false)
    (hfresh : shouldFreshSyncBeAdded d run.currMts allowedDiff = false)
    (hsteps : DataInserter.stepsOf minStartMts db run = [d])
    (hres : DataInserter.insertSteps db [] [d] run.writes = (db', res)) :
    Inserts minStartMts db run db' res := by
  rcases hins : DataInserter.insertApiData db d run.writes with ⟨db₁, e | left⟩
  · simp only [DataInserter.insertSteps, hins] at hres
    obtain ⟨rfl, rfl⟩ := Prod.mk.inj hres
    refine ⟨fun _ _ => ?_, fun hok => (by cases hok)⟩
    exact (insertApiData_left h hleft hcurr hlimit hins).1 e rfl
  simp only [DataInserter.insertSteps, hins, List.nil_append] at hres
  obtain ⟨rfl, rfl⟩ := Prod.mk.inj hres
  refine ⟨fun herror => (by cases herror), ?_⟩
  rintro _ ⟨⟩
  obtain ⟨temp₂, rfl, hloaded⟩ := (insertApiData_left h hleft hcurr hlimit hins).2 left rfl
  refine ⟨hloaded.resting, hloaded.complete, List.cons_ne_nil _ _, ?_, ?_⟩
  · cases hbase : d.isBaseStepReady with
    | true => exact .inl hbase
    | false =>
        right
        rw [insertApiData_marked hins]
        exact wereBaseStepsSynced_marked
          ⟨d, List.mem_singleton_self d, shouldBase_of_left hleft hbase⟩
  intro r hr
  have hstart := hr.2.1
  constructor
  · apply (lt_of_not_fresh hfresh).trans
    apply max_lt
    · split_ifs with hbase
      · simp only [Bool.and_eq_true, Bool.not_eq_true'] at hbase
        obtain ⟨_, _, stop, hstop, _⟩ := hleft.base hbase.1
        rw [hstop]
        exact hloaded.base hbase.1 hstop hr
      · omega
    · split_ifs
      · cases hstop : d.currEnd with
        | none =>
            simp only [Option.getD_none]
            omega
        | some stop => exact hloaded.curr hstop hr
      · omega
  · intro d' hd'
    rw [hsteps, List.mem_singleton] at hd'
    subst hd'
    exact hloaded.isBehind hr

/-- The step that is left first, then the fresh one. -/
theorem inserts_left_fresh (hlimit : src.history.length < DataInserter.limit)
    (h : db.Resting minStartMts)
    (hleft : Left minStartMts db d last) (hcurr : db.step.isCurrStepReady = false)
    (hsteps : DataInserter.stepsOf minStartMts db run = [d, freshOf d (some last) run.currMts])
    (hres : DataInserter.insertSteps db [] [d, freshOf d (some last) run.currMts] run.writes =
      (db', res)) :
    Inserts minStartMts db run db' res := by
  rcases hins : DataInserter.insertApiData db d run.writes with ⟨db₁, e | left⟩
  · simp only [DataInserter.insertSteps, hins] at hres
    obtain ⟨rfl, rfl⟩ := Prod.mk.inj hres
    refine ⟨fun _ _ => ?_, fun hok => (by cases hok)⟩
    exact (insertApiData_left h hleft hcurr hlimit hins).1 e rfl
  obtain ⟨temp₂, rfl, hloaded⟩ := (insertApiData_left h hleft hcurr hlimit hins).2 left rfl
  have hready : FreshReady minStartMts ⟨some (updateSyncInfo db.row d), db.main, temp₂⟩
      (freshOf d (some last) run.currMts) last run.currMts :=
    freshReady_of_left h hleft hloaded
  rcases hins' : DataInserter.insertApiData
      ⟨some (updateSyncInfo db.row d), db.main, temp₂⟩ (freshOf d (some last) run.currMts) left.2
    with ⟨db₂, e | left'⟩
  · simp only [DataInserter.insertSteps, hins, hins'] at hres
    obtain ⟨rfl, rfl⟩ := Prod.mk.inj hres
    refine ⟨fun herror hgap => ?_, fun hok => (by cases hok)⟩
    apply (insertApiData_fresh hready hlimit hins').1 e rfl
    rintro rfl _
    exact hgap (Except.error.inj herror).symm
  simp only [DataInserter.insertSteps, hins, hins', List.nil_append, List.cons_append] at hres
  obtain ⟨rfl, rfl⟩ := Prod.mk.inj hres
  refine ⟨fun herror => (by cases herror), ?_⟩
  rintro _ ⟨⟩
  obtain ⟨temp₃, rfl, hresting, hcomplete, hlate⟩ :=
    (insertApiData_fresh hready hlimit hins').2 left' rfl
  refine ⟨hresting, hcomplete, List.cons_ne_nil _ _, ?_, ?_⟩
  · cases hbase : d.isBaseStepReady with
    | true => exact .inl hbase
    | false =>
        right
        rw [insertApiData_marked hins, insertApiData_marked hins']
        change wereBaseStepsSynced
          ([d, freshOf d (some last) run.currMts].map marked) .none = true
        exact wereBaseStepsSynced_marked
          ⟨d, List.mem_cons_self, shouldBase_of_left hleft hbase⟩
  intro r hr
  obtain ⟨hr', hlt⟩ := hlate r hr
  refine ⟨by omega, ?_⟩
  intro d' hd'
  rw [hsteps] at hd'
  rcases List.mem_cons.mp hd' with rfl | hd'
  · exact hloaded.isBehind hr'
  · rw [List.mem_singleton.mp hd']
    exact isBehind_fresh (fun _ hbase hstop => hloaded.base hbase hstop hr') hlt

/-- The steps of a run are inserted, as far as it goes. -/
theorem insertSteps_inserts (hhour : 3660000 ≤ minStartMts)
    (hlimit : src.history.length < DataInserter.limit) (h : db.Resting minStartMts)
    (hclock : minStartMts < run.currMts) (hclock' : minStartMts < run.infoMts)
    (hres : DataInserter.insertSteps db [] (DataInserter.stepsOf minStartMts db run) run.writes =
      (db', res)) :
    Inserts minStartMts db run db' res := by
  obtain ⟨last, hlast, hleft⟩ := exists_left h hclock'
  have hsteps := stepsOf_eq minStartMts db run
  rw [hlast] at hsteps
  generalize (lastSynced minStartMts db run.infoMts).1 = d at hsteps hleft
  cases hcurr : db.step.isCurrStepReady with
  | true =>
      have hbase := hleft.isReady (h.fits.ready hcurr).2
      have hcurr' := hleft.isCurr.trans hcurr
      rw [fresh_of_ready (by omega) hbase hcurr', hbase, hcurr'] at hsteps
      rw [hsteps] at hres
      exact inserts_fresh hlimit h hleft hcurr hsteps hres
  | false =>
      have hnotReady : (!d.isBaseStepReady || !d.isCurrStepReady) = true := by
        simp [hleft.isCurr.trans hcurr]
      rw [hnotReady] at hsteps
      cases hfresh : shouldFreshSyncBeAdded d run.currMts allowedDiff with
      | true =>
          rw [hfresh] at hsteps
          rw [hsteps] at hres
          exact inserts_left_fresh hlimit h hleft hcurr hsteps hres
      | false =>
          rw [hfresh] at hsteps
          rw [hsteps] at hres
          exact inserts_left hhour hlimit h hleft hcurr hfresh hsteps hres

/-- A run leaves a state from which the next one makes up for it, and one that finishes
leaves nothing missing up to the end of its windows. -/
theorem runSync_resting (hhour : 3660000 ≤ minStartMts)
    (hlimit : src.history.length < DataInserter.limit) (h : db.Resting minStartMts)
    (hclock : minStartMts < run.currMts) (hclock' : minStartMts < run.infoMts)
    (hgap : (DataInserter.runSync minStartMts db run).2 = .interrupted 1 .inCurr →
      Gapless src.date ((DataInserter.runSync minStartMts db run).1.missing minStartMts)
        (DataInserter.runSync minStartMts db run).1.found) :
    (DataInserter.runSync minStartMts db run).1.Resting minStartMts ∧
      ((DataInserter.runSync minStartMts db run).2 = .finished →
        UpToDate minStartMts db run (DataInserter.runSync minStartMts db run).1) := by
  unfold DataInserter.runSync at hgap ⊢
  rcases hres : DataInserter.insertSteps db [] (DataInserter.stepsOf minStartMts db run) run.writes
    with ⟨db', ⟨index, interruption⟩ | ⟨start, _ | writes⟩⟩
  · have hins := insertSteps_inserts hhour hlimit h hclock hclock' hres
    rw [hres] at hgap
    refine ⟨hins.error rfl fun hsame => hgap ?_, fun hfin => (by cases hfin)⟩
    rw [(Prod.mk.inj hsame).1, (Prod.mk.inj hsame).2]
  · have hins := insertSteps_inserts hhour hlimit h hclock hclock' hres
    exact ⟨(hins.ok rfl).resting, fun hfin => (by cases hfin)⟩
  · have hins := (insertSteps_inserts hhour hlimit h hclock hclock' hres).ok rfl
    refine ⟨resting_of_finish hins.resting hins.complete hins.ne_nil hins.ready, fun _ => ?_⟩
    intro r hr hafter hnot
    apply hins.upToDate
    rw [← missing_updateSyncInfo hins.resting.within start run.syncedAt]
    refine ⟨hr, hafter, ?_⟩
    rintro (hmain | htemp)
    · exact hnot hmain
    · cases htemp

/-- A run that is interrupted in the current window of its second step leaves no gap behind
what was in the temporary table. -/
def leavesNoGap (minStartMts : ℤ) (db : CollDb src) (run : SyncRun) : Prop :=
  (DataInserter.runSync minStartMts db run).2 = .interrupted 1 .inCurr →
    Gapless src.date ((DataInserter.runSync minStartMts db run).1.missing minStartMts)
      (DataInserter.runSync minStartMts db run).1.found

omit [DecidableEq κ] in
theorem not_mem_stored_init {r : ρ} : r ∉ CollDb.stored (⟨none, .empty, .empty⟩ : CollDb src) := by
  rintro (hmain | htemp)
  · cases hmain
  · cases htemp

theorem resting_init : CollDb.Resting minStartMts (⟨none, .empty, .empty⟩ : CollDb src) := by
  refine ⟨⟨fun hr => ?_, fun hr => ?_⟩, fun _ _ x hx => ?_, fun _ _ x hx => ?_, ?_⟩
  · exact (not_mem_stored_init hr).elim
  · exact (not_mem_stored_init hr).elim
  · cases hx
  · cases hx
  · constructor
    · intro hready
      cases hready
    · intro _
      rfl
    · intro _ _ hstart
      cases hstart
    · intro _ _ hstop
      cases hstop
    · intro _ hstart
      cases hstart
    · intro _ _ hstop
      cases hstop
    · intro _ _ _ hx
      cases hx
    · intro _ _ _ hstart
      cases hstart

/-- Over any runs, each of which may be interrupted anywhere but with a gap left in the
temporary table, the tables stay such that the next run makes up for what is missing. -/
theorem resting_of_reachable (hhour : 3660000 ≤ minStartMts)
    (hlimit : src.history.length < DataInserter.limit)
    (hs : (DataInserter.machine src minStartMts).Reachable (leavesNoGap minStartMts) db) :
    db.Resting minStartMts := by
  apply hs.invariant (I := CollDb.Resting minStartMts)
  · rintro _ rfl
    exact resting_init
  · intro db run db' h hgap hstep
    simp only [DataInserter.machine, Option.ite_none_right_eq_some, Option.some.injEq] at hstep
    obtain ⟨⟨hclock, hclock'⟩, rfl⟩ := hstep
    exact (runSync_resting hhour hlimit h hclock hclock' hgap).1

/-- Once a run finishes, after any runs before it, the main table has every record after the
default start up to the ends of the windows of the run, and up to 61 minutes before it. -/
theorem private_history_complete (hhour : 3660000 ≤ minStartMts)
    (hlimit : src.history.length < DataInserter.limit)
    (hs : (DataInserter.machine src minStartMts).Reachable (leavesNoGap minStartMts) db)
    (hclock : minStartMts < run.currMts) (hclock' : minStartMts < run.infoMts)
    (hfin : (DataInserter.runSync minStartMts db run).2 = .finished) :
    UpToDate minStartMts db run (DataInserter.runSync minStartMts db run).1 := by
  have h := resting_of_reachable hhour hlimit hs
  apply (runSync_resting hhour hlimit h hclock hclock' _).2 hfin
  intro hinterrupted
  cases hfin.symm.trans hinterrupted

/-- The main table has every record after the default start up to a date. -/
def HasUpTo (minStartMts : ℤ) (db : CollDb src) (mts : ℤ) : Prop :=
  ∀ r ∈ src.history, minStartMts < src.date r → src.date r ≤ mts → r ∈ db.main.contents

/-- The date up to which a run loads: its clock if it adds a fresh step.  It adds none if the
windows that are left end less than 61 minutes before it. -/
def loadedUpTo (minStartMts : ℤ) (db : CollDb src) (run : SyncRun) : ℤ :=
  if shouldFreshSyncBeAdded (lastSynced minStartMts db run.infoMts).1 run.currMts allowedDiff then
    run.currMts
  else run.currMts - 3660000

omit [DecidableEq κ] in
/-- What a run that is up to date leaves missing is newer than what it loads. -/
theorem UpToDate.hasUpTo {db' : CollDb src} (h : UpToDate minStartMts db run db') :
    HasUpTo minStartMts db' (loadedUpTo minStartMts db run) := by
  intro r hr hafter hle
  by_contra hnot
  obtain ⟨hrecent, hbehind⟩ := h r hr hafter hnot
  unfold loadedUpTo at hle
  split_ifs at hle with hfresh
  · have hmem : freshOf (lastSynced minStartMts db run.infoMts).1
        (lastSynced minStartMts db run.infoMts).2 run.currMts ∈
          DataInserter.stepsOf minStartMts db run := by
      rw [stepsOf_eq, hfresh]
      exact List.mem_append_right _ (List.mem_singleton_self _)
    have hlt : run.currMts < src.date r := (hbehind _ hmem).curr rfl
    omega
  · omega

/-- Once a run finishes, after any runs before it, the main table has every record up to
where the run loads. -/
theorem hasUpTo_of_finished (hhour : 3660000 ≤ minStartMts)
    (hlimit : src.history.length < DataInserter.limit)
    (hs : (DataInserter.machine src minStartMts).Reachable (leavesNoGap minStartMts) db)
    (hclock : minStartMts < run.currMts) (hclock' : minStartMts < run.infoMts)
    (hfin : (DataInserter.runSync minStartMts db run).2 = .finished) :
    HasUpTo minStartMts (DataInserter.runSync minStartMts db run).1
      (loadedUpTo minStartMts db run) := by
  have h := resting_of_reachable hhour hlimit hs
  apply UpToDate.hasUpTo
  apply (runSync_resting hhour hlimit h hclock hclock' _).2 hfin
  intro hinterrupted
  cases hfin.symm.trans hinterrupted

end Runs

/-- Three records, in pages of one. -/
def threePages (newest between oldest : ℤ)
    (h : 0 < oldest ∧ oldest < between ∧ between < newest) : PageSource ℤ ℤ where
  date := id
  key := some
  history := [newest, between, oldest]
  nextPage e := if between < e then some between else if oldest < e then some oldest else none
  newestFirst := by
    simp [Windows.NewestFirst]
    omega
  dated_pos hr := by
    simp only [List.mem_cons, List.not_mem_nil, or_false] at hr
    simp only [id]
    omega
  keyed _ := rfl
  distinct := by
    simp
    omega
  nextPage_lt hnext := by
    split_ifs at hnext with hlt hlt'
    · obtain rfl := Option.some.inj hnext
      exact hlt
    · obtain rfl := Option.some.inj hnext
      exact hlt'
  older hnext := by
    refine ⟨oldest, by simp, ?_⟩
    split_ifs at hnext <;> obtain rfl := Option.some.inj hnext
    · exact Int.le_of_lt h.2.1
    · exact Int.le_refl _
  no_empty_twice hnext _ := by
    split_ifs at hnext <;> obtain rfl := Option.some.inj hnext
    · apply List.ne_nil_of_mem (a := between)
      simp [ApiPages.page, Windows.window, h.2.1]
    · apply List.ne_nil_of_mem (a := oldest)
      simp [ApiPages.page, not_lt_of_gt h.2.1]

namespace ResumedWitness

def source : PageSource ℤ ℤ :=
  threePages 5000003 5000002 5000001 (by decide)

/-- A run that is interrupted after one page, and one that is not. -/
def interrupted : SyncRun := ⟨5000010, 5000010, 5000020, 2⟩

def resumed : SyncRun := ⟨9000000, 9000001, 9000020, 100⟩

def left : CollDb source :=
  (DataInserter.runSync 3660000 ⟨none, .empty, .empty⟩ interrupted).1

theorem reachable_left :
    (DataInserter.machine source 3660000).Reachable (leavesNoGap 3660000) left := by
  apply Machine.Reachable.step (Machine.Reachable.init rfl) (a := interrupted)
  · intro h
    exact absurd h (by decide +kernel)
  · rfl

theorem private_history_complete_of_resumed :
    UpToDate 3660000 left resumed (DataInserter.runSync 3660000 left resumed).1 :=
  private_history_complete (by decide) (by decide) reachable_left (by decide)
    (by decide) (by decide +kernel)

theorem hasUpTo_of_resumed :
    HasUpTo 3660000 (DataInserter.runSync 3660000 left resumed).1
      (loadedUpTo 3660000 left resumed) :=
  hasUpTo_of_finished (by decide) (by decide) reachable_left (by decide) (by decide)
    (by decide +kernel)

end ResumedWitness

namespace GapWitness

/-- The last two records are dated more than an hour after the first. -/
def source : PageSource ℤ ℤ :=
  threePages 1700005000002 1700005000001 1700000000001 (by decide)

def defaultStart : ℤ := 1356998400000

def start : CollDb source := ⟨none, .empty, .empty⟩

/-- A run that is interrupted after one page, and one within the hour that is not. -/
def paused : SyncRun := ⟨1700005000001, 1700005000001, 1700005000020, 2⟩

def resumed : SyncRun := ⟨1700006000000, 1700006000000, 1700006000020, 100⟩

def afterPaused : CollDb source := (DataInserter.runSync defaultStart start paused).1

/-- Two runs that are interrupted, the second one in the current window of its fresh step,
and one that is not. -/
def cuts : List SyncRun :=
  [⟨1700000000010, 1700000000010, 1700000000020, 2⟩,
    ⟨1700006000000, 1700006000000, 1700006000020, 7⟩]

def later : SyncRun := ⟨1700006000100, 1700006000100, 1700006000120, 100⟩

def afterCuts : CollDb source :=
  cuts.foldl (fun db run => (DataInserter.runSync defaultStart db run).1) start

/-- With both steps ready, the newest record is missing after the one run, and the record
before it after the other. -/
theorem not_hasUpTo_clock :
    ((DataInserter.machine source defaultStart).run Machine.free start [paused] =
        some afterPaused ∧
      (DataInserter.runSync defaultStart afterPaused resumed).2 = .finished ∧
      (DataInserter.runSync defaultStart afterPaused resumed).1.step.isBaseStepReady = true ∧
      (DataInserter.runSync defaultStart afterPaused resumed).1.step.isCurrStepReady = true ∧
      ¬ HasUpTo defaultStart (DataInserter.runSync defaultStart afterPaused resumed).1
        resumed.currMts) ∧
    (DataInserter.machine source defaultStart).run Machine.free start cuts = some afterCuts ∧
      (DataInserter.runSync defaultStart afterCuts later).2 = .finished ∧
      (DataInserter.runSync defaultStart afterCuts later).1.step.isBaseStepReady = true ∧
      (DataInserter.runSync defaultStart afterCuts later).1.step.isCurrStepReady = true ∧
      ¬ HasUpTo defaultStart (DataInserter.runSync defaultStart afterCuts later).1
        later.currMts := by
  refine ⟨⟨rfl, by decide +kernel, by decide +kernel, by decide +kernel, fun h => ?_⟩, rfl,
    by decide +kernel, by decide +kernel, by decide +kernel, fun h => ?_⟩
  · exact absurd (h 1700005000002 (by decide) (by decide) (by decide)) (by decide +kernel)
  · exact absurd (h 1700005000001 (by decide) (by decide) (by decide)) (by decide +kernel)

end GapWitness

end ReportsFramework.SyncSteps
