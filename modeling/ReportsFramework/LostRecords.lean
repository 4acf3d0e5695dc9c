/-
What is never loaded.  Once the steps of a collection are ready, a record that is missing
before a record of the main table is missing after all later runs: the next windows start
at the newest record, so a gap that was moved to the main table stays.
-/
import ReportsFramework.PrivateHistory

namespace ReportsFramework

namespace SyncSteps

open DataChecker SyncUserStepManager

variable {ρ κ : Type*} {src : PageSource ρ κ} {minStartMts : ℤ} {db db' : CollDb src} {r : ρ}

/-- No window that is loaded for a step reaches back to a date. -/
structure SyncUserStepData.StaysAfter (mts : ℤ) (d : SyncUserStepData) : Prop where
  base : d.isBaseStepReady = true
  curr {start} : d.isCurrStepReady = false → d.currStart = some start → mts < start

/-- A record is missing before a record of the main table, and the stored step does not
reach back to it. -/
structure Hole (r : ρ) (db : CollDb src) : Prop where
  known {x} : x ∈ db.stored → x ∈ src.history
  missing : r ∉ db.stored
  newer : ∃ x ∈ db.main.contents, src.date r < src.date x
  base : db.step.isBaseStepReady = true
  curr {start} : db.step.isCurrStepReady = false → db.step.currStart = some start →
    src.date r < start

/-- The newest record of the main table is not newer than what a fresh step starts at. -/
theorem le_lastSynced {x : ρ} (hx : x ∈ db.main.contents) (infoMts : ℤ) :
    ∃ last, (lastSynced minStartMts db infoMts).2 = some last ∧ src.date x ≤ last := by
  rw [lastSynced_snd]
  rcases tableDates_cases db.main with ⟨hmain, _⟩ | ⟨_, _, y, _, hdates, hle⟩
  · rw [hmain] at hx
    cases hx
  rw [hdates]
  cases (DataInserter.tableDates db.temp).last with
  | none => exact ⟨src.date y, rfl, (hle x hx).2⟩
  | some last => exact ⟨max last (src.date y), rfl, (hle x hx).2.trans (le_max_right _ _)⟩

/-- The steps of a run do not reach back either: they start at the newest record of the main
table, or where the stored step starts. -/
theorem Hole.stepsOf [DecidableEq κ] (h : Hole r db) (run : SyncRun) {d : SyncUserStepData}
    (hd : d ∈ DataInserter.stepsOf minStartMts db run) : d.StaysAfter (src.date r) := by
  obtain ⟨x, hx, hlt⟩ := h.newer
  have hnewest : ∃ last, (lastSynced minStartMts db run.infoMts).2 = some last ∧
      src.date x ≤ last := le_lastSynced hx run.infoMts
  obtain ⟨last, hlast, hle⟩ := hnewest
  have hfields := @lastSynced_of_some _ _ _ db minStartMts run.infoMts (.inl h.base)
  have hbase : (lastSynced minStartMts db run.infoMts).1.isBaseStepReady = true := by
    simp [hfields, h.base]
  rw [stepsOf_eq, hlast, List.mem_append] at hd
  rcases hd with hleft | hfresh
  · split_ifs at hleft
    · obtain rfl := List.mem_singleton.mp hleft
      refine ⟨hbase, ?_⟩
      intro start hcurr hstart
      have hstored : db.step.isCurrStepReady = false := by
        rw [← hcurr, hfields]
      have hleftStart : (lastSynced minStartMts db run.infoMts).1.currStart =
          (minMts [db.step.currStart, (DataInserter.tableDates db.main).last]).or
            (some minStartMts) := by
        rw [hfields]
        simp only [hstored, Bool.false_eq_true, if_false]
      rw [hleftStart] at hstart
      rcases tableDates_cases db.main with ⟨hmain, _⟩ | ⟨_, _, y, _, hdates, hle⟩
      · rw [hmain] at hx
        cases hx
      rw [hdates] at hstart
      have hy := (hle x hx).2
      cases hrow : db.step.currStart with
      | none =>
          rw [hrow] at hstart
          have hsame : src.date y = start := Option.some.inj hstart
          omega
      | some rowStart =>
          rw [hrow] at hstart
          have hsame : min rowStart (src.date y) = start := Option.some.inj hstart
          have hlt' := h.curr hstored hrow
          omega
    · cases hleft
  · split_ifs at hfresh
    · obtain rfl := List.mem_singleton.mp hfresh
      refine ⟨hbase, ?_⟩
      intro start _ hstart
      obtain rfl := Option.some.inj hstart
      omega
    · cases hfresh

section Runs

variable [DecidableEq κ] {d : SyncUserStepData} {writes : ℕ}

theorem addedFrom_insert {shouldBeSynced : Bool} {start stop : Option ℤ}
    {temp temp' : Sql.Table src.key} {left : Option ℕ}
    (htemp : ∀ r ∈ temp.contents, r ∈ src.history)
    (h : DataInserter.insertApiDataArrObjTypeToDb shouldBeSynced start stop writes temp =
      (temp', left)) : src.AddedFrom (start.getD 0) temp temp' := by
  unfold DataInserter.insertApiDataArrObjTypeToDb at h
  cases shouldBeSynced with
  | false =>
      obtain ⟨rfl, rfl⟩ := Prod.mk.inj h
      exact .refl _
  | true =>
      obtain ⟨rfl, rfl⟩ := Prod.mk.inj h
      exact PageSource.addedFrom_loopFor (s := ⟨stop.getD 0, 0, 0, 0, temp⟩) writes htemp

/-- The tables hold records of the history. -/
theorem known_insertApiData (h : ∀ x ∈ db.stored, x ∈ src.history)
    {res : Except Interruption (SyncUserStepData × ℕ)}
    (hres : DataInserter.insertApiData db d writes = (db', res)) :
    ∀ x ∈ db'.stored, x ∈ src.history := by
  have htemp : ∀ x ∈ db.temp.contents, x ∈ src.history := fun x hx => h x (.inr hx)
  rcases insertApiData_cases hres with ⟨rfl, _⟩ | ⟨_, temp, hbase, rfl, _⟩ |
    ⟨_, _, temp, temp', _, hbase, hcurr, rfl, _⟩
  · exact h
  · rintro x (hx | hx)
    · exact h x (.inl hx)
    · exact (addedFrom_insert htemp hbase).known htemp x hx
  · rintro x (hx | hx)
    · exact h x (.inl hx)
    · have hknown := (addedFrom_insert htemp hbase).known htemp
      exact (addedFrom_insert hknown hcurr).known hknown x hx

theorem known_insertSteps {steps done : List SyncUserStepData}
    (h : ∀ x ∈ db.stored, x ∈ src.history)
    {res : Except (ℕ × Interruption) (List SyncUserStepData × ℕ)}
    (hres : DataInserter.insertSteps db done steps writes = (db', res)) :
    ∀ x ∈ db'.stored, x ∈ src.history := by
  induction steps generalizing db done writes with
  | nil =>
      obtain ⟨rfl, _⟩ := Prod.mk.inj hres
      exact h
  | cons d rest ih =>
      rcases hins : DataInserter.insertApiData db d writes with ⟨db₁, e | left⟩
      · simp only [DataInserter.insertSteps, hins] at hres
        obtain ⟨rfl, _⟩ := Prod.mk.inj hres
        exact known_insertApiData h hins
      · simp only [DataInserter.insertSteps, hins] at hres
        exact ih (known_insertApiData h hins) hres

theorem stored_of_updateSyncInfo (h : ∀ x ∈ db.stored, x ∈ src.history)
    {start : List SyncUserStepData} {syncedAt : ℤ} {x : ρ}
    (hx : x ∈ (DataInserter.updateSyncInfo db start syncedAt).stored) : x ∈ db.stored := by
  rcases hx with hx | hx
  · exact (mem_main_updateSyncInfo h start syncedAt).mp hx
  · cases hx

theorem known_of_reachable (hs : (DataInserter.machine src minStartMts).Reachable Machine.free db) :
    ∀ x ∈ db.stored, x ∈ src.history := by
  apply hs.invariant (I := fun db => ∀ x ∈ CollDb.stored db, x ∈ src.history)
  · rintro _ rfl x hx
    exact (not_mem_stored_init hx).elim
  · intro db run db' h _ hstep
    simp only [DataInserter.machine, Option.ite_none_right_eq_some, Option.some.injEq] at hstep
    obtain ⟨_, rfl⟩ := hstep
    unfold DataInserter.runSync
    rcases hres : DataInserter.insertSteps db [] (DataInserter.stepsOf minStartMts db run)
      run.writes with ⟨db', e | ⟨start, _ | writes⟩⟩
    · exact known_insertSteps h hres
    · exact known_insertSteps h hres
    · have hknown := known_insertSteps h hres
      exact fun x hx => hknown x (stored_of_updateSyncInfo hknown hx)

/-- A step that does not reach back to the record leaves it missing. -/
theorem Hole.insertApiData (h : Hole r db) (hd : d.StaysAfter (src.date r))
    {res : Except Interruption (SyncUserStepData × ℕ)}
    (hres : DataInserter.insertApiData db d writes = (db', res)) : Hole r db' := by
  have htemp : ∀ x ∈ db.temp.contents, x ∈ src.history := fun x hx => h.known (.inr hx)
  have hnoBase : shouldBaseStepBeSynced d .none = false := shouldBase_of_ready hd.base
  rcases insertApiData_cases hres with ⟨rfl, _⟩ | ⟨_, _, hbase, _⟩ |
    ⟨_, _, temp, temp', _, hbase, hcurr, rfl, _⟩
  · exact h
  · rw [hnoBase, insert_of_ready] at hbase
    cases hbase
  rw [hnoBase, insert_of_ready] at hbase
  obtain ⟨rfl, _⟩ := Prod.mk.inj hbase
  have hadded := addedFrom_insert htemp hcurr
  have hmissing : r ∉ temp'.contents := by
    intro hr
    by_cases hshould : shouldCurrStepBeSynced d .none = true
    · obtain ⟨hnotReady, start, stop, hstart, _⟩ := window_of_shouldCurr hshould
      rcases hadded.added hr with hold | ⟨_, hle⟩
      · exact h.missing (.inr hold)
      · have hlt := hd.curr hnotReady hstart
        rw [hstart, Option.getD_some] at hle
        omega
    · rw [Bool.eq_false_iff.mpr hshould, insert_of_ready] at hcurr
      obtain ⟨rfl, _⟩ := Prod.mk.inj hcurr
      exact h.missing (.inr hr)
  exact {
    known := fun hx => known_insertApiData (fun _ hx => h.known hx) hres _ hx
    missing := by
      rintro (hr | hr)
      · exact h.missing (.inl hr)
      · exact hmissing hr
    newer := h.newer
    base := hd.base
    curr := hd.curr }

theorem Hole.insertSteps {steps done : List SyncUserStepData} (h : Hole r db)
    (hsteps : ∀ d ∈ steps, d.StaysAfter (src.date r))
    {res : Except (ℕ × Interruption) (List SyncUserStepData × ℕ)}
    (hres : DataInserter.insertSteps db done steps writes = (db', res)) : Hole r db' := by
  induction steps generalizing db done writes with
  | nil =>
      obtain ⟨rfl, _⟩ := Prod.mk.inj hres
      exact h
  | cons d rest ih =>
      rcases hins : DataInserter.insertApiData db d writes with ⟨db₁, e | left⟩
      · simp only [DataInserter.insertSteps, hins] at hres
        obtain ⟨rfl, _⟩ := Prod.mk.inj hres
        exact h.insertApiData (hsteps d List.mem_cons_self) hins
      · simp only [DataInserter.insertSteps, hins] at hres
        exact ih (h.insertApiData (hsteps d List.mem_cons_self) hins)
          (fun d' hd' => hsteps d' (List.mem_cons_of_mem d hd')) hres

theorem Hole.updateSyncInfo (h : Hole r db) (start : List SyncUserStepData) (syncedAt : ℤ) :
    Hole r (DataInserter.updateSyncInfo db start syncedAt) := by
  have hknown : ∀ x ∈ db.stored, x ∈ src.history := fun _ hx => h.known hx
  obtain ⟨x, hx, hlt⟩ := h.newer
  have hbase : (DataInserter.updateSyncInfo db start syncedAt).step.isBaseStepReady = true := by
    have hready := h.base
    unfold CollDb.step at hready ⊢
    unfold DataInserter.updateSyncInfo
    split_ifs
    · exact hready
    · simp [setSynced, hready]
  refine ⟨fun hy => h.known (stored_of_updateSyncInfo hknown hy),
    fun hr => h.missing (stored_of_updateSyncInfo hknown hr),
    ⟨x, (mem_main_updateSyncInfo hknown start syncedAt).mpr (.inl hx), hlt⟩, hbase, ?_⟩
  intro start' hcurr hstart
  unfold CollDb.step at hcurr hstart
  unfold DataInserter.updateSyncInfo at hcurr hstart
  split_ifs at hcurr hstart
  · exact h.curr hcurr hstart
  · exact h.curr (Bool.or_eq_false_iff.mp hcurr).1 hstart

/-- A run leaves the record missing, whatever is loaded and wherever it is interrupted. -/
theorem Hole.runSync (h : Hole r db) (run : SyncRun) :
    Hole r (DataInserter.runSync minStartMts db run).1 := by
  unfold DataInserter.runSync
  rcases hres : DataInserter.insertSteps db [] (DataInserter.stepsOf minStartMts db run) run.writes
    with ⟨db', e | ⟨start, _ | writes⟩⟩
  · exact h.insertSteps (fun d hd => h.stepsOf run hd) hres
  · exact h.insertSteps (fun d hd => h.stepsOf run hd) hres
  · exact (h.insertSteps (fun d hd => h.stepsOf run hd) hres).updateSyncInfo start run.syncedAt

/-- Once both steps are ready, a record that is missing before a record of the main table is
missing for good, whichever runs follow. -/
theorem hole_stays (hs : (DataInserter.machine src minStartMts).Reachable Machine.free db)
    (hbase : db.step.isBaseStepReady = true) (hcurr : db.step.isCurrStepReady = true)
    (hmain : r ∉ db.main.contents) (htemp : r ∉ db.temp.contents) {x : ρ}
    (hx : x ∈ db.main.contents) (hlt : src.date r < src.date x) {runs : List SyncRun}
    (hrun : (DataInserter.machine src minStartMts).run Machine.free db runs = some db') :
    r ∉ db'.main.contents ∧ r ∉ db'.temp.contents := by
  have h : Hole r db := by
    refine ⟨fun hy => known_of_reachable hs _ hy, ?_, ⟨x, hx, hlt⟩, hbase, ?_⟩
    · rintro (hr | hr)
      · exact hmain hr
      · exact htemp hr
    · intro start hnot
      rw [hcurr] at hnot
      cases hnot
  have h' : Hole r db' := by
    apply Machine.run_invariant (I := Hole r) _ h hrun
    intro db run db' h _ hstep
    simp only [DataInserter.machine, Option.ite_none_right_eq_some, Option.some.injEq] at hstep
    obtain ⟨_, rfl⟩ := hstep
    exact h.runSync run
  exact ⟨fun hr => h'.missing (.inl hr), fun hr => h'.missing (.inr hr)⟩

end Runs

namespace CutBehindWitness

def source : PageSource ℤ ℤ :=
  threePages 8000002 8000001 5000001 (by decide)

/-- Two runs that are interrupted, the second one in its fresh step, and one that is not. -/
def runs : List SyncRun :=
  [⟨5000010, 5000010, 5000020, 2⟩, ⟨9000000, 9000000, 9000020, 7⟩,
    ⟨9000100, 9000100, 9000120, 100⟩]

def start : CollDb source := ⟨none, .empty, .empty⟩

def synced : CollDb source :=
  runs.foldl (fun db run => (DataInserter.runSync 3660000 db run).1) start

def later : SyncRun := ⟨90000000, 90000000, 90000020, 100⟩

theorem reachable_synced :
    (DataInserter.machine source 3660000).Reachable Machine.free synced :=
  (Machine.Reachable.init rfl).run
    (show (DataInserter.machine source 3660000).run Machine.free start runs = some synced from rfl)

theorem run_later :
    (DataInserter.machine source 3660000).run Machine.free synced [later] =
      some (DataInserter.runSync 3660000 synced later).1 :=
  rfl

/-- The record dated 8000001 is lost. -/
theorem hole_stays_of_cut :
    (8000001 : ℤ) ∈ source.history ∧
      8000001 ∉ (DataInserter.runSync 3660000 synced later).1.main.contents ∧
        8000001 ∉ (DataInserter.runSync 3660000 synced later).1.temp.contents :=
  ⟨by decide, hole_stays (x := 8000002) reachable_synced (by decide +kernel)
    (by decide +kernel) (by decide +kernel) (by decide +kernel) (by decide +kernel) (by decide)
    run_later⟩

end CutBehindWitness

end SyncSteps

end ReportsFramework
