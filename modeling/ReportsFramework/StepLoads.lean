/-
The loads of one step.  Whatever page a step is interrupted after, the temporary table has
no gap and the stored step fits the tables, unless the window behind what is stored is cut.
-/
import ReportsFramework.SyncWindows

namespace ReportsFramework.SyncSteps

open Coverage DataChecker SyncUserStepManager

variable {ρ κ : Type*} {src : PageSource ρ κ} {minStartMts : ℤ} {db : CollDb src}

section Loads

variable {start stop low : ℤ} {temp' : Sql.Table src.key} {row : Option SyncUserStep}

/-- What is missing after a load was missing before. -/
theorem missing_of_loaded (hload : src.LoadedDownTo start stop low db.temp temp') :
    CollDb.missing minStartMts ⟨row, db.main, temp'⟩ ⊆ db.missing minStartMts := by
  rintro r ⟨hr, hafter, hnot⟩
  refine ⟨hr, hafter, ?_⟩
  rintro (hmain | htemp)
  · exact hnot (.inl hmain)
  · exact hnot (.inr (hload.kept htemp))

/-- What is missing behind the start of a window that is loaded is missing behind its
end. -/
theorem lt_of_loaded (hload : src.LoadedDownTo start stop start db.temp temp') {r : ρ}
    (hr : r ∈ CollDb.missing minStartMts ⟨row, db.main, temp'⟩) (hstart : start < src.date r) :
    stop < src.date r := by
  by_contra hstop
  exact hr.2.2 (.inr (hload.reached hr.1 hstart hstart (Int.not_lt.mp hstop)))

theorem within_of_loaded (h : db.Within minStartMts) (hstart : minStartMts ≤ start)
    (hload : src.LoadedDownTo start stop low db.temp temp') :
    CollDb.Within minStartMts ⟨row, db.main, temp'⟩ := by
  have hnew {r : ρ} (hr : r ∈ CollDb.stored ⟨row, db.main, temp'⟩) :
      r ∈ src.history ∧ minStartMts ≤ src.date r := by
    rcases hr with hmain | htemp
    · exact ⟨h.history (.inl hmain), h.start_le (.inl hmain)⟩
    · rcases hload.added htemp with hold | ⟨hmem, hafter, _⟩
      · exact ⟨h.history (.inr hold), h.start_le (.inr hold)⟩
      · exact ⟨hmem, hstart.trans hafter⟩
  exact ⟨fun hr => (hnew hr).1, fun hr => (hnew hr).2⟩

theorem mainComplete_of_loaded (h : db.MainComplete minStartMts)
    (hload : src.LoadedDownTo start stop low db.temp temp') :
    CollDb.MainComplete minStartMts ⟨row, db.main, temp'⟩ :=
  fun r hr x hx => h r (missing_of_loaded hload hr) x hx

/-- A window that meets the records found is loaded from its end on. -/
theorem splits_of_loaded (h : Splits src.date stop (db.missing minStartMts) db.found)
    (hstart : ∀ r ∈ db.missing minStartMts, start < src.date r)
    (hload : src.LoadedDownTo start stop low db.temp temp') :
    Splits src.date stop (CollDb.missing minStartMts ⟨row, db.main, temp'⟩)
      (CollDb.found ⟨row, db.main, temp'⟩) := by
  apply h.fill (missing_of_loaded hload)
  intro x hx
  rcases hload.added hx with hold | ⟨_, _, hstop, hlow⟩
  · exact .inl hold
  refine .inr ⟨hstop, ?_⟩
  intro r hr hle
  have hafter := hstart r (missing_of_loaded hload hr)
  by_contra hnot
  exact hr.2.2 (.inr (hload.reached hr.1 (by omega) hafter (Int.not_lt.mp hnot)))

variable [DecidableEq κ]

/-- A base window that is idle remains so while others are loaded. -/
theorem idle_of_loaded {baseStop : ℤ} (h : db.Idle minStartMts baseStop)
    (hload : src.LoadedDownTo start stop low db.temp temp') :
    CollDb.Idle minStartMts ⟨row, db.main, temp'⟩ baseStop where
  lt hr := h.lt (missing_of_loaded hload hr)
  exhausted := h.exhausted.mono fun _ hr => hload.kept hr

/-- The stored step still fits while one of its own windows is loaded. -/
theorem fits_of_loaded (h : db.Fits minStartMts) (hcurr : db.step.isCurrStepReady = false)
    (hload : src.LoadedDownTo start stop low db.temp temp')
    (hwindow : (db.step.isBaseStepReady = false ∧ db.step.baseEnd = some stop) ∨
      db.step.currEnd = some stop ∧
        (db.step.isBaseStepReady = true ∨ db.temp.contents ≠ [] ∨
          ∀ stop, db.step.baseEnd = some stop → db.Idle minStartMts stop)) :
    CollDb.Fits minStartMts ⟨db.row, db.main, temp'⟩ where
  ready := by
    intro htrue
    exact absurd (hcurr.symm.trans htrue) Bool.false_ne_true
  first := h.first
  baseStart := h.baseStart
  baseEnd := h.baseEnd
  currStart := h.currStart
  meets := by
    intro baseEnd hbase hend
    rcases h.meets hbase hend with ⟨x, hx, hle⟩ | hnil | hidle
    · exact .inl ⟨x, hload.kept hx, hle⟩
    · by_cases hnil' : temp'.contents = []
      · exact .inr (.inl hnil')
      obtain ⟨x, hx⟩ := List.exists_mem_of_ne_nil _ hnil'
      rcases hwindow with ⟨_, hstop⟩ | ⟨_, hbase' | hne | hidle⟩
      · left
        refine ⟨x, hx, ?_⟩
        have hsame : baseEnd = stop := Option.some.inj (hend.symm.trans hstop)
        rcases hload.added hx with hold | ⟨_, _, hle, _⟩
        · simp [hnil] at hold
        · omega
      · exact absurd (hbase.symm.trans hbase') Bool.false_ne_true
      · exact absurd hnil hne
      · exact .inr (.inr (idle_of_loaded (hidle baseEnd hend) hload))
    · exact .inr (.inr (idle_of_loaded hidle hload))
  before := by
    intro r x hr hx hle
    rcases hload.added hx with hold | ⟨_, _, hstop, _⟩
    · exact h.before (missing_of_loaded hload hr) hold hle
    rcases hwindow with ⟨hbase, hend⟩ | ⟨hend, _⟩
    · left
      refine ⟨hbase, ?_⟩
      intro baseEnd hend'
      have hsame : baseEnd = stop := Option.some.inj (hend'.symm.trans hend)
      omega
    · right
      intro currEnd hend'
      have hsame : currEnd = stop := Option.some.inj (hend'.symm.trans hend)
      omega
  after := fun hmain hstart hr => h.after hmain hstart (missing_of_loaded hload hr)

end Loads

section Steps

variable [DecidableEq κ] {start stop : ℤ} {temp temp' : Sql.Table src.key} {left : Option ℕ}
variable {writes : ℕ} {d : SyncUserStepData}

/-- A window that is exhausted adds nothing, and one that has been loaded is exhausted. -/
theorem exhausted_of_insert (htemp : ∀ r ∈ temp.contents, r ∈ src.history)
    (hwindow : start < stop)
    (h : DataInserter.insertApiDataArrObjTypeToDb (decide (start < stop)) (some start)
      (some stop) writes temp = (temp', left)) :
    (src.Exhausted start stop DataInserter.limit temp → ∀ x ∈ temp'.contents, x ∈ temp.contents) ∧
      (left.isSome = true → src.Exhausted start stop DataInserter.limit temp') := by
  unfold DataInserter.insertApiDataArrObjTypeToDb at h
  simp only [hwindow, decide_true, if_true, Option.getD_some] at h
  obtain ⟨rfl, rfl⟩ := Prod.mk.inj h
  refine ⟨fun hexhausted => hexhausted temp htemp (fun _ hr => hr) writes, ?_⟩
  intro hleft
  obtain ⟨pages, hpages⟩ := Option.isSome_iff_exists.mp hleft
  exact PageSource.exhausted_of_loopFor htemp (Prod.ext rfl hpages)

/-- A window that is not empty is loaded down to some date, and down to its start unless the
load is interrupted. -/
theorem loaded_of_insert (hlimit : src.history.length < DataInserter.limit)
    (htemp : ∀ r ∈ temp.contents, r ∈ src.history)
    (h : DataInserter.insertApiDataArrObjTypeToDb (decide (start < stop)) (some start)
      (some stop) writes temp = (temp', left)) :
    (∃ low, src.LoadedDownTo start stop low temp temp') ∧
      (left.isSome = true → src.LoadedDownTo start stop start temp temp') := by
  unfold DataInserter.insertApiDataArrObjTypeToDb at h
  by_cases hwindow : start < stop
  · simp only [hwindow, decide_true, if_true, Option.getD_some] at h
    obtain ⟨rfl, rfl⟩ := Prod.mk.inj h
    have hloading : src.Loading start stop temp ⟨stop, 0, 0, 0, temp⟩ :=
      ⟨Int.le_refl _, .inl rfl, .inr ⟨PageSource.LoadedDownTo.refl temp, rfl, Nat.zero_le _⟩⟩
    exact hloading.loopFor hlimit hwindow htemp writes
  · simp only [hwindow, decide_false, Bool.false_eq_true, if_false] at h
    obtain ⟨rfl, rfl⟩ := Prod.mk.inj h
    have hnothing : src.LoadedDownTo start stop stop temp temp := .refl temp
    refine ⟨⟨stop, hnothing⟩, fun _ => hnothing.atStart ?_⟩
    intro r _ hstart hstop
    omega

theorem insert_of_ready {start stop : Option ℤ} :
    DataInserter.insertApiDataArrObjTypeToDb false start stop writes temp =
      (temp, some writes) := by
  simp [DataInserter.insertApiDataArrObjTypeToDb]

theorem shouldBase_of_window (hready : d.isBaseStepReady = false)
    (hstart : d.baseStart = some start) (hstop : d.baseEnd = some stop) :
    shouldBaseStepBeSynced d .none = decide (start < stop) := by
  simp [shouldBaseStepBeSynced, CheckOpts.none, SyncUserStepData.hasBaseStep, hready, hstart, hstop]

theorem shouldCurr_of_window (hready : d.isCurrStepReady = false)
    (hstart : d.currStart = some start) (hstop : d.currEnd = some stop) :
    shouldCurrStepBeSynced d .none = decide (start < stop) := by
  simp [shouldCurrStepBeSynced, CheckOpts.none, SyncUserStepData.hasCurrStep, hready, hstart, hstop]

/-- A step that is to be synchronised has a window. -/
theorem window_of_shouldBase (h : shouldBaseStepBeSynced d .none = true) :
    d.isBaseStepReady = false ∧
      ∃ start stop, d.baseStart = some start ∧ d.baseEnd = some stop ∧ start < stop := by
  simp only [shouldBaseStepBeSynced, CheckOpts.none, SyncUserStepData.hasBaseStep,
    Bool.false_or, Bool.not_false, Bool.true_or, Bool.and_true, Bool.and_eq_true,
    Bool.not_eq_true', Option.any_eq_true, decide_eq_true_eq] at h
  obtain ⟨hready, start, hstart, stop, hstop, hlt⟩ := h
  exact ⟨hready, start, stop, hstart, hstop, hlt⟩

theorem window_of_shouldCurr (h : shouldCurrStepBeSynced d .none = true) :
    d.isCurrStepReady = false ∧
      ∃ start stop, d.currStart = some start ∧ d.currEnd = some stop ∧ start < stop := by
  simp only [shouldCurrStepBeSynced, CheckOpts.none, SyncUserStepData.hasCurrStep,
    Bool.false_or, Bool.not_false, Bool.true_or, Bool.and_true, Bool.and_eq_true,
    Bool.not_eq_true', Option.any_eq_true, decide_eq_true_eq] at h
  obtain ⟨hready, start, hstart, stop, hstop, hlt⟩ := h
  exact ⟨hready, start, stop, hstart, hstop, hlt⟩

theorem shouldBase_of_ready (hready : d.isBaseStepReady = true) :
    shouldBaseStepBeSynced d .none = false := by
  simp [shouldBaseStepBeSynced, hready]

theorem shouldCurr_of_none (hstart : d.currStart = none) :
    shouldCurrStepBeSynced d .none = false := by
  simp [shouldCurrStepBeSynced, CheckOpts.none, SyncUserStepData.hasCurrStep, hstart]

/-- What `insertApiData` may come to. -/
theorem insertApiData_cases {db' : CollDb src}
    {res : Except Interruption (SyncUserStepData × ℕ)}
    (h : DataInserter.insertApiData db d writes = (db', res)) :
    (db' = db ∧ res = .error .atFirst) ∨
    (∃ pages temp, DataInserter.insertApiDataArrObjTypeToDb (shouldBaseStepBeSynced d .none)
        d.baseStart d.baseEnd pages db.temp = (temp, none) ∧
      db' = ⟨some (updateSyncInfo db.row d), db.main, temp⟩ ∧ res = .error .inBase) ∨
    ∃ pages pages' temp temp' left,
      DataInserter.insertApiDataArrObjTypeToDb (shouldBaseStepBeSynced d .none)
        d.baseStart d.baseEnd pages db.temp = (temp, some pages') ∧
      DataInserter.insertApiDataArrObjTypeToDb (shouldCurrStepBeSynced d .none)
        d.currStart d.currEnd pages' temp = (temp', left) ∧
      db' = ⟨some (updateSyncInfo db.row d), db.main, temp'⟩ ∧
      ((left = none ∧ res = .error .inCurr) ∨
        ∃ writes', left = some writes' ∧ res = .ok
          ({ d with
              wasBaseStepsBeSynced := d.wasBaseStepsBeSynced || shouldBaseStepBeSynced d .none
              wasCurrStepsBeSynced := d.wasCurrStepsBeSynced || shouldCurrStepBeSynced d .none },
            writes')) := by
  cases writes with
  | zero =>
      obtain ⟨rfl, rfl⟩ := Prod.mk.inj h
      exact .inl ⟨rfl, rfl⟩
  | succ pages =>
      right
      simp only [DataInserter.insertApiData] at h
      rcases hbase : DataInserter.insertApiDataArrObjTypeToDb (shouldBaseStepBeSynced d .none)
        d.baseStart d.baseEnd pages db.temp with ⟨temp, _ | pages'⟩
      · rw [hbase] at h
        obtain ⟨rfl, rfl⟩ := Prod.mk.inj h
        exact .inl ⟨pages, temp, hbase, rfl, rfl⟩
      right
      rw [hbase] at h
      rcases hcurr : DataInserter.insertApiDataArrObjTypeToDb (shouldCurrStepBeSynced d .none)
        d.currStart d.currEnd pages' temp with ⟨temp', _ | writes'⟩
      · simp only [hcurr] at h
        obtain ⟨rfl, rfl⟩ := Prod.mk.inj h
        exact ⟨pages, pages', temp, temp', none, hbase, hcurr, rfl, .inl ⟨rfl, rfl⟩⟩
      · simp only [hcurr] at h
        obtain ⟨rfl, rfl⟩ := Prod.mk.inj h
        exact ⟨pages, pages', temp, temp', some writes', hbase, hcurr, rfl,
          .inr ⟨writes', rfl, rfl⟩⟩

end Steps

section LeftStep

variable [DecidableEq κ]
variable {d : SyncUserStepData} {last : ℤ} {start stop low : ℤ} {temp' : Sql.Table src.key}

/-- The base step that is left is not ready while something is missing before the records
found. -/
theorem notReady_of_before (h : db.Resting minStartMts) (hleft : Left minStartMts db d last)
    (hbase : db.step.isBaseStepReady = false) {r x : ρ} (hr : r ∈ db.missing minStartMts)
    (hx : x ∈ db.found) (hle : src.date r ≤ src.date x) : d.isBaseStepReady = false := by
  by_contra hnot
  have hready : d.isBaseStepReady = true := by simpa using hnot
  rcases hleft.ready hready with htrue | ⟨z, hz, hstart⟩
  · exact absurd (hbase.symm.trans htrue) Bool.false_ne_true
  · have hlt := h.gapless.lt_of_le hr hx hle hz
    have hafter := hr.2.1
    omega

/-- The step that is left fits the tables once it is stored. -/
theorem fits_written (h : db.Resting minStartMts) (hleft : Left minStartMts db d last)
    (hcurr : db.step.isCurrStepReady = false) :
    CollDb.Fits minStartMts ⟨some (updateSyncInfo db.row d), db.main, db.temp⟩ where
  ready := by
    intro htrue
    exact absurd ((hleft.isCurr.trans hcurr).symm.trans htrue) Bool.false_ne_true
  first := fun hbase => h.fits.first (hleft.base hbase).1
  baseStart := by
    intro start hbase hstart
    exact (Option.some.inj ((hleft.base hbase).2.1.symm.trans hstart)).symm
  baseEnd := by
    intro stop hbase hstop
    obtain ⟨_, _, stop', hstop', hlt, _⟩ := hleft.base hbase
    obtain rfl := Option.some.inj (hstop'.symm.trans hstop)
    exact hlt
  currStart := by
    intro start hstart
    rcases hleft.curr hcurr with ⟨_, _, hnone, _⟩ | ⟨_, start', _, hstart', _, hle, _⟩
    · cases hnone.symm.trans hstart
    · obtain rfl := Option.some.inj (hstart'.symm.trans hstart)
      exact hle
  meets := by
    intro stop hbase hstop
    obtain ⟨_, _, stop', hstop', _, _, _, hmeets⟩ := hleft.base hbase
    obtain rfl := Option.some.inj (hstop'.symm.trans hstop)
    exact hmeets.imp id (Or.imp id fun hidle => ⟨hidle.lt, hidle.exhausted⟩)
  before := by
    intro r x hr hx hle
    have hall : ∀ y ∈ db.found, src.date r < src.date y :=
      fun y hy => h.gapless.lt_of_le hr hx hle hy
    have hne : db.temp.contents ≠ [] := List.ne_nil_of_mem hx
    rcases h.fits.before hr hx hle with ⟨hbase, hend⟩ | hend
    · left
      have hnotReady := notReady_of_before h hleft hbase hr hx hle
      obtain ⟨_, _, stop, hstop, _, _, hbefore, _⟩ := hleft.base hnotReady
      refine ⟨hnotReady, ?_⟩
      intro stop' hstop'
      obtain rfl := Option.some.inj (hstop.symm.trans hstop')
      exact (hbefore r hr hall hend).resolve_left hne
    · right
      intro stop' hstop'
      rcases hleft.curr hcurr with ⟨_, hnil, _⟩ | ⟨_, _, stop, _, hstop, _, _, _, hbefore⟩
      · exact absurd hnil hne
      · obtain rfl := Option.some.inj (hstop.symm.trans hstop')
        exact (hbefore r hr hall hend).resolve_left hne
  after := by
    intro start r _ hstart hr
    rcases hleft.curr hcurr with ⟨_, _, hnone, _⟩ | ⟨_, start', _, hstart', _, _, hafter, _⟩
    · cases hnone.symm.trans hstart
    · obtain rfl := Option.some.inj (hstart'.symm.trans hstart)
      exact hafter r hr

/-- The base window meets the records found, or is idle. -/
theorem splits_base (h : db.Resting minStartMts) (hleft : Left minStartMts db d last)
    (hbase : d.isBaseStepReady = false) (hstop : d.baseEnd = some stop) :
    Splits src.date stop (db.missing minStartMts) db.found ∨ db.Idle minStartMts stop := by
  obtain ⟨_, _, stop', hstop', _, hfound, _, hmeets⟩ := hleft.base hbase
  obtain rfl := Option.some.inj (hstop'.symm.trans hstop)
  rcases hmeets with ⟨z, hz, hle⟩ | hnil | hidle
  · left
    apply h.gapless.splits hfound
    intro r hr x hx hrx
    have hlt := h.gapless.lt_of_le hr hx hrx hz
    omega
  · left
    intro r _ x hx
    simp [CollDb.found, hnil] at hx
  · exact .inr hidle

/-- The base window is loaded, as far as the run goes. -/
theorem resting_of_base (h : db.Resting minStartMts) (hleft : Left minStartMts db d last)
    (hcurr : db.step.isCurrStepReady = false) (hbase : d.isBaseStepReady = false)
    (hstop : d.baseEnd = some stop)
    (hload : src.LoadedDownTo minStartMts stop low db.temp temp')
    (hnothing : src.Exhausted minStartMts stop DataInserter.limit db.temp →
      ∀ x ∈ temp'.contents, x ∈ db.temp.contents) :
    CollDb.Resting minStartMts ⟨some (updateSyncInfo db.row d), db.main, temp'⟩ where
  within := within_of_loaded h.within (Int.le_refl _) hload
  main := mainComplete_of_loaded h.main hload
  gapless := by
    rcases splits_base h hleft hbase hstop with hsplits | hidle
    · exact (splits_of_loaded hsplits (fun r hr => hr.2.1) hload).gapless
    · exact h.gapless.mono (missing_of_loaded hload) (hnothing hidle.exhausted)
  fits := by
    apply fits_of_loaded (fits_written h hleft hcurr) (hleft.isCurr.trans hcurr) hload
    exact .inl ⟨hbase, hstop⟩

/-- The temporary table once the base window is loaded, if there is one to load. -/
structure BaseLoaded (minStartMts : ℤ) (db : CollDb src) (d : SyncUserStepData)
    (temp₁ : Sql.Table src.key) : Prop where
  resting : CollDb.Resting minStartMts ⟨some (updateSyncInfo db.row d), db.main, temp₁⟩
  missing : CollDb.missing minStartMts ⟨some (updateSyncInfo db.row d), db.main, temp₁⟩ ⊆
    db.missing minStartMts
  kept {x} : x ∈ db.found → x ∈ temp₁.contents
  added {x} : x ∈ temp₁.contents → x ∈ db.found ∨
    ∃ stop, d.baseEnd = some stop ∧ d.isBaseStepReady = false ∧ src.date x ≤ stop
  meets : (∀ x ∈ temp₁.contents, x ∈ db.found) ∨ db.temp.contents = [] ∨
    ∃ z ∈ db.found, ∃ stop, d.baseEnd = some stop ∧ d.isBaseStepReady = false ∧ src.date z ≤ stop
  done {stop r} : d.isBaseStepReady = false → d.baseEnd = some stop →
    r ∈ CollDb.missing minStartMts ⟨some (updateSyncInfo db.row d), db.main, temp₁⟩ →
      stop < src.date r
  exhausted {baseStop} : d.isBaseStepReady = false → d.baseEnd = some baseStop →
    src.Exhausted minStartMts baseStop DataInserter.limit temp₁

theorem baseLoaded_of_ready (h : db.Resting minStartMts) (hleft : Left minStartMts db d last)
    (hcurr : db.step.isCurrStepReady = false) (hbase : d.isBaseStepReady = true) :
    BaseLoaded minStartMts db d db.temp where
  resting := ⟨⟨h.within.history, h.within.start_le⟩, h.main, h.gapless,
    fits_written h hleft hcurr⟩
  missing := fun _ hr => hr
  kept := id
  added := .inl
  meets := .inl fun _ hx => hx
  done := fun hfalse => absurd (hfalse.symm.trans hbase) Bool.false_ne_true
  exhausted := fun hfalse => absurd (hfalse.symm.trans hbase) Bool.false_ne_true

theorem baseLoaded_of_loaded (h : db.Resting minStartMts) (hleft : Left minStartMts db d last)
    (hcurr : db.step.isCurrStepReady = false) (hbase : d.isBaseStepReady = false)
    (hstop : d.baseEnd = some stop)
    (hload : src.LoadedDownTo minStartMts stop minStartMts db.temp temp')
    (hnothing : src.Exhausted minStartMts stop DataInserter.limit db.temp →
      ∀ x ∈ temp'.contents, x ∈ db.temp.contents)
    (hexhausted : src.Exhausted minStartMts stop DataInserter.limit temp') :
    BaseLoaded minStartMts db d temp' where
  resting := resting_of_base h hleft hcurr hbase hstop hload hnothing
  missing := missing_of_loaded hload
  kept := hload.kept
  added := by
    intro x hx
    rcases hload.added hx with hold | ⟨_, _, hle, _⟩
    · exact .inl hold
    · exact .inr ⟨stop, hstop, hbase, hle⟩
  meets := by
    obtain ⟨_, _, stop', hstop', _, _, _, hmeets⟩ := hleft.base hbase
    obtain rfl := Option.some.inj (hstop'.symm.trans hstop)
    rcases hmeets with ⟨z, hz, hle⟩ | hnil | hidle
    · exact .inr (.inr ⟨z, hz, stop', hstop, hbase, hle⟩)
    · exact .inr (.inl hnil)
    · exact .inl (hnothing hidle.exhausted)
  done := by
    intro stop' r _ hstop' hr
    obtain rfl := Option.some.inj (hstop.symm.trans hstop')
    exact lt_of_loaded hload hr hr.2.1
  exhausted := by
    intro stop' _ hstop'
    obtain rfl := Option.some.inj (hstop.symm.trans hstop')
    exact hexhausted

variable {temp₁ temp₂ : Sql.Table src.key}

/-- What is missing up to a record of the temporary table is in the current window, once
the base window is loaded. -/
theorem le_currEnd (h : db.Resting minStartMts) (hleft : Left minStartMts db d last)
    (hcurr : db.step.isCurrStepReady = false) (hb : BaseLoaded minStartMts db d temp₁)
    (hstop : d.currEnd = some stop) {r x : ρ}
    (hr : r ∈ CollDb.missing minStartMts ⟨some (updateSyncInfo db.row d), db.main, temp₁⟩)
    (hx : x ∈ db.found) (hle : src.date r ≤ src.date x) : src.date r ≤ stop := by
  have hr' := hb.missing hr
  have hall : ∀ y ∈ db.found, src.date r < src.date y :=
    fun y hy => h.gapless.lt_of_le hr' hx hle hy
  have hne : db.temp.contents ≠ [] := List.ne_nil_of_mem hx
  rcases h.fits.before hr' hx hle with ⟨hbase, hend⟩ | hend
  · have hnotReady := notReady_of_before h hleft hbase hr' hx hle
    obtain ⟨_, _, baseEnd, hbaseEnd, _, _, hbefore, _⟩ := hleft.base hnotReady
    have hlt := hb.done hnotReady hbaseEnd hr
    have hge := (hbefore r hr' hall hend).resolve_left hne
    omega
  · rcases hleft.curr hcurr with ⟨_, hnil, _⟩ | ⟨_, _, stop', _, hstop', _, _, _, hbefore⟩
    · exact absurd hnil hne
    · obtain rfl := Option.some.inj (hstop'.symm.trans hstop)
      exact (hbefore r hr' hall hend).resolve_left hne

/-- The current window meets the records found. -/
theorem splits_curr (h : db.Resting minStartMts) (hleft : Left minStartMts db d last)
    (hcurr : db.step.isCurrStepReady = false) (hb : BaseLoaded minStartMts db d temp₁)
    (hstop : d.currEnd = some stop) :
    Splits src.date stop
      (CollDb.missing minStartMts ⟨some (updateSyncInfo db.row d), db.main, temp₁⟩)
      (CollDb.found ⟨some (updateSyncInfo db.row d), db.main, temp₁⟩) := by
  rcases hleft.curr hcurr with ⟨_, _, _, hnone⟩ | ⟨hne, _, stop', _, hstop', _, _, hfound, _⟩
  · cases hnone.symm.trans hstop
  obtain rfl := Option.some.inj (hstop'.symm.trans hstop)
  have hold : Splits src.date stop'
      (CollDb.missing minStartMts ⟨some (updateSyncInfo db.row d), db.main, temp₁⟩) db.found := by
    apply (h.gapless.mono hb.missing Set.Subset.rfl).splits hfound
    intro r hr x hx hle
    exact le_currEnd h hleft hcurr hb hstop hr hx hle
  intro r hr x hx
  rcases hb.added hx with hx' | ⟨baseEnd, hbaseEnd, hbase, hle⟩
  · exact hold r hr x hx'
  rcases hb.meets with hsame | hnil | ⟨z, hz, baseEnd', hbaseEnd', _, hzle⟩
  · exact hold r hr x (hsame x hx)
  · exact absurd hnil (hne hbase)
  · -- the base window reaches the records found, and nothing is missing before its end
    obtain rfl := Option.some.inj (hbaseEnd.symm.trans hbaseEnd')
    have hlt := hb.done hbase hbaseEnd hr
    have hz' := hfound z hz
    constructor
    · intro _
      omega
    · intro _
      omega

/-- The current window is loaded, as far as the run goes. -/
theorem resting_of_curr (h : db.Resting minStartMts) (hleft : Left minStartMts db d last)
    (hcurr : db.step.isCurrStepReady = false)
    (hb : BaseLoaded minStartMts db d temp₁) (hstart : d.currStart = some start)
    (hstop : d.currEnd = some stop) (hload : src.LoadedDownTo start stop low temp₁ temp₂) :
    CollDb.Resting minStartMts ⟨some (updateSyncInfo db.row d), db.main, temp₂⟩ := by
  rcases hleft.curr hcurr with ⟨_, _, hnone, _⟩ | ⟨hne, start', _, hstart', _, hle, hafter, _⟩
  · cases hnone.symm.trans hstart
  obtain rfl := Option.some.inj (hstart'.symm.trans hstart)
  have hload' : src.LoadedDownTo start' stop low
      (CollDb.mk (some (updateSyncInfo db.row d)) db.main temp₁).temp temp₂ := hload
  constructor
  · exact (within_of_loaded hb.resting.within hle hload' :)
  · exact (mainComplete_of_loaded hb.resting.main hload' :)
  · have hsplits := splits_curr h hleft hcurr hb hstop
    exact (splits_of_loaded hsplits (fun r hr => hafter r (hb.missing hr)) hload').gapless
  · apply fits_of_loaded hb.resting.fits (hleft.isCurr.trans hcurr) hload'
    right
    refine ⟨hstop, ?_⟩
    cases hbase : d.isBaseStepReady with
    | true => exact .inl hbase
    | false =>
        right
        left
        obtain ⟨x, hx⟩ := List.exists_mem_of_ne_nil _ (hne hbase)
        exact List.ne_nil_of_mem (hb.kept hx)

/-- The temporary table once the step that is left is loaded: whatever is missing is newer
than all that is stored, and not in a window of the step. -/
structure LeftLoaded (minStartMts : ℤ) (db : CollDb src) (d : SyncUserStepData) (last : ℤ)
    (temp₂ : Sql.Table src.key) : Prop where
  resting : CollDb.Resting minStartMts ⟨some (updateSyncInfo db.row d), db.main, temp₂⟩
  complete : CollDb.AllComplete minStartMts ⟨some (updateSyncInfo db.row d), db.main, temp₂⟩
  last_lt {r} : r ∈ CollDb.missing minStartMts ⟨some (updateSyncInfo db.row d), db.main, temp₂⟩ →
    last < src.date r
  base {stop r} : d.isBaseStepReady = false → d.baseEnd = some stop →
    r ∈ CollDb.missing minStartMts ⟨some (updateSyncInfo db.row d), db.main, temp₂⟩ →
      stop < src.date r
  curr {stop r} : d.currEnd = some stop →
    r ∈ CollDb.missing minStartMts ⟨some (updateSyncInfo db.row d), db.main, temp₂⟩ →
      stop < src.date r
  exhausted {baseStop} : d.isBaseStepReady = false → d.baseEnd = some baseStop →
    src.Exhausted minStartMts baseStop DataInserter.limit temp₂

/-- The step that is left has been loaded. -/
theorem leftLoaded (h : db.Resting minStartMts) (hleft : Left minStartMts db d last)
    (hcurr : db.step.isCurrStepReady = false) (hb : BaseLoaded minStartMts db d temp₁)
    (hresting : CollDb.Resting minStartMts ⟨some (updateSyncInfo db.row d), db.main, temp₂⟩)
    (hkept : ∀ x ∈ temp₁.contents, x ∈ temp₂.contents)
    (hadded : ∀ x ∈ temp₂.contents, x ∈ temp₁.contents ∨
      ∃ stop, d.currEnd = some stop ∧ src.date x ≤ stop)
    (hdone : ∀ stop, d.currEnd = some stop → ∀ r ∈ CollDb.missing minStartMts
      ⟨some (updateSyncInfo db.row d), db.main, temp₂⟩, stop < src.date r) :
    LeftLoaded minStartMts db d last temp₂ := by
  have hmissing : CollDb.missing minStartMts ⟨some (updateSyncInfo db.row d), db.main, temp₂⟩ ⊆
      CollDb.missing minStartMts ⟨some (updateSyncInfo db.row d), db.main, temp₁⟩ := by
    rintro r ⟨hr, hafter, hnot⟩
    exact ⟨hr, hafter, fun hold => hnot (hold.imp id (hkept r))⟩
  have hfound {r x : ρ} (hr : r ∈ CollDb.missing minStartMts
      ⟨some (updateSyncInfo db.row d), db.main, temp₂⟩) (hx : x ∈ db.found) :
      src.date x < src.date r := by
    by_contra hle
    rcases hleft.curr hcurr with ⟨_, hnil, _⟩ | ⟨_, _, stop, _, hstop, _⟩
    · simp [CollDb.found, hnil] at hx
    · have hle' := le_currEnd h hleft hcurr hb hstop (hmissing hr) hx (Int.not_lt.mp hle)
      have hlt := hdone stop hstop r hr
      omega
  have hcomplete : CollDb.AllComplete minStartMts
      ⟨some (updateSyncInfo db.row d), db.main, temp₂⟩ := by
    rintro r hr x (hx | hx)
    · exact h.main r (hb.missing (hmissing hr)) x hx
    rcases hadded x hx with hx' | ⟨stop, hstop, hle⟩
    · rcases hb.added hx' with hold | ⟨stop, hstop, hbase, hle⟩
      · exact hfound hr hold
      · have hlt := hb.done hbase hstop (hmissing hr)
        omega
    · have hlt := hdone stop hstop r hr
      omega
  refine ⟨hresting, hcomplete, ?_, ?_, fun hstop hr => hdone _ hstop _ hr,
    fun hbase hstop => (hb.exhausted hbase hstop).mono hkept⟩
  · intro r hr
    apply hleft.last_lt (hb.missing (hmissing hr))
    rintro x (hx | hx)
    · exact hcomplete r hr x (.inl hx)
    · exact hfound hr hx
  · intro stop r hbase hstop hr
    exact hb.done hbase hstop (hmissing hr)

variable {writes : ℕ} {db' : CollDb src} {res : Except Interruption (SyncUserStepData × ℕ)}

/-- What a load of the base window comes to. -/
theorem left_of_load (h : db.Resting minStartMts) (hleft : Left minStartMts db d last)
    (hcurr : db.step.isCurrStepReady = false)
    (hlimit : src.history.length < DataInserter.limit) {pages : ℕ} {temp₁ : Sql.Table src.key}
    {left : Option ℕ}
    (hload : DataInserter.insertApiDataArrObjTypeToDb (shouldBaseStepBeSynced d .none)
      d.baseStart d.baseEnd pages db.temp = (temp₁, left)) :
    (left = none →
        CollDb.Resting minStartMts ⟨some (updateSyncInfo db.row d), db.main, temp₁⟩) ∧
      (left.isSome = true → BaseLoaded minStartMts db d temp₁) := by
  have htemp : ∀ r ∈ db.temp.contents, r ∈ src.history := fun r hr => h.within.history (.inr hr)
  cases hbase : d.isBaseStepReady with
  | true =>
      rw [shouldBase_of_ready hbase, insert_of_ready] at hload
      obtain ⟨rfl, rfl⟩ := Prod.mk.inj hload
      exact ⟨fun hnone => (Option.some_ne_none _ hnone).elim,
        fun _ => baseLoaded_of_ready h hleft hcurr hbase⟩
  | false =>
      obtain ⟨_, hstart, stop, hstop, hwindow, _⟩ := hleft.base hbase
      rw [shouldBase_of_window hbase hstart hstop, hstart, hstop] at hload
      obtain ⟨⟨low, hlow⟩, hdone⟩ := loaded_of_insert hlimit htemp hload
      obtain ⟨hnothing, hexhausted⟩ := exhausted_of_insert htemp hwindow hload
      exact ⟨fun _ => resting_of_base h hleft hcurr hbase hstop hlow hnothing, fun hsome =>
        baseLoaded_of_loaded h hleft hcurr hbase hstop (hdone hsome) hnothing (hexhausted hsome)⟩

/-- The step that is left is inserted, as far as the run goes. -/
theorem insertApiData_left (h : db.Resting minStartMts) (hleft : Left minStartMts db d last)
    (hcurr : db.step.isCurrStepReady = false)
    (hlimit : src.history.length < DataInserter.limit)
    (hres : DataInserter.insertApiData db d writes = (db', res)) :
    (∀ e, res = .error e → db'.Resting minStartMts) ∧
      ∀ left, res = .ok left → ∃ temp₂, db' = ⟨some (updateSyncInfo db.row d), db.main, temp₂⟩ ∧
        LeftLoaded minStartMts db d last temp₂ := by
  have hready := hleft.isCurr.trans hcurr
  rcases insertApiData_cases hres with ⟨rfl, rfl⟩ | ⟨pages, temp₁, hload, rfl, rfl⟩ |
    ⟨pages, pages', temp₁, temp₂, left, hload, hload', rfl, hleftRes⟩
  · exact ⟨fun _ _ => h, fun _ hok => (by cases hok)⟩
  · have hrest := (left_of_load h hleft hcurr hlimit hload).1 rfl
    exact ⟨fun _ _ => hrest, fun _ hok => (by cases hok)⟩
  have hb := (left_of_load h hleft hcurr hlimit hload).2 rfl
  have htemp₁ : ∀ r ∈ temp₁.contents, r ∈ src.history :=
    fun r hr => hb.resting.within.history (.inr hr)
  rcases hleft.curr hcurr with ⟨_, _, hnone, hnone'⟩ | ⟨_, start, stop, hstart, hstop, _, hafter, _⟩
  · -- there is no current window
    rw [shouldCurr_of_none hnone, insert_of_ready] at hload'
    obtain ⟨rfl, rfl⟩ := Prod.mk.inj hload'
    rcases hleftRes with ⟨hfalse, _⟩ | ⟨_, _, rfl⟩
    · cases hfalse
    refine ⟨fun _ herror => (by cases herror), fun _ _ => ⟨temp₁, rfl, ?_⟩⟩
    apply leftLoaded h hleft hcurr hb hb.resting (fun _ hx => hx) (fun _ hx => .inl hx)
    intro stop hstop
    cases hnone'.symm.trans hstop
  · rw [shouldCurr_of_window hready hstart hstop, hstart, hstop] at hload'
    obtain ⟨⟨low, hlow⟩, hdone⟩ := loaded_of_insert hlimit htemp₁ hload'
    have hresting := resting_of_curr h hleft hcurr hb hstart hstop hlow
    rcases hleftRes with ⟨rfl, rfl⟩ | ⟨writes', rfl, rfl⟩
    · exact ⟨fun _ _ => hresting, fun _ hok => (by cases hok)⟩
    refine ⟨fun _ herror => (by cases herror), fun _ _ => ⟨temp₂, rfl, ?_⟩⟩
    have hload₂ := hdone rfl
    apply leftLoaded h hleft hcurr hb hresting (fun _ hx => hload₂.kept hx)
    · intro x hx
      rcases hload₂.added hx with hold | ⟨_, _, hle, _⟩
      · exact .inl hold
      · exact .inr ⟨stop, hstop, hle⟩
    · intro stop' hstop' r hr
      obtain rfl := Option.some.inj (hstop.symm.trans hstop')
      have hsub : r ∈ CollDb.missing minStartMts
          ⟨some (updateSyncInfo db.row d), db.main, temp₁⟩ :=
        ⟨hr.1, hr.2.1, fun hold => hr.2.2 (hold.imp id hload₂.kept)⟩
      have hlate := hafter r (hb.missing hsub)
      by_contra hnot
      exact hr.2.2 (.inr (hload₂.reached hr.1 hlate hlate (Int.not_lt.mp hnot)))

end LeftStep

section FreshStep

variable [DecidableEq κ]
variable {d : SyncUserStepData} {last currMts start stop low : ℤ} {temp' : Sql.Table src.key}

/-- A fresh step is to be inserted: what is missing is newer than all that is stored, and
not in the base window that comes with the step. -/
structure FreshReady (minStartMts : ℤ) (db : CollDb src) (d : SyncUserStepData)
    (last currMts : ℤ) : Prop where
  resting : db.Resting minStartMts
  complete : db.AllComplete minStartMts
  notReady : d.isCurrStepReady = false
  currStart : d.currStart = some last
  currEnd : d.currEnd = some currMts
  start_le : minStartMts ≤ last
  last_lt {r} : r ∈ db.missing minStartMts → last < src.date r
  base : d.isBaseStepReady = false → db.main.contents = [] ∧ d.baseStart = some minStartMts ∧
    ∃ stop, d.baseEnd = some stop ∧ minStartMts < stop ∧ db.Idle minStartMts stop

theorem fits_fresh (h : FreshReady minStartMts db d last currMts) :
    CollDb.Fits minStartMts ⟨some (updateSyncInfo db.row d), db.main, db.temp⟩ where
  ready := by
    intro htrue
    exact absurd (h.notReady.symm.trans htrue) Bool.false_ne_true
  first := fun hbase => (h.base hbase).1
  baseStart := by
    intro start hbase hstart
    exact (Option.some.inj ((h.base hbase).2.1.symm.trans hstart)).symm
  baseEnd := by
    intro stop hbase hstop
    obtain ⟨_, _, stop', hstop', hlt, _⟩ := h.base hbase
    obtain rfl := Option.some.inj (hstop'.symm.trans hstop)
    exact hlt
  currStart := by
    intro start hstart
    have hsame := Option.some.inj (h.currStart.symm.trans hstart)
    exact hsame ▸ h.start_le
  meets := by
    intro stop hbase hstop
    obtain ⟨_, _, stop', hstop', _, hidle⟩ := h.base hbase
    obtain rfl := Option.some.inj (hstop'.symm.trans hstop)
    exact .inr (.inr ⟨hidle.lt, hidle.exhausted⟩)
  before := by
    intro r x hr hx hle
    have hlt := h.complete r hr x (.inr hx)
    omega
  after := by
    intro start r _ hstart hr
    have hsame := Option.some.inj (h.currStart.symm.trans hstart)
    exact hsame ▸ h.last_lt hr

/-- The base window of a fresh step adds nothing. -/
theorem freshReady_of_base (h : FreshReady minStartMts db d last currMts)
    (hbase : d.isBaseStepReady = false) (hstop : d.baseEnd = some stop)
    (hload : src.LoadedDownTo minStartMts stop low db.temp temp')
    (hnothing : src.Exhausted minStartMts stop DataInserter.limit db.temp →
      ∀ x ∈ temp'.contents, x ∈ db.temp.contents) :
    FreshReady minStartMts ⟨some (updateSyncInfo db.row d), db.main, temp'⟩ d last currMts ∧
      (CollDb.missing minStartMts ⟨some (updateSyncInfo db.row d), db.main, temp'⟩ ⊆
        db.missing minStartMts) ∧
      (db.temp.contents = [] → temp'.contents = []) := by
  obtain ⟨hmain, hstart, stop', hstop', hlt, hidle⟩ := h.base hbase
  obtain rfl := Option.some.inj (hstop'.symm.trans hstop)
  have hfound : CollDb.found ⟨some (updateSyncInfo db.row d), db.main, temp'⟩ ⊆ db.found :=
    hnothing hidle.exhausted
  have hmissing : CollDb.missing minStartMts ⟨some (updateSyncInfo db.row d), db.main, temp'⟩ ⊆
      db.missing minStartMts := missing_of_loaded hload
  refine ⟨⟨⟨?_, ?_, ?_, ?_⟩, ?_, h.notReady, h.currStart, h.currEnd, h.start_le, ?_, ?_⟩,
    hmissing, ?_⟩
  · exact within_of_loaded h.resting.within (Int.le_refl _) hload
  · exact mainComplete_of_loaded h.resting.main hload
  · exact h.resting.gapless.mono hmissing hfound
  · exact (fits_of_loaded (fits_fresh h) h.notReady hload (.inl ⟨hbase, hstop'⟩) :)
  · rintro r hr x (hx | hx)
    · exact h.complete r (hmissing hr) x (.inl hx)
    · exact h.complete r (hmissing hr) x (.inr (hfound hx))
  · exact fun hr => h.last_lt (hmissing hr)
  · intro _
    exact ⟨hmain, hstart, stop', hstop', hlt, idle_of_loaded hidle hload⟩
  · intro hnil
    apply List.eq_nil_iff_forall_not_mem.mpr
    intro x hx
    have hold : x ∈ db.temp.contents := hfound hx
    simp [hnil] at hold

section CurrWindow

variable {row : Option SyncUserStep}

/-- A current window that is loaded on its way leaves the step at rest, if it leaves no gap. -/
theorem resting_of_fresh (h : FreshReady minStartMts db d last currMts)
    (hload : src.LoadedDownTo last currMts low db.temp temp')
    (hgapless : Gapless src.date
      (CollDb.missing minStartMts ⟨some (updateSyncInfo db.row d), db.main, temp'⟩)
      (CollDb.found ⟨some (updateSyncInfo db.row d), db.main, temp'⟩)) :
    CollDb.Resting minStartMts ⟨some (updateSyncInfo db.row d), db.main, temp'⟩ := by
  refine ⟨?_, ?_, hgapless, ?_⟩
  · exact within_of_loaded h.resting.within h.start_le hload
  · exact mainComplete_of_loaded h.resting.main hload
  · apply fits_of_loaded (fits_fresh h) h.notReady hload
    refine .inr ⟨h.currEnd, ?_⟩
    cases hbase : d.isBaseStepReady with
    | true => exact .inl hbase
    | false =>
        obtain ⟨_, _, stop, hstop, _, hidle⟩ := h.base hbase
        refine .inr (.inr ?_)
        intro stop' hstop'
        obtain rfl := Option.some.inj (hstop.symm.trans hstop')
        exact ⟨hidle.lt, hidle.exhausted⟩

/-- An empty temporary table has no gap after any part of the current window. -/
theorem gapless_of_fresh (h : FreshReady minStartMts db d last currMts)
    (hload : src.LoadedDownTo last currMts low db.temp temp') (hempty : db.temp.contents = []) :
    Gapless src.date (CollDb.missing minStartMts ⟨row, db.main, temp'⟩)
      (CollDb.found ⟨row, db.main, temp'⟩) := by
  have hsplits : Splits src.date currMts (db.missing minStartMts) db.found := by
    intro r _ x hx
    simp [CollDb.found, hempty] at hx
  exact (splits_of_loaded hsplits (fun r hr => h.last_lt hr) hload).gapless

/-- What is missing behind the current window is missing behind its end. -/
theorem lt_of_fresh (h : FreshReady minStartMts db d last currMts)
    (hload : src.LoadedDownTo last currMts last db.temp temp') {r : ρ}
    (hr : r ∈ CollDb.missing minStartMts ⟨row, db.main, temp'⟩) : currMts < src.date r :=
  lt_of_loaded hload hr (h.last_lt (missing_of_loaded hload hr))

theorem allComplete_of_fresh (h : FreshReady minStartMts db d last currMts)
    (hload : src.LoadedDownTo last currMts last db.temp temp') :
    CollDb.AllComplete minStartMts ⟨row, db.main, temp'⟩ := by
  intro r hr x hx
  have hmissing := missing_of_loaded hload hr
  rcases hx with hmain | htemp
  · exact h.complete r hmissing x (.inl hmain)
  rcases hload.added htemp with hold | ⟨_, _, hle, _⟩
  · exact h.complete r hmissing x (.inr hold)
  · have hlt := lt_of_fresh h hload hr
    omega

end CurrWindow

variable {writes : ℕ} {db' : CollDb src} {res : Except Interruption (SyncUserStepData × ℕ)}

/-- What a load of the base window comes to. -/
theorem freshReady_of_load (h : FreshReady minStartMts db d last currMts)
    (hlimit : src.history.length < DataInserter.limit) {pages : ℕ} {left : Option ℕ}
    (hload : DataInserter.insertApiDataArrObjTypeToDb (shouldBaseStepBeSynced d .none)
      d.baseStart d.baseEnd pages db.temp = (temp', left)) :
    FreshReady minStartMts ⟨some (updateSyncInfo db.row d), db.main, temp'⟩ d last currMts ∧
      (CollDb.missing minStartMts ⟨some (updateSyncInfo db.row d), db.main, temp'⟩ ⊆
        db.missing minStartMts) ∧
      (db.temp.contents = [] → temp'.contents = []) := by
  have htemp : ∀ r ∈ db.temp.contents, r ∈ src.history :=
    fun r hr => h.resting.within.history (.inr hr)
  cases hbase : d.isBaseStepReady with
  | true =>
      rw [shouldBase_of_ready hbase, insert_of_ready] at hload
      obtain ⟨rfl, _⟩ := Prod.mk.inj hload
      refine ⟨⟨⟨⟨h.resting.within.history, h.resting.within.start_le⟩, h.resting.main,
        h.resting.gapless, fits_fresh h⟩, h.complete, h.notReady, h.currStart, h.currEnd,
        h.start_le, h.last_lt, ?_⟩, fun _ hr => hr, id⟩
      exact fun hfalse => absurd (hfalse.symm.trans hbase) Bool.false_ne_true
  | false =>
      obtain ⟨_, hstart, stop, hstop, hwindow, _⟩ := h.base hbase
      rw [shouldBase_of_window hbase hstart hstop, hstart, hstop] at hload
      obtain ⟨⟨low, hlow⟩, _⟩ := loaded_of_insert hlimit htemp hload
      exact freshReady_of_base h hbase hstop hlow (exhausted_of_insert htemp hwindow hload).1

/-- The fresh step is inserted, as far as the run goes.  Interrupted in its current window
it may leave a gap behind what was in the temporary table. -/
theorem insertApiData_fresh (h : FreshReady minStartMts db d last currMts)
    (hlimit : src.history.length < DataInserter.limit)
    (hres : DataInserter.insertApiData db d writes = (db', res)) :
    (∀ e, res = .error e → (e = .inCurr → db.temp.contents ≠ [] →
        Gapless src.date (db'.missing minStartMts) db'.found) → db'.Resting minStartMts) ∧
      ∀ left, res = .ok left → ∃ temp₂, db' = ⟨some (updateSyncInfo db.row d), db.main, temp₂⟩ ∧
        db'.Resting minStartMts ∧ db'.AllComplete minStartMts ∧
        ∀ r ∈ db'.missing minStartMts, r ∈ db.missing minStartMts ∧ currMts < src.date r := by
  rcases insertApiData_cases hres with ⟨rfl, rfl⟩ | ⟨pages, temp₁, hload, rfl, rfl⟩ |
    ⟨pages, pages', temp₁, temp₂, left, hload, hload', rfl, hleftRes⟩
  · exact ⟨fun _ _ _ => h.resting, fun _ hok => (by cases hok)⟩
  · have hb := (freshReady_of_load h hlimit hload).1
    exact ⟨fun _ _ _ => hb.resting, fun _ hok => (by cases hok)⟩
  obtain ⟨hb, hbefore, hnil⟩ := freshReady_of_load h hlimit hload
  have htemp₁ : ∀ r ∈ temp₁.contents, r ∈ src.history :=
    fun r hr => hb.resting.within.history (.inr hr)
  rw [shouldCurr_of_window h.notReady h.currStart h.currEnd, h.currStart, h.currEnd] at hload'
  obtain ⟨⟨low, hlow⟩, hdone⟩ := loaded_of_insert hlimit htemp₁ hload'
  rcases hleftRes with ⟨rfl, rfl⟩ | ⟨writes', rfl, rfl⟩
  · have hrest := resting_of_fresh hb hlow
    refine ⟨fun e herror hgap => hrest ?_, fun _ hok => (by cases hok)⟩
    by_cases hempty : db.temp.contents = []
    · exact gapless_of_fresh hb hlow (hnil hempty)
    · exact hgap (Except.error.inj herror).symm hempty
  · refine ⟨fun _ herror => (by cases herror), fun _ _ => ⟨temp₂, rfl, ?_⟩⟩
    have hload₂ := hdone rfl
    have hcomplete : CollDb.AllComplete minStartMts
        ⟨some (updateSyncInfo db.row d), db.main, temp₂⟩ := (allComplete_of_fresh hb hload₂ :)
    have hrest := resting_of_fresh hb hload₂
    refine ⟨hrest ?_, hcomplete, ?_⟩
    · intro r hr x _ y hy _
      exact hcomplete r hr y (.inr hy)
    · intro r hr
      exact ⟨hbefore (missing_of_loaded hload₂ hr), lt_of_fresh hb hload₂ hr⟩

end FreshStep

end ReportsFramework.SyncSteps
