/-
No gap in the history of a configured symbol.  A symbol that is loaded has every record
from the date it was loaded from on, whatever is configured from run to run; and it is
loaded from its configured start unless the step that all symbols share is in the way.
-/
import ReportsFramework.PublicWindows

namespace ReportsFramework.SyncSteps

open DataChecker SyncUserStepManager

section LeftOfConf

variable {ρ κ : Type*} {src : ConfKey → PageSource ρ κ} {minStartMts : ℤ}

/-- The stored step, or what is read of a missing one. -/
def PublicDb.step (db : PublicDb src) : SyncUserStep := db.row.getD .missing

/-- What holds between two completed runs.  The current step is ready, or the stored one has
no window. -/
structure Settled (s : PublicState src) : Prop where
  temp (key : ConfKey) : (s.db.temp key).contents = []
  known {key r} : r ∈ (s.db.main key).contents → r ∈ (src key).history
  ready : (s.db.row = none ∧ ∀ key, (s.db.main key).contents = []) ∨
    s.db.step.isBaseStepReady = true ∧ s.db.step.baseStart.isSome = true
  idle : s.db.step.isCurrStepReady = false →
    (s.db.step.currStart = none ∧ s.db.step.currEnd = none) ∨
      ∃ start stop, s.db.step.currStart = some start ∧ s.db.step.currEnd = some stop ∧ stop ≤ start
  gapless {key r x} : r ∈ (src key).history → s.since key < (src key).date r →
    r ∉ (s.db.main key).contents → x ∈ (s.db.main key).contents →
      (src key).date x < (src key).date r

variable {db : PublicDb src} {run : PublicRun} {conf : ConfKey × ℤ}

theorem tableDates_of_nil {src : PageSource ρ κ} {t : Sql.Table src.key} (h : t.contents = []) :
    DataInserter.tableDates t = ⟨none, none⟩ := by
  simp [DataInserter.tableDates, h]

theorem lastSynced_first (hrow : db.row = none) (hmain : (db.main conf.1).contents = [])
    (htemp : (db.temp conf.1).contents = []) :
    PublicInserter.lastSynced minStartMts db run conf =
      ({ SyncUserStepData.new with
          symbol := some conf.1.symbol
          timeframe := conf.1.timeframe
          baseStart := some (max minStartMts conf.2)
          baseEnd := some run.currMts },
        some (max minStartMts conf.2)) := by
  unfold PublicInserter.lastSynced lastSyncedOfConf getLastSyncedInfoForCurrColl
  simp only [tableDates_of_nil hmain, tableDates_of_nil htemp, hrow, getMinStart_some]
  rfl

/-- The step that is left in a later run. -/
def laterStep (minStartMts : ℤ) (db : PublicDb src) (run : PublicRun) (conf : ConfKey × ℤ)
    (newest : Option ℤ) : SyncUserStepData :=
  { SyncUserStepData.new with
    syncedAt := db.step.syncedAt
    symbol := some conf.1.symbol
    timeframe := conf.1.timeframe
    baseStart := getMinStart minStartMts db.step.baseStart
    baseEnd := db.step.baseEnd
    currStart := if db.step.isCurrStepReady then db.step.currStart
      else (minMts [db.step.currStart, newest]).or (some (max minStartMts conf.2))
    currEnd := if db.step.isCurrStepReady then db.step.currEnd
      else (db.step.currEnd.or newest).or (some run.currMts)
    isBaseStepReady := true
    isCurrStepReady := db.step.isCurrStepReady }

theorem lastSynced_later (hready : db.step.isBaseStepReady = true)
    (htemp : (db.temp conf.1).contents = []) :
    PublicInserter.lastSynced minStartMts db run conf =
      (laterStep minStartMts db run conf (DataInserter.tableDates (db.main conf.1)).last,
        (DataInserter.tableDates (db.main conf.1)).last.or (some (max minStartMts conf.2))) := by
  have hmin (mts : Option ℤ) : minMts [mts, none] = mts := by cases mts <;> rfl
  have hmax (mts : Option ℤ) : maxMts [none, mts] = mts := by cases mts <;> rfl
  unfold laterStep
  unfold PublicDb.step at hready ⊢
  unfold PublicInserter.lastSynced lastSyncedOfConf getLastSyncedInfoForCurrColl
  simp only [tableDates_of_nil htemp, hready, getMinStart_some, hmin, hmax, Bool.not_true,
    Bool.false_and, Bool.false_eq_true, if_false, if_true]
  cases hcurr : (db.row.getD .missing).isCurrStepReady <;> simp [SyncUserStepData.new]

/-- What is known of the step that is left for a configured symbol: its windows start at the
newest record, or before, and without a fresh step they end less than 61 minutes before the
check. -/
structure LeftOfConf (minStartMts : ℤ) (db : PublicDb src) (run : PublicRun) (conf : ConfKey × ℤ)
    (d : SyncUserStepData) (last : ℤ) : Prop where
  empty : (db.main conf.1).contents = [] → last = max minStartMts conf.2
  newest : (db.main conf.1).contents ≠ [] →
    ∃ y ∈ (db.main conf.1).contents, (src conf.1).date y = last
  start_le {w} : w ∈ d.windows → w.1 ≤ last
  baseStart : ∃ start, d.baseStart = some start ∧ minStartMts ≤ start
  base : d.isBaseStepReady = false → d.currStart = none
  curr : d.isCurrStepReady = false → (d.currStart = none ∧ d.currEnd = none) ∨
    ∃ start stop, d.currStart = some start ∧ d.currEnd = some stop
  recent : shouldFreshSyncBeAdded d run.currMts allowedDiff = false →
    ∃ w ∈ d.windows, run.currMts - 3660000 < w.2 ∧
      ((db.main conf.1).contents = [] → w.2 = run.currMts)

/-- Without a fresh step, some window ends less than 61 minutes before the check. -/
theorem exists_recent {d : SyncUserStepData} {currMts : ℤ} (hhour : 3660000 ≤ currMts)
    (h : shouldFreshSyncBeAdded d currMts allowedDiff = false) :
    ∃ w ∈ d.windows, currMts - 3660000 < w.2 := by
  have hlt := lt_of_not_fresh h
  rcases lt_max_iff.mp hlt with hbase | hcurr
  · split_ifs at hbase with hwindow
    · simp only [Bool.and_eq_true, Bool.not_eq_true', SyncUserStepData.hasBaseStep,
        Option.any_eq_true, decide_eq_true_eq] at hwindow
      obtain ⟨hready, start, hstart, stop, hstop, hlt'⟩ := hwindow
      refine ⟨(start, stop), mem_windows.mpr (.inl ?_), ?_⟩
      · exact ⟨hready, start, stop, hstart, hstop, hlt', rfl⟩
      simpa [hstop] using hbase
    · omega
  · split_ifs at hcurr with hwindow
    · simp only [Bool.and_eq_true, Bool.not_eq_true', SyncUserStepData.hasCurrStep,
        Option.any_eq_true, decide_eq_true_eq] at hwindow
      obtain ⟨hready, start, hstart, stop, hstop, hlt'⟩ := hwindow
      refine ⟨(start, stop), mem_windows.mpr (.inr ?_), ?_⟩
      · exact ⟨hready, start, stop, hstart, hstop, hlt', rfl⟩
      simpa [hstop] using hcurr
    · omega

/-- The first run of the collection. -/
theorem leftOfConf_first (hhour : 3660000 ≤ run.currMts) (hrow : db.row = none)
    (hmain : (db.main conf.1).contents = []) (htemp : (db.temp conf.1).contents = [])
    {d : SyncUserStepData} {last : Option ℤ}
    (hlast : PublicInserter.lastSynced minStartMts db run conf = (d, last)) :
    ∃ mts, last = some mts ∧ LeftOfConf minStartMts db run conf d mts := by
  rw [lastSynced_first hrow hmain htemp] at hlast
  obtain ⟨rfl, rfl⟩ := Prod.mk.inj hlast
  have hwindow {w : ℤ × ℤ} (hw : w ∈ SyncUserStepData.windows
      { SyncUserStepData.new with
        symbol := some conf.1.symbol
        timeframe := conf.1.timeframe
        baseStart := some (max minStartMts conf.2)
        baseEnd := some run.currMts }) :
      w = (max minStartMts conf.2, run.currMts) := by
    rcases mem_windows.mp hw with ⟨_, start, stop, hstart, hstop, _, rfl⟩ |
      ⟨_, start, _, hstart, _⟩
    · rw [Option.some.inj hstart, Option.some.inj hstop]
    · cases hstart
  refine ⟨_, rfl, fun _ => rfl, fun hne => absurd hmain hne, fun hw => ?_,
    ⟨_, rfl, le_max_left _ _⟩, fun _ => rfl, fun _ => .inl ⟨rfl, rfl⟩, fun hfresh => ?_⟩
  · rw [hwindow hw]
  · obtain ⟨w, hw, hlt⟩ := exists_recent hhour hfresh
    exact ⟨w, hw, hlt, fun _ => by rw [hwindow hw]⟩

variable {s : PublicState src}

/-- The window of the step in a later run, if there is one. -/
theorem mem_windows_laterStep {newest : Option ℤ} {w : ℤ × ℤ}
    (hw : w ∈ (laterStep minStartMts db run conf newest).windows) :
    db.step.isCurrStepReady = false ∧ w.1 < w.2 ∧
      (minMts [db.step.currStart, newest]).or (some (max minStartMts conf.2)) = some w.1 ∧
      (db.step.currEnd.or newest).or (some run.currMts) = some w.2 := by
  rcases mem_windows.mp hw with ⟨hfalse, _⟩ | ⟨hcurr, start, stop, hstart, hstop, hlt, rfl⟩
  · cases hfalse
  have hcurr' : db.step.isCurrStepReady = false := hcurr
  simp only [laterStep, hcurr', Bool.false_eq_true, if_false] at hstart hstop
  exact ⟨hcurr', hlt, hstart, hstop⟩

/-- A symbol of which nothing is stored has the window from its start to the check. -/
theorem Settled.eq_of_mem_windows (h : Settled s) {w : ℤ × ℤ}
    (hw : w ∈ (laterStep minStartMts s.db run conf none).windows) :
    w = (max minStartMts conf.2, run.currMts) := by
  obtain ⟨hcurr, hlt, hstart, hstop⟩ := mem_windows_laterStep hw
  rcases h.idle hcurr with ⟨hnone, hnone'⟩ | ⟨start, stop, hsome, hsome', hle⟩
  · rw [hnone] at hstart
    rw [hnone'] at hstop
    exact Prod.ext (Option.some.inj hstart).symm (Option.some.inj hstop).symm
  · rw [hsome] at hstart
    rw [hsome'] at hstop
    have hfst : start = w.1 := Option.some.inj hstart
    have hsnd : stop = w.2 := Option.some.inj hstop
    omega

theorem laterStep_baseStart (minStartMts : ℤ) (run : PublicRun) (conf : ConfKey × ℤ)
    (h : db.step.baseStart.isSome = true) (newest : Option ℤ) :
    ∃ start, (laterStep minStartMts db run conf newest).baseStart = some start ∧
      minStartMts ≤ start := by
  obtain ⟨start, hstart⟩ := Option.isSome_iff_exists.mp h
  refine ⟨max minStartMts start, ?_, le_max_left _ _⟩
  simp only [laterStep, hstart, getMinStart_some]

theorem laterStep_curr {newest : Option ℤ}
    (h : (laterStep minStartMts db run conf newest).isCurrStepReady = false) :
    ∃ start stop, (laterStep minStartMts db run conf newest).currStart = some start ∧
      (laterStep minStartMts db run conf newest).currEnd = some stop := by
  have hnot : db.step.isCurrStepReady = false := h
  simp only [laterStep, hnot, Bool.false_eq_true, if_false]
  cases minMts [db.step.currStart, newest] <;> cases db.step.currEnd.or newest <;> simp

/-- A window of a symbol that is stored starts at its newest record or before. -/
theorem le_of_mem_windows {mts : ℤ} {w : ℤ × ℤ}
    (hw : w ∈ (laterStep minStartMts db run conf (some mts)).windows) : w.1 ≤ mts := by
  obtain ⟨_, _, hstart, _⟩ := mem_windows_laterStep hw
  cases hrow : db.step.currStart with
  | none =>
      rw [hrow] at hstart
      have hsame : mts = w.1 := Option.some.inj hstart
      omega
  | some start =>
      rw [hrow] at hstart
      have hsame : min start mts = w.1 := Option.some.inj hstart
      omega

/-- A later run. -/
theorem leftOfConf_later (h : Settled s) (hhour : 3660000 ≤ run.currMts)
    (hready : s.db.step.isBaseStepReady = true) (hstart : s.db.step.baseStart.isSome = true)
    {d : SyncUserStepData} {last : Option ℤ}
    (hlast : PublicInserter.lastSynced minStartMts s.db run conf = (d, last)) :
    ∃ mts, last = some mts ∧ LeftOfConf minStartMts s.db run conf d mts := by
  have hbaseStart := laterStep_baseStart minStartMts run conf hstart
  rw [lastSynced_later hready (h.temp _)] at hlast
  rcases tableDates_cases (s.db.main conf.1) with ⟨hmain, hdates⟩ | ⟨_, _, y, hy, hdates, _⟩
  · -- nothing of the symbol is stored
    rw [hdates] at hlast
    obtain ⟨rfl, rfl⟩ := Prod.mk.inj hlast
    refine ⟨max minStartMts conf.2, rfl, fun _ => rfl, fun hne => absurd hmain hne,
      fun hw => ?_, hbaseStart _, fun hfalse => (by cases hfalse),
      fun hnot => .inr (laterStep_curr hnot), fun hfresh => ?_⟩
    · rw [h.eq_of_mem_windows hw]
    · obtain ⟨w, hw, hlt⟩ := exists_recent hhour hfresh
      exact ⟨w, hw, hlt, fun _ => by rw [h.eq_of_mem_windows hw]⟩
  · rw [hdates] at hlast
    obtain ⟨rfl, rfl⟩ := Prod.mk.inj hlast
    refine ⟨(src conf.1).date y, rfl, fun hnil => ?_, fun _ => ⟨y, hy, rfl⟩,
      fun hw => le_of_mem_windows hw, hbaseStart _, fun hfalse => (by cases hfalse),
      fun hnot => .inr (laterStep_curr hnot), fun hfresh => ?_⟩
    · simp [hnil] at hy
    · obtain ⟨w, hw, hlt⟩ := exists_recent hhour hfresh
      exact ⟨w, hw, hlt, fun hnil => by simp [hnil] at hy⟩

theorem exists_leftOfConf (h : Settled s) (conf : ConfKey × ℤ) (hhour : 3660000 ≤ run.currMts) :
    ∃ d mts, PublicInserter.lastSynced minStartMts s.db run conf = (d, some mts) ∧
      LeftOfConf minStartMts s.db run conf d mts := by
  rcases hlast : PublicInserter.lastSynced minStartMts s.db run conf with ⟨d, last⟩
  rcases h.ready with ⟨hrow, hmain⟩ | ⟨hready, hstart⟩
  · obtain ⟨mts, rfl, hleft⟩ := leftOfConf_first hhour hrow (hmain _) (h.temp _) hlast
    exact ⟨d, mts, rfl, hleft⟩
  · obtain ⟨mts, rfl, hleft⟩ := leftOfConf_later h hhour hready hstart hlast
    exact ⟨d, mts, rfl, hleft⟩

end LeftOfConf

section Missing

variable {ρ κ : Type*} {src : ConfKey → PageSource ρ κ} {minStartMts : ℤ} {s : PublicState src}
variable {run : PublicRun} {conf : ConfKey × ℤ}

/-- The windows that a run loads for a configured symbol. -/
def windowsOfConf (minStartMts : ℤ) (db : PublicDb src) (run : PublicRun) (conf : ConfKey × ℤ) :
    List (ℤ × ℤ) :=
  (checkConf minStartMts db.row (DataInserter.tableDates (db.main conf.1))
    (DataInserter.tableDates (db.temp conf.1)) conf run.currMts).flatMap SyncUserStepData.windows

/-- The date up to which a run loads a configured symbol.  Without a fresh step the windows
of a symbol that is stored end less than 61 minutes before the check. -/
def PublicState.loadedUpTo (minStartMts : ℤ) (s : PublicState src) (run : PublicRun)
    (conf : ConfKey × ℤ) : ℤ :=
  if (s.db.main conf.1).contents.isEmpty || shouldFreshSyncBeAdded
      (PublicInserter.lastSynced minStartMts s.db run conf).1 run.currMts allowedDiff then
    run.currMts
  else run.currMts - 3660000

/-- What is missing after a run: newer than what was stored, behind the windows, and newer
than what the run loads. -/
structure Behind (minStartMts : ℤ) (s : PublicState src) (run : PublicRun) (conf : ConfKey × ℤ)
    (date : ℤ) : Prop where
  main {x} : x ∈ (s.db.main conf.1).contents → (src conf.1).date x < date
  windows {w} : w ∈ windowsOfConf minStartMts s.db run conf → w.2 < date
  upTo : s.loadedUpTo minStartMts run conf < date

section Behind

variable {d : SyncUserStepData} {last : ℤ} {r : ρ}

/-- A record dated after what a stored symbol is loaded from is newer than what was loaded
before and than the base window that the start is moved back for, if it is missing. -/
theorem newer_of_sinceAfter {date : ℤ}
    (hlast : PublicInserter.lastSynced minStartMts s.db run conf = (d, some last))
    (hstored : (s.db.main conf.1).contents ≠ [])
    (hsince : s.sinceAfter minStartMts run conf < date)
    (hbase : ∀ stop, wasStartPointChanged d conf.2 = true → d.baseStart = some stop →
      conf.2 < date → stop < date) :
    s.since conf.1 < date ∧
      ∀ stop, wasStartPointChanged d conf.2 = true → d.baseStart = some stop → stop < date := by
  have hmain : (s.db.main conf.1).contents.isEmpty = false := by simpa using hstored
  unfold PublicState.sinceAfter PublicState.movesBack at hsince
  simp only [hlast, hmain, Bool.false_or, Bool.and_eq_true, Option.any_eq_true,
    decide_eq_true_eq] at hsince
  split_ifs at hsince with hback
  · obtain ⟨hmoved, stop, hstop, hle⟩ := hback
    have hbehind := hbase stop hmoved hstop (by omega)
    refine ⟨by omega, fun stop' _ hstop' => ?_⟩
    obtain rfl := Option.some.inj (hstop.symm.trans hstop')
    exact hbehind
  · refine ⟨hsince, fun stop hmoved hstop => ?_⟩
    -- the window ends before what was loaded
    have hlt : stop < s.since conf.1 := by
      by_contra hle
      exact hback ⟨hmoved, stop, hstop, Int.not_lt.mp hle⟩
    omega

/-- A record that is missing, and dated after what the symbol is loaded from, is newer than
the newest record and than the base window that the start is moved back for. -/
theorem newer_of_missing (h : Settled s) (hleft : LeftOfConf minStartMts s.db run conf d last)
    (hlast : PublicInserter.lastSynced minStartMts s.db run conf = (d, some last))
    (hr : r ∈ (src conf.1).history)
    (hsince : s.sinceAfter minStartMts run conf < (src conf.1).date r)
    (hmain : r ∉ (s.db.main conf.1).contents)
    (hbase : ∀ stop, wasStartPointChanged d conf.2 = true → d.baseStart = some stop →
      conf.2 < (src conf.1).date r → stop < (src conf.1).date r) :
    last < (src conf.1).date r ∧
      (∀ x ∈ (s.db.main conf.1).contents, (src conf.1).date x < (src conf.1).date r) ∧
      ∀ stop, wasStartPointChanged d conf.2 = true → d.baseStart = some stop →
        stop < (src conf.1).date r := by
  by_cases hempty : (s.db.main conf.1).contents = []
  · have hsame := hleft.empty hempty
    have hstart : max minStartMts conf.2 < (src conf.1).date r := by
      simpa [PublicState.sinceAfter, hempty] using hsince
    refine ⟨by omega, fun x hx => ?_, fun stop hmoved hstop => ?_⟩
    · simp [hempty] at hx
    · exact hbase stop hmoved hstop (by omega)
  · obtain ⟨hlate, hmoved⟩ := newer_of_sinceAfter hlast hempty hsince hbase
    have hnewer {x : ρ} (hx : x ∈ (s.db.main conf.1).contents) :
        (src conf.1).date x < (src conf.1).date r := h.gapless hr hlate hmain hx
    obtain ⟨y, hy, rfl⟩ := hleft.newest hempty
    exact ⟨hnewer hy, fun x hx => hnewer hx, hmoved⟩

end Behind

/-- A record that is missing after a run, and dated after what the symbol is loaded from. -/
theorem behind_of_missing (h : Settled s) (hhour : 3660000 ≤ run.currMts) {r : ρ}
    (hr : r ∈ (src conf.1).history)
    (hsince : s.sinceAfter minStartMts run conf < (src conf.1).date r)
    (hmain : r ∉ (s.db.main conf.1).contents)
    (hnot : ∀ w ∈ windowsOfConf minStartMts s.db run conf, w.1 < (src conf.1).date r →
      w.2 < (src conf.1).date r) :
    Behind minStartMts s run conf ((src conf.1).date r) := by
  obtain ⟨d, last, hlast, hleft⟩ := exists_leftOfConf h conf hhour
  have hwindows {w : ℤ × ℤ} : w ∈ windowsOfConf minStartMts s.db run conf ↔
      w ∈ d.windows ∨ w ∈ (freshOfConf d (some last) conf run.currMts).windows :=
    mem_windows_checkConf hlast
  obtain ⟨hnewest, hnewer, hmoved⟩ := newer_of_missing h hleft hlast hr hsince hmain (by
    intro stop hchanged hstop hstart
    by_cases hlt : conf.2 < stop
    · apply hnot (conf.2, stop) _ hstart
      exact hwindows.mpr
        (.inr (mem_windows_freshOfConf.mpr (.inl ⟨hchanged, stop, hstop, hlt, rfl⟩)))
    · omega)
  have hleftBehind {w : ℤ × ℤ} (hw : w ∈ d.windows) : w.2 < (src conf.1).date r := by
    have hstart := hleft.start_le hw
    exact hnot w (hwindows.mpr (.inl hw)) (by omega)
  have hfreshBehind (hfresh : shouldFreshSyncBeAdded d run.currMts allowedDiff = true) :
      run.currMts < (src conf.1).date r := by
    by_cases hlt : last < run.currMts
    · apply hnot (last, run.currMts) _ hnewest
      exact hwindows.mpr
        (.inr (mem_windows_freshOfConf.mpr (.inr ⟨hfresh, last, rfl, hlt, rfl⟩)))
    · omega
  refine ⟨fun hx => hnewer _ hx, fun hw => ?_, ?_⟩
  · rcases hwindows.mp hw with hw | hw
    · exact hleftBehind hw
    rcases mem_windows_freshOfConf.mp hw with ⟨hchanged, stop, hstop, _, rfl⟩ |
      ⟨hfresh, _, _, _, rfl⟩
    · exact hmoved stop hchanged hstop
    · exact hfreshBehind hfresh
  · unfold PublicState.loadedUpTo
    rw [hlast]
    cases hfresh : shouldFreshSyncBeAdded d run.currMts allowedDiff with
    | true =>
        simp only [Bool.or_true, if_true]
        exact hfreshBehind hfresh
    | false =>
        obtain ⟨w, hw, hlt, hstop⟩ := hleft.recent hfresh
        have hbehind := hleftBehind hw
        simp only [Bool.or_false, List.isEmpty_iff]
        split_ifs with hempty
        · have hsame := hstop hempty
          omega
        · omega

end Missing

section Row

variable {ρ κ : Type*} {src : ConfKey → PageSource ρ κ} {minStartMts : ℤ} {db : PublicDb src}
variable {run : PublicRun} {conf : ConfKey × ℤ} {d : SyncUserStepData} {last : ℤ}

/-- The steps that a run pushes for a configured symbol. -/
def stepsOfConf (minStartMts : ℤ) (db : PublicDb src) (run : PublicRun) (conf : ConfKey × ℤ) :
    List SyncUserStepData :=
  checkConf minStartMts db.row (DataInserter.tableDates (db.main conf.1))
    (DataInserter.tableDates (db.temp conf.1)) conf run.currMts

theorem lt_diffMinutes_iff {n mts mts' : ℤ} (hn : 0 ≤ n) :
    n < diffMinutes mts mts' ↔ (n + 1) * 60000 ≤ mts - mts' := by
  unfold diffMinutes
  by_cases hnonneg : 0 ≤ mts - mts'
  · rw [Int.tdiv_eq_ediv_of_nonneg hnonneg]
    omega
  · have hneg : 0 ≤ (-(mts - mts')).tdiv 60000 := Int.tdiv_nonneg (by omega) (by omega)
    rw [Int.neg_tdiv] at hneg
    omega

/-- A start that is moved back is moved back before the stored base start. -/
theorem lt_of_wasStartPointChanged {start baseStart : ℤ}
    (h : wasStartPointChanged d start = true) (hbase : d.baseStart = some baseStart)
    (hpos : 0 ≤ baseStart) : start < baseStart := by
  unfold wasStartPointChanged at h
  rw [decide_eq_true_eq, lt_diffMinutes_iff (by decide), hbase] at h
  simp only [Option.getD_some] at h
  split_ifs at h <;> omega

/-- The fresh step of a symbol has its base step ready, or to be synchronised. -/
theorem base_of_fresh (hpos : 0 ≤ minStartMts) (hleft : LeftOfConf minStartMts db run conf d last) :
    ((freshOfConf d (some last) conf run.currMts).isBaseStepReady = true ∨
      shouldBaseStepBeSynced (freshOfConf d (some last) conf run.currMts) .none = true) ∧
      (freshOfConf d (some last) conf run.currMts).baseStart.isSome = true := by
  obtain ⟨baseStart, hbaseStart, hle⟩ := hleft.baseStart
  cases hmoved : wasStartPointChanged d conf.2 with
  | false => simp [freshOfConf, hmoved, hbaseStart]
  | true =>
      have hlt := lt_of_wasStartPointChanged hmoved hbaseStart (by omega)
      have hnotReady : (freshOfConf d (some last) conf run.currMts).isBaseStepReady = false := by
        simp [freshOfConf, hmoved]
      have hstart : (freshOfConf d (some last) conf run.currMts).baseStart = some conf.2 := by
        simp [freshOfConf, hmoved]
      have hstop : (freshOfConf d (some last) conf run.currMts).baseEnd = some baseStart := by
        simp [freshOfConf, hmoved, hbaseStart]
      refine ⟨.inr ?_, by simp [hstart]⟩
      rw [shouldBase_of_window hnotReady hstart hstop]
      exact decide_eq_true hlt

/-- So has the step that is left, without a fresh one. -/
theorem base_of_left (hleft : LeftOfConf minStartMts db run conf d last)
    (hfresh : shouldFreshSyncBeAdded d run.currMts allowedDiff = false) :
    d.isBaseStepReady = true ∨ shouldBaseStepBeSynced d .none = true := by
  by_cases hready : d.isBaseStepReady = true
  · exact .inl hready
  right
  obtain ⟨w, hw, _⟩ := hleft.recent hfresh
  rcases mem_windows.mp hw with ⟨hbase, start, stop, hstart, hstop, hlt, _⟩ |
    ⟨_, start, _, hstart, _⟩
  · rw [shouldBase_of_window hbase hstart hstop]
    exact decide_eq_true hlt
  · have hnoCurr := hleft.base (by simpa using hready)
    cases hnoCurr.symm.trans hstart

/-- The last step that is pushed for a symbol has its base step ready, or to be synchronised. -/
theorem base_of_last (hpos : 0 ≤ minStartMts)
    (hlast : PublicInserter.lastSynced minStartMts db run conf = (d, some last))
    (hleft : LeftOfConf minStartMts db run conf d last) {d' : SyncUserStepData}
    (h : (stepsOfConf minStartMts db run conf).getLast? = some d') :
    (d'.isBaseStepReady = true ∨ shouldBaseStepBeSynced d' .none = true) ∧
      d'.baseStart.isSome = true := by
  unfold stepsOfConf at h
  rw [checkConf_eq hlast] at h
  by_cases hpushed : (wasStartPointChanged d conf.2 ||
      shouldFreshSyncBeAdded d run.currMts allowedDiff) = true
  · rw [if_pos hpushed, List.getLast?_append, List.getLast?_singleton, Option.some_or] at h
    obtain rfl := Option.some.inj h
    exact base_of_fresh hpos hleft
  · rw [if_neg hpushed, List.append_nil] at h
    split_ifs at h with hnotReady
    · obtain rfl : d = d' := Option.some.inj h
      simp only [Bool.not_eq_true, Bool.or_eq_false_iff] at hpushed
      obtain ⟨baseStart, hbaseStart, _⟩ := hleft.baseStart
      exact ⟨base_of_left hleft hpushed.2, by simp [hbaseStart]⟩
    · cases h

/-- A current step that is not ready has no bounds, or both. -/
theorem curr_of_mem (hlast : PublicInserter.lastSynced minStartMts db run conf = (d, some last))
    (hleft : LeftOfConf minStartMts db run conf d last) {d' : SyncUserStepData}
    (h : d' ∈ stepsOfConf minStartMts db run conf) (hnot : d'.isCurrStepReady = false) :
    (d'.currStart = none ∧ d'.currEnd = none) ∨
      ∃ start stop, d'.currStart = some start ∧ d'.currEnd = some stop := by
  unfold stepsOfConf at h
  rw [checkConf_eq hlast, List.mem_append] at h
  rcases h with h | h
  · split_ifs at h
    · obtain rfl := List.mem_singleton.mp h
      exact hleft.curr hnot
    · cases h
  · split_ifs at h
    · obtain rfl := List.mem_singleton.mp h
      have hfresh : shouldFreshSyncBeAdded d run.currMts allowedDiff = true := by
        simpa [freshOfConf] using hnot
      exact .inr ⟨last, run.currMts, by simp [freshOfConf, hfresh], by simp [freshOfConf, hfresh]⟩
    · cases h

end Row

section Finish

variable {ρ κ : Type*} {src : ConfKey → PageSource ρ κ} {minStartMts : ℤ}
variable {s : PublicState src} {db db' : PublicDb src} {run : PublicRun} {key : ConfKey}

theorem mem_windowsOf_stepsOf {w : ℤ × ℤ} :
    w ∈ windowsOf (PublicInserter.stepsOf minStartMts db run) key ↔
      ∃ conf ∈ run.publicCollsConf, conf.1 = key ∧ w ∈ windowsOfConf minStartMts db run conf := by
  unfold windowsOf PublicInserter.stepsOf DataChecker.checkNewConfigurablePublicData windowsOfConf
  simp only [List.mem_flatMap, List.mem_map]
  constructor
  · rintro ⟨step, ⟨conf, hconf, d, hd, rfl⟩, hw⟩
    split_ifs at hw with hkey
    · exact ⟨conf, hconf, hkey, d, hd, hw⟩
    · cases hw
  · rintro ⟨conf, hconf, hkey, d, hd, hw⟩
    refine ⟨(conf.1, d), ⟨conf, hconf, d, hd, rfl⟩, ?_⟩
    rwa [if_pos hkey]

/-- The last step of a run is the last one of some symbol. -/
theorem exists_conf_of_last {step : ConfKey × SyncUserStepData}
    (h : (PublicInserter.stepsOf minStartMts db run).getLast? = some step) :
    ∃ conf ∈ run.publicCollsConf, (stepsOfConf minStartMts db run conf).getLast? = some step.2 := by
  unfold PublicInserter.stepsOf DataChecker.checkNewConfigurablePublicData at h
  rw [List.getLast?_flatMap] at h
  obtain ⟨conf, hconf, hlast⟩ := List.exists_of_findSome?_eq_some h
  refine ⟨conf, List.mem_reverse.mp hconf, ?_⟩
  rw [List.getLast?_map] at hlast
  obtain ⟨d, hd, rfl⟩ := Option.map_eq_some_iff.mp hlast
  exact hd

/-- What a completed run leaves: the windows of each symbol are loaded, and the row is that of
the last step, with the steps marked that were synchronised. -/
structure Completed (minStartMts : ℤ) (db : PublicDb src) (run : PublicRun) (db' : PublicDb src) :
    Prop where
  temp (key : ConfKey) : (db'.temp key).contents = []
  loaded (key : ConfKey) : WindowsLoaded (src key)
    (windowsOf (PublicInserter.stepsOf minStartMts db run) key) (db.main key) (db'.main key)
  row : (PublicInserter.stepsOf minStartMts db run = [] ∧ db'.row = db.row) ∨
    ∃ step row, (PublicInserter.stepsOf minStartMts db run).getLast? = some step ∧
      db'.row = some (setSynced (some (updateSyncInfo row step.2)) run.syncedAt
        ((run.converterSteps ++
          (PublicInserter.stepsOf minStartMts db run).map Prod.snd).map marked) .none)

/-- A run without steps loads nothing. -/
theorem Completed.contents_nil (h : Completed minStartMts db run db')
    (hnil : PublicInserter.stepsOf minStartMts db run = [])
    (hmain : (db.main key).contents = []) : (db'.main key).contents = [] := by
  apply List.eq_nil_iff_forall_not_mem.mpr
  intro r hr
  rcases (h.loaded key).added hr with hold | ⟨_, w, hw, _⟩
  · simp [hmain] at hold
  · simp [hnil, windowsOf] at hw

theorem Completed.ready (h : Completed minStartMts s.db run db') (hs : Settled s)
    (hpos : 0 ≤ minStartMts) (hhour : 3660000 ≤ run.currMts) :
    (db'.row = none ∧ ∀ key, (db'.main key).contents = []) ∨
      db'.step.isBaseStepReady = true ∧ db'.step.baseStart.isSome = true := by
  rcases h.row with ⟨hnil, hrow⟩ | ⟨step, row, hlast, hrow⟩
  · have hstep : db'.step = s.db.step := by rw [PublicDb.step, PublicDb.step, hrow]
    rw [hrow, hstep]
    refine hs.ready.imp_left fun ⟨hnone, hmain⟩ => ⟨hnone, fun key => ?_⟩
    exact h.contents_nil hnil (hmain key)
  right
  obtain ⟨conf, _, hlast'⟩ := exists_conf_of_last hlast
  obtain ⟨d, last, hd, hleft⟩ := exists_leftOfConf hs conf hhour
  obtain ⟨hbase, hbaseStart⟩ := base_of_last hpos hd hleft hlast'
  rw [PublicDb.step, hrow]
  refine ⟨?_, hbaseStart⟩
  rcases hbase with hready | hshould
  · simp [setSynced, updateSyncInfo, hready]
  · refine Bool.or_eq_true_iff.mpr (.inr (wereBaseStepsSynced_marked ⟨step.2, ?_, hshould⟩))
    exact List.mem_append_right _ (List.mem_map_of_mem (List.mem_of_getLast? hlast))

theorem Completed.idle (h : Completed minStartMts s.db run db') (hs : Settled s)
    (hhour : 3660000 ≤ run.currMts) (hnot : db'.step.isCurrStepReady = false) :
    (db'.step.currStart = none ∧ db'.step.currEnd = none) ∨
      ∃ start stop, db'.step.currStart = some start ∧ db'.step.currEnd = some stop ∧
        stop ≤ start := by
  rcases h.row with ⟨_, hrow⟩ | ⟨step, row, hlast, hrow⟩
  · have hstep : db'.step = s.db.step := by rw [PublicDb.step, PublicDb.step, hrow]
    rw [hstep] at hnot ⊢
    exact hs.idle hnot
  rw [PublicDb.step, hrow] at hnot ⊢
  obtain ⟨hready, hsynced⟩ := Bool.or_eq_false_iff.mp hnot
  obtain ⟨conf, _, hlast'⟩ := exists_conf_of_last hlast
  obtain ⟨d, last, hd, hleft⟩ := exists_leftOfConf hs conf hhour
  refine (curr_of_mem hd hleft (List.mem_of_getLast? hlast') hready).imp_right ?_
  rintro ⟨start, stop, hstart, hstop⟩
  refine ⟨start, stop, hstart, hstop, ?_⟩
  -- a window would have been loaded
  by_contra hlt
  refine Bool.false_ne_true (hsynced.symm.trans (wereCurrStepsSynced_marked ⟨step.2, ?_, ?_⟩))
  · exact List.mem_append_right _ (List.mem_map_of_mem (List.mem_of_getLast? hlast))
  · rw [shouldCurr_of_window hready hstart hstop]
    exact decide_eq_true (Int.not_le.mp hlt)

/-- What is missing after a completed run, and dated after what the symbol is loaded from. -/
theorem Completed.behind (h : Completed minStartMts s.db run db') (hs : Settled s)
    (hhour : 3660000 ≤ run.currMts) {conf : ConfKey × ℤ} (hconf : conf ∈ run.publicCollsConf)
    {r : ρ} (hr : r ∈ (src conf.1).history)
    (hsince : s.sinceAfter minStartMts run conf < (src conf.1).date r)
    (hmain : r ∉ (db'.main conf.1).contents) :
    Behind minStartMts s run conf ((src conf.1).date r) := by
  have hloaded := h.loaded conf.1
  apply behind_of_missing hs hhour hr hsince (fun hold => hmain (hloaded.kept hold))
  intro w hw hstart
  by_contra hstop
  apply hmain
  refine hloaded.reached hr (mem_windowsOf_stepsOf.mpr ⟨conf, hconf, rfl, hw⟩) hstart ?_
  exact Int.not_lt.mp hstop

/-- The entry of a configured symbol. -/
theorem find?_conf (hkeys : (run.publicCollsConf.map Prod.fst).Nodup) {conf : ConfKey × ℤ}
    (hconf : conf ∈ run.publicCollsConf) :
    run.publicCollsConf.find? (·.1 = conf.1) = some conf := by
  cases hfind : run.publicCollsConf.find? (·.1 = conf.1) with
  | none =>
      have hne := List.find?_eq_none.mp hfind conf hconf
      simp at hne
  | some conf' =>
      have hkey : conf'.1 = conf.1 := by simpa using List.find?_some hfind
      rw [List.inj_on_of_nodup_map hkeys (List.mem_of_find?_eq_some hfind) hconf hkey]

theorem next_since (hkeys : (run.publicCollsConf.map Prod.fst).Nodup) {conf : ConfKey × ℤ}
    (hconf : conf ∈ run.publicCollsConf) :
    (s.next minStartMts run db').since conf.1 = s.sinceAfter minStartMts run conf := by
  unfold PublicState.next
  simp only [find?_conf hkeys hconf]

/-- Nothing that is stored after a run is newer than what is missing. -/
theorem Completed.gapless (h : Completed minStartMts s.db run db') (hs : Settled s)
    (hhour : 3660000 ≤ run.currMts) (hkeys : (run.publicCollsConf.map Prod.fst).Nodup) {r x : ρ}
    (hr : r ∈ (src key).history)
    (hsince : (s.next minStartMts run db').since key < (src key).date r)
    (hmain : r ∉ (db'.main key).contents) (hx : x ∈ (db'.main key).contents) :
    (src key).date x < (src key).date r := by
  have hloaded := h.loaded key
  by_cases hconf : ∃ conf ∈ run.publicCollsConf, conf.1 = key
  · obtain ⟨conf, hconf, rfl⟩ := hconf
    rw [next_since hkeys hconf] at hsince
    have hbehind := h.behind hs hhour hconf hr hsince hmain
    rcases hloaded.added hx with hold | ⟨_, w, hw, hle⟩
    · exact hbehind.main hold
    · obtain ⟨conf', hconf', hkey, hw'⟩ := mem_windowsOf_stepsOf.mp hw
      obtain rfl := List.inj_on_of_nodup_map hkeys hconf' hconf hkey
      have hlt := hbehind.windows hw'
      omega
  · -- the symbol is not configured, and stays as it is
    have hnone : run.publicCollsConf.find? (·.1 = key) = none := by
      apply List.find?_eq_none.mpr
      intro conf hmem
      simpa using fun hkey => hconf ⟨conf, hmem, hkey⟩
    have hsame : (s.next minStartMts run db').since key = s.since key := by
      unfold PublicState.next
      simp only [hnone]
    rw [hsame] at hsince
    rcases hloaded.added hx with hold | ⟨_, w, hw, _⟩
    · exact hs.gapless hr hsince (fun hold' => hmain (hloaded.kept hold')) hold
    · obtain ⟨conf, hmem, hkey, _⟩ := mem_windowsOf_stepsOf.mp hw
      exact absurd ⟨conf, hmem, hkey⟩ hconf

/-- A completed run leaves what it has found. -/
theorem Completed.settled (h : Completed minStartMts s.db run db') (hs : Settled s)
    (hpos : 0 ≤ minStartMts) (hhour : 3660000 ≤ run.currMts)
    (hkeys : (run.publicCollsConf.map Prod.fst).Nodup) :
    Settled (s.next minStartMts run db') where
  temp := h.temp
  known hr := (h.loaded _).known (fun _ hold => hs.known hold) _ hr
  ready := h.ready hs hpos hhour
  idle := h.idle hs hhour
  gapless hr hsince hmain hx := h.gapless hs hhour hkeys hr hsince hmain hx

end Finish

namespace EditedConf

/-- Every symbol has the same records. -/
def source (_ : ConfKey) : PageSource ℤ ℤ :=
  threePages 9000002 8900001 8800001 (by decide)

def start : PublicState source := ⟨⟨none, fun _ => .empty, fun _ => .empty⟩, fun _ => 0⟩

def btc : ConfKey := ⟨"tBTCUSD", none⟩

def eth : ConfKey := ⟨"tETHUSD", none⟩

/-- The start is 8900000 first, and then moved back by more than five minutes. -/
def first : PublicRun := ⟨[(btc, 8900000)], [], 9000010, 9000011, 100⟩

def again : PublicRun := ⟨[(btc, 8700000)], [], 9000010, 9000011, 100⟩

/-- The base start is the one of the other symbol when the first is moved back. -/
def both : PublicRun := ⟨[(btc, 8900000), (eth, 4000000)], [], 9000010, 9000011, 100⟩

/-- What the currency converter has loaded of the candles, with a stored step of its own. -/
def converted : PublicState source :=
  ⟨⟨none, fun _ => Sql.Table.empty.insertAll [9000002, 8900001], fun _ => .empty⟩,
    fun _ => 8900000⟩

end EditedConf

end ReportsFramework.SyncSteps
