/-
The windows that a run of a private collection finds left.  While the temporary table has
no gap and the stored step fits the tables, whatever is missing before the newest record
stored lies in the windows of the step that is left.
-/
import Mathlib.Data.Int.Order.Basic
import ReportsFramework.Coverage
import ReportsFramework.PrivateSync

namespace ReportsFramework.SyncSteps

open Coverage DataChecker SyncUserStepManager

variable {ρ κ : Type*} {src : PageSource ρ κ}

namespace CollDb

/-- The stored step, or what is read of a missing one. -/
def step (db : CollDb src) : SyncUserStep := db.row.getD .missing

def stored (db : CollDb src) : Set ρ := {r | r ∈ db.main.contents ∨ r ∈ db.temp.contents}

def found (db : CollDb src) : Set ρ := {r | r ∈ db.temp.contents}

/-- The records after the default start that are in neither table. -/
def missing (minStartMts : ℤ) (db : CollDb src) : Set ρ :=
  {r | r ∈ src.history ∧ minStartMts < src.date r ∧ r ∉ db.stored}

/-- The tables hold records from the default start on. -/
structure Within (minStartMts : ℤ) (db : CollDb src) : Prop where
  history {r} : r ∈ db.stored → r ∈ src.history
  start_le {r} : r ∈ db.stored → minStartMts ≤ src.date r

/-- What is missing is newer than the main table. -/
def MainComplete (minStartMts : ℤ) (db : CollDb src) : Prop :=
  ∀ r ∈ db.missing minStartMts, ∀ x ∈ db.main.contents, src.date x < src.date r

/-- What is missing is newer than both tables. -/
def AllComplete (minStartMts : ℤ) (db : CollDb src) : Prop :=
  ∀ r ∈ db.missing minStartMts, ∀ x ∈ db.stored, src.date x < src.date r

variable [DecidableEq κ]

/-- Nothing is missing up to the end of a base window, and it has nothing to be added. -/
structure Idle (minStartMts : ℤ) (db : CollDb src) (stop : ℤ) : Prop where
  lt {r} : r ∈ db.missing minStartMts → stop < src.date r
  exhausted : src.Exhausted minStartMts stop DataInserter.limit db.temp

/-- The stored step fits the tables: what is missing before the newest record of the
temporary table is in one of its windows. -/
structure Fits (minStartMts : ℤ) (db : CollDb src) : Prop where
  ready : db.step.isCurrStepReady = true →
    db.temp.contents = [] ∧ db.step.isBaseStepReady = true
  first : db.step.isBaseStepReady = false → db.main.contents = []
  baseStart {start} : db.step.isBaseStepReady = false → db.step.baseStart = some start →
    start = minStartMts
  baseEnd {stop} : db.step.isBaseStepReady = false → db.step.baseEnd = some stop →
    minStartMts < stop
  currStart {start} : db.step.currStart = some start → minStartMts ≤ start
  meets {stop} : db.step.isBaseStepReady = false → db.step.baseEnd = some stop →
    (∃ x ∈ db.found, src.date x ≤ stop) ∨ db.temp.contents = [] ∨ db.Idle minStartMts stop
  before {r x} : r ∈ db.missing minStartMts → x ∈ db.found → src.date r ≤ src.date x →
    (db.step.isBaseStepReady = false ∧ ∀ stop, db.step.baseEnd = some stop → src.date r ≤ stop) ∨
      ∀ stop, db.step.currEnd = some stop → src.date r ≤ stop
  after {start r} : db.main.contents = [] → db.step.currStart = some start →
    r ∈ db.missing minStartMts → start < src.date r

/-- What holds between two runs. -/
structure Resting (minStartMts : ℤ) (db : CollDb src) : Prop where
  within : db.Within minStartMts
  main : db.MainComplete minStartMts
  gapless : Gapless src.date (db.missing minStartMts) db.found
  fits : db.Fits minStartMts

end CollDb

/-- What is known of the step that is left.  Its base step is ready as well if a record is
found that is dated at the default start. -/
structure Left [DecidableEq κ] (minStartMts : ℤ) (db : CollDb src) (d : SyncUserStepData)
    (last : ℤ) : Prop where
  isCurr : d.isCurrStepReady = db.step.isCurrStepReady
  start_le : minStartMts ≤ last
  le_last {x} : x ∈ db.stored → src.date x ≤ last
  last_lt {r} : r ∈ db.missing minStartMts → (∀ x ∈ db.stored, src.date x < src.date r) →
    last < src.date r
  ready : d.isBaseStepReady = true → db.step.isBaseStepReady = true ∨
    ∃ x ∈ db.found, src.date x = minStartMts
  base : d.isBaseStepReady = false → db.step.isBaseStepReady = false ∧
    d.baseStart = some minStartMts ∧ ∃ stop, d.baseEnd = some stop ∧ minStartMts < stop ∧
      (∀ x ∈ db.found, stop ≤ src.date x) ∧
      (∀ r ∈ db.missing minStartMts, (∀ x ∈ db.found, src.date r < src.date x) →
        (∀ stop, db.step.baseEnd = some stop → src.date r ≤ stop) →
          db.temp.contents = [] ∨ src.date r ≤ stop) ∧
      ((∃ x ∈ db.found, src.date x ≤ stop) ∨ db.temp.contents = [] ∨ db.Idle minStartMts stop)
  curr : db.step.isCurrStepReady = false →
    (d.isBaseStepReady = false ∧ db.temp.contents = [] ∧ d.currStart = none ∧
      d.currEnd = none) ∨
    (d.isBaseStepReady = false → db.temp.contents ≠ []) ∧
    ∃ start stop, d.currStart = some start ∧ d.currEnd = some stop ∧ minStartMts ≤ start ∧
      (∀ r ∈ db.missing minStartMts, start < src.date r) ∧
      (∀ x ∈ db.found, stop ≤ src.date x) ∧
      (∀ r ∈ db.missing minStartMts, (∀ x ∈ db.found, src.date r < src.date x) →
        (∀ stop, db.step.currEnd = some stop → src.date r ≤ stop) →
          db.temp.contents = [] ∨ src.date r ≤ stop)

@[simp] theorem minMts_none_none : minMts [none, none] = none := rfl

@[simp] theorem minMts_some_none (mts : ℤ) : minMts [some mts, none] = some mts := rfl

@[simp] theorem minMts_none_some (mts : ℤ) : minMts [none, some mts] = some mts := rfl

@[simp] theorem minMts_some_some (mts mts' : ℤ) :
    minMts [some mts, some mts'] = some (min mts mts') := rfl

@[simp] theorem maxMts_none_none : maxMts [none, none] = none := rfl

@[simp] theorem maxMts_some_none (mts : ℤ) : maxMts [some mts, none] = some mts := rfl

@[simp] theorem maxMts_none_some (mts : ℤ) : maxMts [none, some mts] = some mts := rfl

@[simp] theorem maxMts_some_some (mts mts' : ℤ) :
    maxMts [some mts, some mts'] = some (max mts mts') := rfl

@[simp] theorem getMinStart_self (minStartMts : ℤ) :
    getMinStart minStartMts (some minStartMts) = some minStartMts := by
  simp [getMinStart]

/-- A table is empty, or has a first and a last record. -/
theorem tableDates_cases (t : Sql.Table src.key) :
    (t.contents = [] ∧ DataInserter.tableDates t = ⟨none, none⟩) ∨
      ∃ x ∈ t.contents, ∃ y ∈ t.contents,
        DataInserter.tableDates t = ⟨some (src.date x), some (src.date y)⟩ ∧
          ∀ z ∈ t.contents, src.date x ≤ src.date z ∧ src.date z ≤ src.date y := by
  unfold DataInserter.tableDates
  cases hmin : (t.contents.map src.date).min? with
  | none =>
      left
      have hnil : t.contents = [] := by simpa using hmin
      exact ⟨hnil, by simp [hnil]⟩
  | some first =>
      right
      cases hmax : (t.contents.map src.date).max? with
      | none =>
          have hnil : t.contents = [] := by simpa using hmax
          simp [hnil] at hmin
      | some last =>
          obtain ⟨hfirst, hle⟩ := List.min?_eq_some_iff.mp hmin
          obtain ⟨hlast, hge⟩ := List.max?_eq_some_iff.mp hmax
          obtain ⟨x, hx, rfl⟩ := List.mem_map.mp hfirst
          obtain ⟨y, hy, rfl⟩ := List.mem_map.mp hlast
          refine ⟨x, hx, y, hy, rfl, ?_⟩
          intro z hz
          exact ⟨hle _ (List.mem_map_of_mem hz), hge _ (List.mem_map_of_mem hz)⟩

/-- The last synchronisation of a private collection. -/
def lastSynced (minStartMts : ℤ) (db : CollDb src) (infoMts : ℤ) :
    SyncUserStepData × Option ℤ :=
  getLastSyncedInfoForCurrColl minStartMts false db.row (DataInserter.tableDates db.main)
    (DataInserter.tableDates db.temp) ⟨none, none, some minStartMts, some infoMts⟩

variable {minStartMts infoMts : ℤ} {db : CollDb src}

theorem lastSynced_snd (minStartMts : ℤ) (db : CollDb src) (infoMts : ℤ) :
    (lastSynced minStartMts db infoMts).2 =
      (maxMts [(DataInserter.tableDates db.temp).last, (DataInserter.tableDates db.main).last]).or
        (some minStartMts) := by
  unfold lastSynced getLastSyncedInfoForCurrColl
  simp only [getMinStart_self]
  split_ifs <;> rfl

/-- The date of the newest record of the tables, or the default start. -/
theorem exists_last (h : db.Within minStartMts) (infoMts : ℤ) :
    ∃ last, (lastSynced minStartMts db infoMts).2 = some last ∧ minStartMts ≤ last ∧
      (∀ x ∈ db.stored, src.date x ≤ last) ∧
      ∀ r ∈ db.missing minStartMts, (∀ x ∈ db.stored, src.date x < src.date r) →
        last < src.date r := by
  rw [lastSynced_snd]
  rcases tableDates_cases db.temp with ⟨htemp, hdates⟩ | ⟨_, _, y, hy, hdates, hle⟩ <;>
    rcases tableDates_cases db.main with ⟨hmain, hdates'⟩ | ⟨_, _, y', hy', hdates', hle'⟩ <;>
      simp only [hdates, hdates']
  · refine ⟨minStartMts, rfl, Int.le_refl _, ?_, fun r hr _ => hr.2.1⟩
    rintro x (hx | hx)
    · simp [hmain] at hx
    · simp [htemp] at hx
  · refine ⟨src.date y', rfl, h.start_le (.inl hy'), ?_, fun r _ hr => hr y' (.inl hy')⟩
    rintro x (hx | hx)
    · exact (hle' x hx).2
    · simp [htemp] at hx
  · refine ⟨src.date y, rfl, h.start_le (.inr hy), ?_, fun r _ hr => hr y (.inr hy)⟩
    rintro x (hx | hx)
    · simp [hmain] at hx
    · exact (hle x hx).2
  · refine ⟨max (src.date y) (src.date y'), rfl, ?_, ?_, ?_⟩
    · exact (h.start_le (.inr hy)).trans (le_max_left _ _)
    · rintro x (hx | hx)
      · exact (hle' x hx).2.trans (le_max_right _ _)
      · exact (hle x hx).2.trans (le_max_left _ _)
    · intro r _ hr
      exact max_lt (hr y (.inr hy)) (hr y' (.inl hy'))

/-- The step of a collection of which nothing is stored. -/
theorem lastSynced_of_nothing (hbase : db.step.isBaseStepReady = false)
    (hmain : db.main.contents = []) (htemp : db.temp.contents = []) :
    (lastSynced minStartMts db infoMts).1 =
      { SyncUserStepData.new with
        syncedAt := db.step.syncedAt
        baseStart := (getMinStart minStartMts db.step.baseStart).or (some minStartMts)
        baseEnd := db.step.baseEnd.or (some infoMts) } := by
  unfold CollDb.step at hbase
  simp [lastSynced, getLastSyncedInfoForCurrColl, DataInserter.tableDates, hmain, htemp, hbase,
    SyncUserStepData.new, CollDb.step]

/-- The fields of the step otherwise. -/
theorem lastSynced_of_some (minStartMts infoMts : ℤ)
    (h : db.step.isBaseStepReady = true ∨ db.main.contents ≠ [] ∨ db.temp.contents ≠ []) :
    (lastSynced minStartMts db infoMts).1 =
      let main := DataInserter.tableDates db.main
      let temp := DataInserter.tableDates db.temp
      let baseStart := getMinStart minStartMts db.step.baseStart
      let leftStart := (minMts [baseStart, main.first]).or (some minStartMts)
      let leftEnd := ((minMts [db.step.baseEnd, temp.first]).or main.last).or (some infoMts)
      { SyncUserStepData.new with
        syncedAt := db.step.syncedAt
        baseStart := if db.step.isBaseStepReady then baseStart else leftStart
        baseEnd := if db.step.isBaseStepReady then db.step.baseEnd else leftEnd
        currStart := if db.step.isCurrStepReady then db.step.currStart
          else (minMts [db.step.currStart, main.last]).or (some minStartMts)
        currEnd := if db.step.isCurrStepReady then db.step.currEnd
          else ((minMts [db.step.currEnd, temp.first]).or main.last).or (some infoMts)
        isBaseStepReady := db.step.isBaseStepReady || leftStart == leftEnd
        isCurrStepReady := db.step.isCurrStepReady } := by
  have hsome : (!db.step.isBaseStepReady && (DataInserter.tableDates db.main).last.isNone &&
      (DataInserter.tableDates db.temp).last.isNone) = false := by
    rcases tableDates_cases db.temp with ⟨htemp, hdates⟩ | ⟨_, _, y, hy, hdates, hle⟩ <;>
      rcases tableDates_cases db.main with ⟨hmain, hdates'⟩ | ⟨_, _, y', hy', hdates', hle'⟩ <;>
        simp_all
  unfold CollDb.step at hsome ⊢
  unfold lastSynced getLastSyncedInfoForCurrColl
  simp only [hsome, getMinStart_self, Bool.false_eq_true, if_false]
  cases hbase : (db.row.getD .missing).isBaseStepReady <;>
    cases hcurr : (db.row.getD .missing).isCurrStepReady <;>
      simp [SyncUserStepData.new, *]

/-- Where a window of the step that is left ends: not behind the first record of the
temporary table. -/
theorem exists_leftEnd (db : CollDb src) (stored : Option ℤ) (infoMts : ℤ) :
    ∃ stop, ((minMts [stored, (DataInserter.tableDates db.temp).first]).or
        (DataInserter.tableDates db.main).last).or (some infoMts) = some stop ∧
      (∀ x ∈ db.found, stop ≤ src.date x) ∧
      ∀ r, (∀ x ∈ db.found, src.date r < src.date x) →
        (∀ stop, stored = some stop → src.date r ≤ stop) →
          db.temp.contents = [] ∨ src.date r ≤ stop := by
  rcases tableDates_cases db.temp with ⟨htemp, hdates⟩ | ⟨x, hx, y, hy, hdates, hle⟩
  · have hnone : ∀ x ∈ db.found, False := by
      intro x hx
      simp [CollDb.found, htemp] at hx
    obtain ⟨stop, hstop⟩ : ∃ stop, ((minMts [stored, (DataInserter.tableDates db.temp).first]).or
        (DataInserter.tableDates db.main).last).or (some infoMts) = some stop := by
      rw [← Option.isSome_iff_exists]
      simp
    exact ⟨stop, hstop, fun x hx => (hnone x hx).elim, fun _ _ _ => .inl htemp⟩
  · rw [hdates]
    cases stored with
    | none =>
        refine ⟨src.date x, rfl, fun z hz => (hle z hz).1, ?_⟩
        intro r hr _
        exact .inr (Int.le_of_lt (hr x hx))
    | some stop =>
        refine ⟨min stop (src.date x), rfl, ?_, ?_⟩
        · intro z hz
          exact (min_le_right _ _).trans (hle z hz).1
        · intro r hr hbefore
          exact .inr (le_min (hbefore stop rfl) (Int.le_of_lt (hr x hx)))

theorem something_of_not (h : ¬(db.step.isBaseStepReady = false ∧ db.temp.contents = [])) :
    db.step.isBaseStepReady = true ∨ db.main.contents ≠ [] ∨ db.temp.contents ≠ [] := by
  by_cases hbase : db.step.isBaseStepReady = true
  · exact .inl hbase
  · exact .inr (.inr fun hnil => h ⟨by simpa using hbase, hnil⟩)

/-- A base step that is ready is left ready. -/
theorem notReady_of_lastSynced
    (h : (lastSynced minStartMts db infoMts).1.isBaseStepReady = false) :
    db.step.isBaseStepReady = false := by
  by_contra hbase
  have hready : db.step.isBaseStepReady = true := by simpa using hbase
  rw [lastSynced_of_some _ _ (.inl hready), hready] at h
  cases h

variable [DecidableEq κ]

theorem getMinStart_baseStart (h : db.Fits minStartMts) (hbase : db.step.isBaseStepReady = false) :
    (getMinStart minStartMts db.step.baseStart).or (some minStartMts) = some minStartMts := by
  cases hstart : db.step.baseStart with
  | none => rfl
  | some start =>
      obtain rfl := h.baseStart hbase hstart
      simp

/-- The base window of the step that is left, unless the records found reach back to the
default start. -/
theorem exists_baseEnd (h : db.Resting minStartMts) (hclock : minStartMts < infoMts)
    (hbase : db.step.isBaseStepReady = false) :
    ((lastSynced minStartMts db infoMts).1.isBaseStepReady = true ∧
        ∃ x ∈ db.found, src.date x = minStartMts) ∨
      (lastSynced minStartMts db infoMts).1.isBaseStepReady = false ∧
      (lastSynced minStartMts db infoMts).1.baseStart = some minStartMts ∧
      ∃ stop, (lastSynced minStartMts db infoMts).1.baseEnd = some stop ∧ minStartMts < stop ∧
        (∀ x ∈ db.found, stop ≤ src.date x) ∧
        (∀ r ∈ db.missing minStartMts, (∀ x ∈ db.found, src.date r < src.date x) →
          (∀ stop, db.step.baseEnd = some stop → src.date r ≤ stop) →
            db.temp.contents = [] ∨ src.date r ≤ stop) ∧
        ((∃ x ∈ db.found, src.date x ≤ stop) ∨ db.temp.contents = [] ∨
          db.Idle minStartMts stop) := by
  have hmain := h.fits.first hbase
  have hstart := getMinStart_baseStart h.fits hbase
  rcases tableDates_cases db.temp with ⟨htemp, _⟩ | ⟨x, hx, y, hy, hdates, hle⟩
  · right
    rw [lastSynced_of_nothing hbase hmain htemp]
    refine ⟨rfl, hstart, ?_⟩
    have hnone : ∀ x ∈ db.found, False := by
      intro x hx
      simp [CollDb.found, htemp] at hx
    cases hend : db.step.baseEnd with
    | none =>
        exact ⟨infoMts, rfl, hclock, fun x hx => (hnone x hx).elim, fun _ _ _ _ => .inl htemp,
          .inr (.inl htemp)⟩
    | some stop =>
        exact ⟨stop, rfl, h.fits.baseEnd hbase hend, fun x hx => (hnone x hx).elim,
          fun _ _ _ _ => .inl htemp, .inr (.inl htemp)⟩
  · have hne : db.temp.contents ≠ [] := List.ne_nil_of_mem hx
    have hxstart : minStartMts ≤ src.date x := h.within.start_le (.inr hx)
    have hmainDates : DataInserter.tableDates db.main = ⟨none, none⟩ := by
      simp [DataInserter.tableDates, hmain]
    rw [lastSynced_of_some _ _ (.inr (.inr hne))]
    simp only [hbase, hdates, hmainDates, Bool.false_eq_true, if_false, Bool.false_or]
    have hleft : (minMts [getMinStart minStartMts db.step.baseStart, none]).or (some minStartMts) =
        some minStartMts := by
      rw [← hstart]
      cases getMinStart minStartMts db.step.baseStart <;> rfl
    rw [hleft]
    cases hend : db.step.baseEnd with
    | none =>
        simp only [minMts_none_some, Option.some_or, beq_eq_false_iff_ne, beq_iff_eq, ne_eq,
          Option.some.injEq]
        by_cases hfirst : src.date x = minStartMts
        · exact .inl ⟨hfirst.symm, x, hx, hfirst⟩
        right
        refine ⟨by omega, trivial, src.date x, rfl, by omega, fun z hz => (hle z hz).1, ?_,
          .inl ⟨x, hx, Int.le_refl _⟩⟩
        intro r _ hr _
        exact .inr (Int.le_of_lt (hr x hx))
    | some stop =>
        have hstop := h.fits.baseEnd hbase hend
        simp only [minMts_some_some, Option.some_or, beq_eq_false_iff_ne, beq_iff_eq, ne_eq,
          Option.some.injEq]
        by_cases hfirst : src.date x = minStartMts
        · exact .inl ⟨by omega, x, hx, hfirst⟩
        right
        refine ⟨by omega, trivial, min stop (src.date x), rfl, by omega, ?_, ?_, ?_⟩
        · intro z hz
          exact (min_le_right _ _).trans (hle z hz).1
        · intro r _ hr hbefore
          exact .inr (le_min (hbefore stop rfl) (Int.le_of_lt (hr x hx)))
        · by_cases hlate : src.date x ≤ stop
          · exact .inl ⟨x, hx, le_min hlate (Int.le_refl _)⟩
          · rw [min_eq_left (by omega)]
            exact h.fits.meets hbase hend

/-- Where the current window of the step that is left starts: the main table has all before
it, and nothing before it is missing. -/
theorem exists_currStart (h : db.Resting minStartMts) :
    ∃ start, (minMts [db.step.currStart, (DataInserter.tableDates db.main).last]).or
        (some minStartMts) = some start ∧ minStartMts ≤ start ∧
      ∀ r ∈ db.missing minStartMts, start < src.date r := by
  rcases tableDates_cases db.main with ⟨hmain, hdates⟩ | ⟨_, _, y, hy, hdates, _⟩ <;>
    rw [hdates] <;> cases hstart : db.step.currStart with
    | none => _
    | some start => _
  · exact ⟨minStartMts, rfl, Int.le_refl _, fun r hr => hr.2.1⟩
  · exact ⟨start, rfl, h.fits.currStart hstart, fun r hr => h.fits.after hmain hstart hr⟩
  · exact ⟨src.date y, rfl, h.within.start_le (.inl hy), fun r hr => h.main r hr y hy⟩
  · have hstart_le := h.within.start_le (.inl hy)
    refine ⟨min start (src.date y), rfl, le_min (h.fits.currStart hstart) hstart_le, ?_⟩
    intro r hr
    exact (min_le_right _ _).trans_lt (h.main r hr y hy)

/-- The current window of the step that is left. -/
theorem exists_currEnd (h : db.Resting minStartMts) (hcurr : db.step.isCurrStepReady = false) :
    ((lastSynced minStartMts db infoMts).1.isBaseStepReady = false ∧ db.temp.contents = [] ∧
        (lastSynced minStartMts db infoMts).1.currStart = none ∧
        (lastSynced minStartMts db infoMts).1.currEnd = none) ∨
      ((lastSynced minStartMts db infoMts).1.isBaseStepReady = false → db.temp.contents ≠ []) ∧
      ∃ start stop, (lastSynced minStartMts db infoMts).1.currStart = some start ∧
        (lastSynced minStartMts db infoMts).1.currEnd = some stop ∧ minStartMts ≤ start ∧
        (∀ r ∈ db.missing minStartMts, start < src.date r) ∧
        (∀ x ∈ db.found, stop ≤ src.date x) ∧
        (∀ r ∈ db.missing minStartMts, (∀ x ∈ db.found, src.date r < src.date x) →
          (∀ stop, db.step.currEnd = some stop → src.date r ≤ stop) →
            db.temp.contents = [] ∨ src.date r ≤ stop) := by
  by_cases hnothing : db.step.isBaseStepReady = false ∧ db.temp.contents = []
  · left
    rw [lastSynced_of_nothing hnothing.1 (h.fits.first hnothing.1) hnothing.2]
    exact ⟨rfl, hnothing.2, rfl, rfl⟩
  · right
    obtain ⟨start, hstart, hle, hafter⟩ := exists_currStart h
    obtain ⟨stop, hstop, hfound, hbefore⟩ := exists_leftEnd db db.step.currEnd infoMts
    refine ⟨fun hbase hnil => hnothing ⟨notReady_of_lastSynced hbase, hnil⟩, start, stop, ?_⟩
    rw [lastSynced_of_some _ _ (something_of_not hnothing)]
    refine ⟨?_, ?_, hle, hafter, hfound, fun r _ => hbefore r⟩
    · simp only [hcurr, Bool.false_eq_true, if_false, hstart]
    · simp only [hcurr, Bool.false_eq_true, if_false, hstop]

/-- The step that is left between two runs. -/
theorem exists_left (h : db.Resting minStartMts) (hclock : minStartMts < infoMts) :
    ∃ last, (lastSynced minStartMts db infoMts).2 = some last ∧
      Left minStartMts db (lastSynced minStartMts db infoMts).1 last := by
  obtain ⟨last, hlast, hstart, hle, hlt⟩ := exists_last h.within infoMts
  refine ⟨last, hlast, ?_⟩
  have hisCurr : (lastSynced minStartMts db infoMts).1.isCurrStepReady =
      db.step.isCurrStepReady := by
    by_cases hnothing : db.step.isBaseStepReady = false ∧ db.temp.contents = []
    · have hmain := h.fits.first hnothing.1
      have hnotReady : db.step.isCurrStepReady = false := by
        by_contra hcurr
        have hready := (h.fits.ready (by simpa using hcurr)).2
        rw [hnothing.1] at hready
        cases hready
      rw [lastSynced_of_nothing hnothing.1 hmain hnothing.2, hnotReady]
      rfl
    · rw [lastSynced_of_some _ _ (something_of_not hnothing)]
  cases hbase : db.step.isBaseStepReady with
  | true =>
      refine ⟨hisCurr, hstart, fun hx => hle _ hx, fun hr => hlt _ hr, fun _ => .inl hbase, ?_,
        exists_currEnd h⟩
      intro hfalse
      exact absurd ((notReady_of_lastSynced hfalse).symm.trans hbase) Bool.false_ne_true
  | false =>
      refine ⟨hisCurr, hstart, fun hx => hle _ hx, fun hr => hlt _ hr, ?_, ?_, exists_currEnd h⟩
      · intro hready
        rcases exists_baseEnd h hclock hbase with ⟨_, hfound⟩ | ⟨hfalse, _⟩
        · exact .inr hfound
        · exact absurd (hfalse.symm.trans hready) Bool.false_ne_true
      · intro hfalse
        rcases exists_baseEnd h hclock hbase with ⟨hready, _⟩ | ⟨_, hwindow⟩
        · exact absurd (hfalse.symm.trans hready) Bool.false_ne_true
        · exact ⟨hbase, hwindow⟩

end ReportsFramework.SyncSteps
