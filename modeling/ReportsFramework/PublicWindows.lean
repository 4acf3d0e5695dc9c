/-
What a run loads of a configurable public collection: the windows of a step, those of the
steps of a run symbol by symbol, and those that a check of the configuration asks for.
-/
import ReportsFramework.PrivateHistory
import ReportsFramework.PublicSync

namespace ReportsFramework.SyncSteps

open DataChecker SyncUserStepManager

section Windows

variable {ρ κ : Type*} {src : PageSource ρ κ}

/-- The windows that are loaded for a step. -/
def SyncUserStepData.windows (d : SyncUserStepData) : List (ℤ × ℤ) :=
  (if shouldBaseStepBeSynced d .none then [(d.baseStart.getD 0, d.baseEnd.getD 0)] else []) ++
    if shouldCurrStepBeSynced d .none then [(d.currStart.getD 0, d.currEnd.getD 0)] else []

/-- A table after windows have been loaded; records dated at the start of a window may be
missing. -/
structure WindowsLoaded (src : PageSource ρ κ) (windows : List (ℤ × ℤ))
    (before after : Sql.Table src.key) : Prop where
  kept {r} : r ∈ before.contents → r ∈ after.contents
  added {r} : r ∈ after.contents → r ∈ before.contents ∨
    r ∈ src.history ∧ ∃ w ∈ windows, src.date r ≤ w.2
  reached {r w} : r ∈ src.history → w ∈ windows → w.1 < src.date r → src.date r ≤ w.2 →
    r ∈ after.contents

variable {windows windows' : List (ℤ × ℤ)} {before between after : Sql.Table src.key}

theorem WindowsLoaded.nil (t : Sql.Table src.key) : WindowsLoaded src [] t t where
  kept := id
  added := .inl
  reached := by
    intro r w _ hw
    cases hw

theorem WindowsLoaded.append (h : WindowsLoaded src windows before between)
    (h' : WindowsLoaded src windows' between after) :
    WindowsLoaded src (windows ++ windows') before after where
  kept hr := h'.kept (h.kept hr)
  added := by
    intro r hr
    rcases h'.added hr with hold | ⟨hmem, w, hw, hle⟩
    · exact (h.added hold).imp_right fun ⟨hmem, w, hw, hle⟩ =>
        ⟨hmem, w, List.mem_append_left _ hw, hle⟩
    · exact .inr ⟨hmem, w, List.mem_append_right _ hw, hle⟩
  reached := by
    intro r w hr hw hstart hstop
    rcases List.mem_append.mp hw with hw | hw
    · exact h'.kept (h.reached hr hw hstart hstop)
    · exact h'.reached hr hw hstart hstop

theorem WindowsLoaded.known (h : WindowsLoaded src windows before after)
    (hbefore : ∀ r ∈ before.contents, r ∈ src.history) : ∀ r ∈ after.contents, r ∈ src.history :=
  fun r hr => (h.added hr).elim (hbefore r) And.left

/-- What is loaded to an empty table, and moved. -/
theorem WindowsLoaded.moved {temp temp' : Sql.Table src.key}
    (h : WindowsLoaded src windows temp temp') (htemp : temp.contents = [])
    (hmem : ∀ r, r ∈ after.contents ↔ r ∈ before.contents ∨ r ∈ temp'.contents) :
    WindowsLoaded src windows before after where
  kept hr := (hmem _).mpr (.inl hr)
  added := by
    intro r hr
    rcases (hmem r).mp hr with hold | hnew
    · exact .inl hold
    · refine .inr ((h.added hnew).resolve_left ?_)
      simp [htemp]
  reached hr hw hstart hstop := (hmem _).mpr (.inr (h.reached hr hw hstart hstop))

variable [DecidableEq κ] {writes : ℕ}

end Windows

section Steps

variable {ρ κ : Type*} [DecidableEq κ] {src : ConfKey → PageSource ρ κ}
variable {db db' : PublicDb src} {steps : List (ConfKey × SyncUserStepData)}

/-- The windows of the steps of one symbol. -/
def windowsOf (steps : List (ConfKey × SyncUserStepData)) (key : ConfKey) : List (ℤ × ℤ) :=
  steps.flatMap fun step => if step.1 = key then step.2.windows else []

/-- The steps of a run are inserted: each table has the windows of its symbol, and the row is
that of the last step. -/
structure StepsInserted (db : PublicDb src) (steps : List (ConfKey × SyncUserStepData))
    (db' : PublicDb src) : Prop where
  main : db'.main = db.main
  row : (steps = [] ∧ db'.row = db.row) ∨ ∃ step row, steps.getLast? = some step ∧
    db'.row = some (updateSyncInfo row step.2)
  loaded (key : ConfKey) : WindowsLoaded (src key) (windowsOf steps key) (db.temp key)
    (db'.temp key)

omit [DecidableEq κ] in
theorem StepsInserted.nil (db : PublicDb src) : StepsInserted db [] db :=
  ⟨rfl, .inl ⟨rfl, rfl⟩, fun _ => .nil _⟩

omit [DecidableEq κ] in
/-- One step more at the front. -/
theorem StepsInserted.cons {key : ConfKey} {d : SyncUserStepData} {coll : CollDb (src key)}
    {row : Option SyncUserStep} (hrow : coll.row = some (updateSyncInfo row d))
    (hmain : coll.main = db.main key)
    (hloaded : WindowsLoaded (src key) d.windows (db.temp key) coll.temp)
    (h : StepsInserted (db.put key coll) steps db') :
    StepsInserted db ((key, d) :: steps) db' where
  main := by
    rw [h.main]
    unfold PublicDb.put
    simp only [hmain, Function.update_eq_self]
  row := by
    right
    rcases h.row with ⟨rfl, hsame⟩ | ⟨step, row', hlast, hrow'⟩
    · exact ⟨(key, d), row, rfl, hsame.trans hrow⟩
    · refine ⟨step, row', ?_, hrow'⟩
      rw [List.getLast?_cons, hlast]
      rfl
  loaded key' := by
    have hrest := h.loaded key'
    unfold windowsOf at hrest ⊢
    rw [List.flatMap_cons]
    by_cases hkey : key = key'
    · subst hkey
      rw [if_pos rfl]
      apply hloaded.append
      simpa [PublicDb.put] using hrest
    · rw [if_neg hkey, List.nil_append]
      simpa [PublicDb.put, Function.update_of_ne (Ne.symm hkey)] using hrest

end Steps

section Checks

variable {minStartMts currMts : ℤ} {row : Option SyncUserStep} {main temp : TableDates}
variable {conf : ConfKey × ℤ} {d : SyncUserStepData} {last : Option ℤ}

theorem getMinStart_some (minStartMts start : ℤ) :
    getMinStart minStartMts (some start) = some (max minStartMts start) := by
  simp only [getMinStart, Option.map_some, Option.some.injEq]
  split_ifs <;> omega

/-- The step that is pushed beside the one that is left, if there is one. -/
def freshOfConf (d : SyncUserStepData) (last : Option ℤ) (conf : ConfKey × ℤ) (currMts : ℤ) :
    SyncUserStepData :=
  let moved := wasStartPointChanged d conf.2
  let fresh := shouldFreshSyncBeAdded d currMts allowedDiff
  { d.ofParams with
    baseStart := if moved then some conf.2 else d.baseStart
    baseEnd := if moved then d.baseStart else d.baseEnd
    currStart := if fresh then last else d.currStart
    currEnd := if fresh then some currMts else d.currEnd
    isBaseStepReady := !moved
    isCurrStepReady := !fresh }

theorem checkConf_eq (h : lastSyncedOfConf minStartMts row main temp conf currMts = (d, last)) :
    checkConf minStartMts row main temp conf currMts =
      (if !d.isBaseStepReady || !d.isCurrStepReady then [d] else []) ++
      if wasStartPointChanged d conf.2 || shouldFreshSyncBeAdded d currMts allowedDiff then
        [freshOfConf d last conf currMts]
      else [] := by
  unfold checkConf freshOfConf
  simp only [h]
  cases wasStartPointChanged d conf.2 <;>
    cases shouldFreshSyncBeAdded d currMts allowedDiff <;> rfl

theorem mem_windows {w : ℤ × ℤ} : w ∈ d.windows ↔
    (d.isBaseStepReady = false ∧ ∃ start stop, d.baseStart = some start ∧ d.baseEnd = some stop ∧
      start < stop ∧ w = (start, stop)) ∨
    (d.isCurrStepReady = false ∧ ∃ start stop, d.currStart = some start ∧ d.currEnd = some stop ∧
      start < stop ∧ w = (start, stop)) := by
  unfold SyncUserStepData.windows
  rw [List.mem_append]
  apply or_congr
  · constructor
    · intro hw
      split_ifs at hw with hshould
      · obtain ⟨hready, start, stop, hstart, hstop, hlt⟩ := window_of_shouldBase hshould
        refine ⟨hready, start, stop, hstart, hstop, hlt, ?_⟩
        simpa [hstart, hstop] using hw
      · cases hw
    · rintro ⟨hready, start, stop, hstart, hstop, hlt, rfl⟩
      rw [shouldBase_of_window hready hstart hstop, decide_eq_true hlt, if_pos rfl, hstart, hstop]
      exact List.mem_singleton_self _
  · constructor
    · intro hw
      split_ifs at hw with hshould
      · obtain ⟨hready, start, stop, hstart, hstop, hlt⟩ := window_of_shouldCurr hshould
        refine ⟨hready, start, stop, hstart, hstop, hlt, ?_⟩
        simpa [hstart, hstop] using hw
      · cases hw
    · rintro ⟨hready, start, stop, hstart, hstop, hlt, rfl⟩
      rw [shouldCurr_of_window hready hstart hstop, decide_eq_true hlt, if_pos rfl, hstart, hstop]
      exact List.mem_singleton_self _

theorem mem_windows_freshOfConf {w : ℤ × ℤ} : w ∈ (freshOfConf d last conf currMts).windows ↔
    (wasStartPointChanged d conf.2 = true ∧ ∃ stop, d.baseStart = some stop ∧ conf.2 < stop ∧
      w = (conf.2, stop)) ∨
    (shouldFreshSyncBeAdded d currMts allowedDiff = true ∧ ∃ start, last = some start ∧
      start < currMts ∧ w = (start, currMts)) := by
  rw [mem_windows]
  unfold freshOfConf
  cases wasStartPointChanged d conf.2 <;>
    cases shouldFreshSyncBeAdded d currMts allowedDiff <;> simp

/-- The windows that a configured symbol is loaded in. -/
theorem mem_windows_checkConf
    (h : lastSyncedOfConf minStartMts row main temp conf currMts = (d, last)) {w : ℤ × ℤ} :
    w ∈ (checkConf minStartMts row main temp conf currMts).flatMap SyncUserStepData.windows ↔
      w ∈ d.windows ∨ w ∈ (freshOfConf d last conf currMts).windows := by
  rw [checkConf_eq h, List.flatMap_append, List.mem_append]
  apply or_congr
  · split_ifs with hpushed
    · simp
    · have hready : d.isBaseStepReady = true ∧ d.isCurrStepReady = true := by simpa using hpushed
      simp [mem_windows, hready.1, hready.2]
  · split_ifs with hpushed
    · simp
    · have hnone : wasStartPointChanged d conf.2 = false ∧
          shouldFreshSyncBeAdded d currMts allowedDiff = false := by simpa using hpushed
      simp [mem_windows_freshOfConf, hnone.1, hnone.2]

end Checks

end ReportsFramework.SyncSteps
