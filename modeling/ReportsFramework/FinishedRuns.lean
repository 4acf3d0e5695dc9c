/-
A run that is not interrupted finishes, from whatever tables and step the runs before it
left: the course of a load does not depend on the table, and its loop comes to an end.
-/
import ReportsFramework.PrivateSync

namespace ReportsFramework

namespace PageSource

variable {ρ κ : Type*} [DecidableEq κ] {src : PageSource ρ κ} {start : ℤ} {limit : ℕ}
variable {s s' : ApiPages.Loop src.toApiPages}

/-- If the loop returns from one table, it returns from any. -/
theorem loopFor_of_loop {fuel : ℕ} {result : Sql.Table src.key}
    (h : src.loop start limit fuel s = some result) (t : Sql.Table src.key) :
    ∃ s' left, src.loopFor start limit fuel { s with table := t } = (s', some left) := by
  induction fuel generalizing s t with
  | zero => cases h
  | succ fuel ih =>
      obtain ⟨rows, _, hiterate⟩ := src.exists_rows start limit s
      rw [ApiPages.loop] at h
      rw [ApiPages.loopFor, hiterate t]
      rcases hs : src.iterate start limit s with ⟨s', _ | _⟩
      · exact ⟨_, fuel, rfl⟩
      · rw [hs] at h
        exact ih h (t.insertAll rows)

/-- A loop that has ended leaves the pages that are added. -/
theorem loopFor_add {pages left : ℕ} (h : src.loopFor start limit pages s = (s', some left))
    (more : ℕ) : src.loopFor start limit (pages + more) s = (s', some (left + more)) := by
  induction pages generalizing s with
  | zero => cases h
  | succ pages ih =>
      rw [Nat.succ_add]
      rw [ApiPages.loopFor] at h ⊢
      rcases hs : src.iterate start limit s with ⟨s₁, _ | _⟩
      · rw [hs] at h
        obtain ⟨rfl, hleft⟩ := Prod.mk.inj h
        rw [Option.some.inj hleft]
      · rw [hs] at h
        exact ih h

end PageSource

namespace SyncSteps.DataInserter

open SyncUserStepManager

variable {ρ κ : Type*} [DecidableEq κ] {src : PageSource ρ κ} {minStartMts : ℤ}

section Load

variable {shouldBeSynced : Bool} {start stop : Option ℤ} {temp temp' : Sql.Table src.key}

theorem exists_insert (shouldBeSynced : Bool) (start stop : Option ℤ) (temp : Sql.Table src.key) :
    ∃ writes temp' left,
      insertApiDataArrObjTypeToDb shouldBeSynced start stop writes temp = (temp', some left) := by
  cases shouldBeSynced with
  | false => exact ⟨0, temp, 0, rfl⟩
  | true =>
      obtain ⟨fuel, result, hloop, _⟩ :=
        (src.descending_start (start.getD 0) (stop.getD 0) limit).returns
      obtain ⟨s, left, hleft⟩ := PageSource.loopFor_of_loop hloop temp
      refine ⟨fuel, s.table, left, ?_⟩
      simp only [insertApiDataArrObjTypeToDb, hleft, if_true]

theorem insert_add {writes left : ℕ}
    (h : insertApiDataArrObjTypeToDb shouldBeSynced start stop writes temp = (temp', some left))
    (more : ℕ) :
    insertApiDataArrObjTypeToDb shouldBeSynced start stop (writes + more) temp =
      (temp', some (left + more)) := by
  cases shouldBeSynced with
  | false =>
      obtain ⟨rfl, hleft⟩ := Prod.mk.inj h
      obtain rfl := Option.some.inj hleft
      rfl
  | true =>
      rcases hloop : src.loopFor (start.getD 0) limit writes ⟨stop.getD 0, 0, 0, 0, temp⟩
        with ⟨s, left'⟩
      simp only [insertApiDataArrObjTypeToDb, hloop, if_true] at h
      obtain ⟨rfl, rfl⟩ := Prod.mk.inj h
      simp only [insertApiDataArrObjTypeToDb, PageSource.loopFor_add hloop more, if_true]

end Load

theorem exists_insertApiData (db : CollDb src) (d : SyncUserStepData) :
    ∃ writes db' left left',
      ∀ more, insertApiData db d (writes + more) = (db', .ok (left, left' + more)) := by
  obtain ⟨writes₁, temp₁, left₁, hbase⟩ := exists_insert
    (shouldBaseStepBeSynced d .none) d.baseStart d.baseEnd db.temp
  obtain ⟨writes₂, temp₂, left₂, hcurr⟩ := exists_insert
    (shouldCurrStepBeSynced d .none) d.currStart d.currEnd temp₁
  have hall (more : ℕ) : insertApiData db d (writes₁ + writes₂ + 1 + more) =
      (⟨some (SyncUserStepManager.updateSyncInfo db.row d), db.main, temp₂⟩,
        .ok ({ d with
            wasBaseStepsBeSynced := d.wasBaseStepsBeSynced || shouldBaseStepBeSynced d .none
            wasCurrStepsBeSynced := d.wasCurrStepsBeSynced || shouldCurrStepBeSynced d .none },
          left₂ + left₁ + more)) := by
    have hbase' := insert_add hbase (writes₂ + more)
    have hcurr' := insert_add hcurr (left₁ + more)
    have hwrites : writes₁ + writes₂ + 1 + more = writes₁ + (writes₂ + more) + 1 := by omega
    have hleft : left₁ + (writes₂ + more) = writes₂ + (left₁ + more) := by omega
    have hleft' : left₂ + (left₁ + more) = left₂ + left₁ + more := by omega
    rw [hwrites, insertApiData, hbase']
    simp only [hleft, hcurr', hleft']
  exact ⟨writes₁ + writes₂ + 1, _, _, left₂ + left₁, hall⟩

theorem exists_insertSteps (db : CollDb src) (done steps : List SyncUserStepData) :
    ∃ writes db' start left, ∀ more, insertSteps db done steps (writes + more) =
      (db', .ok (start, left + more)) := by
  induction steps generalizing db done with
  | nil => exact ⟨0, db, done, 0, fun more => rfl⟩
  | cons d rest ih =>
      obtain ⟨writes, db₁, left, left', hall⟩ := exists_insertApiData db d
      obtain ⟨writes', db', start, left'', hrest⟩ := ih db₁ (done ++ [left])
      refine ⟨writes + writes', db', start, left'' + left', fun more => ?_⟩
      have hfirst := hall (writes' + more)
      have hlast := hrest (left' + more)
      have hwrites : writes + writes' + more = writes + (writes' + more) := by omega
      have hleft : left' + (writes' + more) = writes' + (left' + more) := by omega
      have hleft' : left'' + (left' + more) = left'' + left' + more := by omega
      rw [hwrites, insertSteps, hfirst]
      simp only [hleft, hlast, hleft']

/-- From some number of writes on, a run finishes, and always with the same tables. -/
theorem run_finishes (minStartMts : ℤ) (db : CollDb src) (currMts infoMts syncedAt : ℤ) :
    ∃ writes db', ∀ writes', writes ≤ writes' →
      runSync minStartMts db ⟨currMts, infoMts, syncedAt, writes'⟩ = (db', .finished) := by
  obtain ⟨writes, db', start, left, hall⟩ :=
    exists_insertSteps db [] (stepsOf minStartMts db ⟨currMts, infoMts, syncedAt, 0⟩)
  refine ⟨writes + 1, updateSyncInfo db' start syncedAt, ?_⟩
  intro writes' hle
  obtain ⟨more, rfl⟩ := Nat.exists_eq_add_of_le hle
  have hinserted := hall (1 + more)
  have hwrites : writes + (1 + more) = writes + 1 + more := by omega
  have hleft : left + (1 + more) = left + more + 1 := by omega
  rw [hwrites, hleft] at hinserted
  have hsteps : insertSteps db []
      (stepsOf minStartMts db ⟨currMts, infoMts, syncedAt, writes + 1 + more⟩)
      (writes + 1 + more) = (db', .ok (start, left + more + 1)) := hinserted
  simp only [runSync, hsteps]

end SyncSteps.DataInserter

end ReportsFramework
