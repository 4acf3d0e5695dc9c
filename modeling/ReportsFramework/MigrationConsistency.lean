/-
What holds of the database over any number of starts and migrations: when no
initialisation is running, the schema is the one of the stored version, as long as
nothing comes between a change of the schema and its stamp.
-/
import ReportsFramework.DbMigration

namespace ReportsFramework

/-- The migrations lead from one version to the other. -/
def Leads (isDown : Bool) : ℕ → List ℕ → ℕ → Prop
  | start, [], stop => start = stop
  | start, v :: rest, stop =>
      v ≠ 0 ∧ baseOf v isDown = start ∧ Leads isDown (stampOf v isDown) rest stop

theorem leads_up (start n : ℕ) :
    Leads false start ((List.range n).map (start + 1 + ·)) (start + n) := by
  induction n generalizing start with
  | zero => rfl
  | succ n ih =>
      rw [List.range_succ_eq_map, List.map_cons, List.map_map]
      refine ⟨by omega, by simp [baseOf], ?_⟩
      have htail := ih (start + 1)
      rw [show start + 1 + n = start + (n + 1) by omega] at htail
      have hshift : (start + 1 + ·) ∘ Nat.succ = (start + 1 + 1 + ·) := by
        funext i
        simp only [Function.comp_apply]
        omega
      rw [hshift]
      exact htail

theorem leads_down (stop n : ℕ) :
    Leads true (stop + n) ((List.range n).map (stop + 1 + ·)).reverse stop := by
  induction n with
  | zero => rfl
  | succ n ih =>
      rw [List.range_succ, List.map_append, List.reverse_append]
      have hbase : baseOf (stop + 1 + n) true = stop + (n + 1) := by
        rw [baseOf, if_pos rfl]
        omega
      have hstamp : stampOf (stop + 1 + n) true = stop + n := by
        rw [stampOf, if_pos rfl]
        omega
      refine ⟨by simp, hbase, ?_⟩
      rw [hstamp]
      exact ih

theorem leads_migrationRange (start stop : ℕ) :
    Leads (decide (stop < start)) start (migrationRange start stop) stop := by
  unfold migrationRange
  split_ifs with hdown
  · have hleads := leads_down stop (start - stop)
    rw [show stop + (start - stop) = start by omega] at hleads
    rwa [decide_eq_true hdown]
  · have hleads := leads_up start (stop - start)
    rw [show start + (stop - start) = stop by omega] at hleads
    rwa [decide_eq_false hdown]

theorem mem_migrationRange {start stop v : ℕ} :
    v ∈ migrationRange start stop ↔
      (start < v ∧ v ≤ stop) ∨ (stop < v ∧ v ≤ start) := by
  unfold migrationRange
  split_ifs with hdown
  all_goals
    simp only [List.mem_reverse, List.mem_map, List.mem_range]
    constructor
    · rintro ⟨i, hi, rfl⟩
      omega
    · intro hv
      first
        | exact ⟨v - (stop + 1), by omega, by omega⟩
        | exact ⟨v - (start + 1), by omega, by omega⟩

theorem pairwise_migrationRange_up {start stop : ℕ} (h : start ≤ stop) :
    (migrationRange start stop).Pairwise (· < ·) := by
  rw [migrationRange, if_neg (by omega), List.pairwise_map]
  exact List.pairwise_lt_range.imp fun hlt => by omega

theorem pairwise_migrationRange_down {start stop : ℕ} (h : stop ≤ start) :
    (migrationRange start stop).Pairwise (· > ·) := by
  rcases h.eq_or_lt with rfl | hlt
  · simp [migrationRange]
  · rw [migrationRange, if_pos hlt, List.pairwise_reverse, List.pairwise_map]
    exact List.pairwise_lt_range.imp fun hlt => by omega

namespace DbState

variable {S : Type*} {M : Migrations S} {s s' : DbState S} {a : DbAction}

/-- The schema after `done` parts of creating the structure in an empty database. -/
def created (M : Migrations S) (sup : ℕ) : ℕ → S
  | 0 => M.schemaOf 0
  | done + 1 => M.create sup done (created M sup done)

theorem created_three (sup : ℕ) : created M sup 3 = M.schemaOf sup :=
  M.create_empty

/-- The schema is the one the current migration starts from, or leaves. -/
structure CallInv (M : Migrations S) (db : Db S) (call : MigrateCall) : Prop where
  split : call.passed ++ call.todo = migrationRange call.currVer call.supportedVer
  files : ∀ v ∈ call.todo, M.hasFile v
  consistent : call.point ≠ .executed → db.Consistent M
  before : call.point = .before → ∃ pos, db.schema = M.schemaOf pos ∧
    Leads call.isDown pos call.todo call.supportedVer
  behind : call.point ≠ .before → ∃ v rest, call.todo = v :: rest ∧
    db.schema = M.schemaOf (stampOf v call.isDown) ∧
    Leads call.isDown (stampOf v call.isDown) rest call.supportedVer

/-- What the stage of a running initialisation says of the database. -/
def StageInv (M : Migrations S) (db : Db S) (sup : ℕ) : InitStage → Prop
  | .migrating call => call.supportedVer = sup ∧ CallInv M db call
  | .failed => db.Consistent M
  | .removed => db.schema = M.schemaOf 0
  | .creating done => done ≤ 2 ∧ (done = 0 → db.Consistent M) ∧
      (db.schema = M.schemaOf sup ∨
        db.schema = created M sup done ∧ db.userVersion ≠ sup)
  | .stamping => db.schema = M.schemaOf sup

structure Inv (M : Migrations S) (s : DbState S) : Prop where
  idle : s.running = none → s.db.Consistent M
  stage : ∀ sup stage, s.running = some (sup, stage) → StageInv M s.db sup stage
  backups : ∀ db ∈ s.backups, db.Consistent M
  met : ∀ e ∈ s.executions, e.met = M.schemaOf (baseOf e.version e.isDown)
  passed : ∀ call ∈ s.finished,
    call.passed = migrationRange call.currVer call.supportedVer

/-- What a migration executes turns the schema it starts from into the one it leaves. -/
theorem sqlArr_schemaOf {v : ℕ} {isDown : Bool} (hv : v ≠ 0) (hfile : M.hasFile v)
    (hleads : M.leads v isDown) :
    (sqlArr M v isDown).getD some (M.schemaOf (baseOf v isDown)) =
      some (M.schemaOf (stampOf v isDown)) := by
  rw [sqlArr, if_neg hv]
  exact M.leads_schemaOf hfile hleads

/-- Creating the structure begins in an empty database or in one of the supported version. -/
theorem stageInv_creating_zero {db : Db S} {sup : ℕ} (hdb : db.Consistent M)
    (h : db.schema = M.schemaOf 0 ∨ db.schema = M.schemaOf sup) :
    StageInv M db sup (.creating 0) := by
  refine ⟨by omega, fun _ => hdb, ?_⟩
  by_cases hver : db.userVersion = sup
  · left
    rw [hdb, hver]
  · exact h.symm.imp_right fun hempty => ⟨hempty, hver⟩

theorem callInv_start {db : Db S} (hdb : db.Consistent M) (sup : ℕ)
    (hfiles : (migrationRange db.userVersion sup).all M.hasFile) :
    CallInv M db ⟨db.userVersion, sup, [], migrationRange db.userVersion sup, .before⟩ where
  split := rfl
  files := List.all_eq_true.mp hfiles
  consistent _ := hdb
  before _ := ⟨db.userVersion, hdb, leads_migrationRange db.userVersion sup⟩
  behind h := absurd rfl h

/-- A migration that has not been executed is met by the schema it starts from. -/
theorem CallInv.schema_eq {db : Db S} {call : MigrateCall} {v : ℕ} {rest : List ℕ}
    (hcall : CallInv M db call) (hpoint : call.point = .before)
    (htodo : call.todo = v :: rest) :
    v ≠ 0 ∧ db.schema = M.schemaOf (baseOf v call.isDown) ∧
      Leads call.isDown (stampOf v call.isDown) rest call.supportedVer := by
  obtain ⟨pos, hschema, hleads⟩ := hcall.before hpoint
  rw [htodo] at hleads
  obtain ⟨hv, hpos, hrest⟩ := hleads
  rw [hpos]
  exact ⟨hv, hschema, hrest⟩

theorem Inv.databaseInitialize (hs : Inv M s) (hrunning : s.running = none)
    {sup : ℕ} {backedUp : Bool} (h : step M s (.databaseInitialize sup backedUp) = some s') :
    Inv M s' := by
  have hdb := hs.idle hrunning
  simp only [step, hrunning] at h
  by_cases hskip : returnsAtOnce M s.db sup
  · rw [if_pos hskip] at h
    obtain rfl := Option.some.inj h
    refine ⟨by simp, ?_, hs.backups, hs.met, hs.passed⟩
    rintro _ _ ⟨⟩
    apply stageInv_creating_zero hdb
    rcases Bool.or_eq_true_iff.mp hskip with hempty | hver
    · exact .inl (M.isDBEmpty_iff.mp hempty)
    · right
      rw [← of_decide_eq_true hver]
      exact hdb
  · rw [if_neg hskip] at h
    obtain rfl := Option.some.inj h
    refine ⟨by simp, ?_, ?_, hs.met, hs.passed⟩
    · rintro _ _ ⟨⟩
      by_cases hfiles : (migrationRange s.db.userVersion sup).all M.hasFile
      · rw [if_pos hfiles]
        exact ⟨rfl, callInv_start hdb sup hfiles⟩
      · rw [if_neg hfiles]
        exact hdb
    · intro db hmem
      cases backedUp with
      | false => exact hs.backups db hmem
      | true =>
          rcases List.mem_cons.mp hmem with heq | hold
          · exact heq ▸ hdb
          · exact hs.backups db hold

section MigrateStep

variable {sup : ℕ} {call : MigrateCall}

theorem Inv.executeQueriesInTrans (hs : Inv M s)
    (hrunning : s.running = some (sup, .migrating call))
    (hleads : call.todo.head?.all (M.leads · call.isDown))
    (h : migrateStep M s sup call .executeQueriesInTrans = some s') : Inv M s' := by
  obtain ⟨hsup, hcall⟩ := hs.stage _ _ hrunning
  obtain ⟨currVer, supportedVer, passed, todo, point⟩ := call
  rcases todo with _ | ⟨v, rest⟩ <;> rcases point <;>
    simp only [DbState.migrateStep, reduceCtorEq] at h
  obtain ⟨hv, hschema, hrest⟩ := hcall.schema_eq rfl rfl
  have hfile := hcall.files v List.mem_cons_self
  have hsql := sqlArr_schemaOf hv hfile hleads
  split at h
  next f hf =>
    obtain ⟨schema, hrun, rfl⟩ := Option.map_eq_some_iff.mp h
    rw [hf, Option.getD_some, ← hschema, hrun] at hsql
    have hleft := Option.some.inj hsql
    refine ⟨by simp, ?_, hs.backups, ?_, hs.passed⟩
    · rintro _ _ ⟨⟩
      exact ⟨hsup, hcall.split, hcall.files, by simp, by simp,
        fun _ => ⟨v, rest, rfl, hleft, hrest⟩⟩
    · intro e he
      rcases List.mem_append.mp he with hold | hnew
      · exact hs.met e hold
      · obtain rfl := List.mem_singleton.mp hnew
        exact hschema
  next hnone =>
    obtain rfl := Option.some.inj h
    rw [hnone, Option.getD_none] at hsql
    have hleft := hschema.trans (Option.some.inj hsql)
    refine ⟨by simp, ?_, hs.backups, hs.met, hs.passed⟩
    rintro _ _ ⟨⟩
    exact ⟨hsup, hcall.split, hcall.files, fun _ => hcall.consistent (by simp), by simp,
      fun _ => ⟨v, rest, rfl, hleft, hrest⟩⟩

theorem Inv.setCurrDbVer (hs : Inv M s) (hrunning : s.running = some (sup, .migrating call))
    (h : migrateStep M s sup call .setCurrDbVer = some s') : Inv M s' := by
  obtain ⟨hsup, hcall⟩ := hs.stage _ _ hrunning
  obtain ⟨currVer, supportedVer, passed, todo, point⟩ := call
  rcases todo with _ | ⟨v, rest⟩ <;> rcases point <;>
    simp only [DbState.migrateStep, reduceCtorEq] at h
  obtain ⟨_, _, ⟨⟩, hleft, hrest⟩ := hcall.behind (by simp)
  obtain rfl := Option.some.inj h
  refine ⟨by simp, ?_, hs.backups, hs.met, hs.passed⟩
  rintro _ _ ⟨⟩
  exact ⟨hsup, hcall.split, hcall.files, fun _ => hleft, by simp,
    fun _ => ⟨v, rest, rfl, hleft, hrest⟩⟩

theorem Inv.next (hs : Inv M s) (hrunning : s.running = some (sup, .migrating call))
    (h : migrateStep M s sup call .next = some s') : Inv M s' := by
  obtain ⟨hsup, hcall⟩ := hs.stage _ _ hrunning
  obtain ⟨currVer, supportedVer, passed, todo, point⟩ := call
  rcases todo with _ | ⟨v, rest⟩ <;> rcases point <;>
    simp only [DbState.migrateStep, reduceCtorEq] at h
  obtain ⟨_, _, ⟨⟩, hleft, hrest⟩ := hcall.behind (by simp)
  have hdb := hcall.consistent (by simp)
  have hsplit := hcall.split
  rw [List.append_cons] at hsplit
  split_ifs at h with hlast
  · obtain rfl := Option.some.inj h
    subst hlast
    refine ⟨by simp, ?_, hs.backups, hs.met, ?_⟩
    · rintro _ _ ⟨⟩
      apply stageInv_creating_zero hdb
      right
      rw [hleft, hrest, hsup]
    · intro c hc
      rcases List.mem_append.mp hc with hold | hnew
      · exact hs.passed c hold
      · obtain rfl := List.mem_singleton.mp hnew
        rwa [List.append_nil] at hsplit
  · obtain rfl := Option.some.inj h
    refine ⟨by simp, ?_, hs.backups, hs.met, hs.passed⟩
    rintro _ _ ⟨⟩
    have hfiles : ∀ w ∈ rest, M.hasFile w := fun w hw =>
      hcall.files w (List.mem_cons_of_mem v hw)
    exact ⟨hsup, hsplit, hfiles, fun _ => hdb, fun _ => ⟨_, hleft, hrest⟩, by simp⟩

theorem Inv.migrateStep (hs : Inv M s) (hrunning : s.running = some (sup, .migrating call))
    (hfail : a = .fail → call.point ≠ .executed)
    (hleads : a = .executeQueriesInTrans → call.todo.head?.all (M.leads · call.isDown))
    (h : migrateStep M s sup call a = some s') : Inv M s' := by
  cases a with
  | executeQueriesInTrans => exact hs.executeQueriesInTrans hrunning (hleads rfl) h
  | setCurrDbVer => exact hs.setCurrDbVer hrunning h
  | next => exact hs.next hrunning h
  | fail =>
      obtain ⟨-, hcall⟩ := hs.stage _ _ hrunning
      obtain rfl := Option.some.inj h
      refine ⟨by simp, ?_, hs.backups, hs.met, hs.passed⟩
      rintro _ _ ⟨⟩
      exact hcall.consistent (hfail rfl)
  | _ => simp [DbState.migrateStep] at h

end MigrateStep

theorem Inv.createDBStructure (hs : Inv M s) {sup done : ℕ}
    (hrunning : s.running = some (sup, .creating done))
    (h : step M s .createDBStructure = some s') : Inv M s' := by
  obtain ⟨hdone, hfirst, hschema⟩ := hs.stage _ _ hrunning
  simp only [step, hrunning, Option.some.injEq] at h
  subst h
  have hnext : M.create sup done s.db.schema = M.schemaOf sup ∨
      M.create sup done s.db.schema = created M sup (done + 1) ∧ s.db.userVersion ≠ sup := by
    rcases hschema with hsup | ⟨hpart, hver⟩
    · left
      rw [hsup, M.create_kept]
    · right
      exact ⟨by rw [hpart, created], hver⟩
  refine ⟨by simp, ?_, hs.backups, hs.met, hs.passed⟩
  rintro _ _ ⟨⟩
  split_ifs with hlast
  · subst hlast
    rw [created_three] at hnext
    exact hnext.elim id And.left
  · exact ⟨by omega, by simp, hnext⟩

/-- The process stops only where the schema is the one of the stored version. -/
theorem Inv.consistent_of_not_unstamped (hs : Inv M s) (h : s.unstamped = false) :
    s.db.Consistent M := by
  rcases hrunning : s.running with _ | ⟨sup, stage⟩
  · exact hs.idle hrunning
  have hstage := hs.stage _ _ hrunning
  simp only [unstamped, hrunning] at h
  cases stage with
  | migrating call => exact hstage.2.consistent (of_decide_eq_false h)
  | failed => exact hstage
  | removed =>
      rw [Db.Consistent, of_not_not (of_decide_eq_false h)]
      exact hstage
  | creating done =>
      obtain ⟨_, hfirst, hschema⟩ := hstage
      by_cases hdone : done = 0
      · exact hfirst hdone
      · have hver : s.db.userVersion = sup := by
          simpa [hdone] using h
        rcases hschema with hsup | ⟨_, hne⟩
        · rw [Db.Consistent, hver, hsup]
        · exact absurd hver hne
  | stamping =>
      rw [Db.Consistent, of_not_not (of_decide_eq_false h)]
      exact hstage

theorem Inv.stop (hs : Inv M s) (hstop : s.unstamped = false)
    (h : step M s .stop = some s') : Inv M s' := by
  have hdb := hs.consistent_of_not_unstamped hstop
  rcases hrunning : s.running with _ | ⟨sup, stage⟩ <;> simp only [step, hrunning] at h
  · simp at h
  · obtain rfl := Option.some.inj h
    exact ⟨fun _ => hdb, by simp, hs.backups, hs.met, hs.passed⟩

theorem Inv.restoreDb (hs : Inv M s) {i : ℕ} (ha : s.stampsWhatItDoes M (.restoreDb i))
    (h : step M s (.restoreDb i) = some s') : Inv M s' := by
  rcases hrunning : s.running with _ | ⟨sup, _ | _ | _ | _ | _⟩ <;>
    simp only [step, hrunning, DbState.migrateStep, reduceCtorEq] at h
  · obtain ⟨db, hdb, rfl⟩ := Option.map_eq_some_iff.mp h
    have hbackup := hs.backups db (List.mem_of_getElem? hdb)
    exact ⟨fun _ => hbackup, by simp, hs.backups, hs.met, hs.passed⟩
  · obtain ⟨db, hfilter, rfl⟩ := Option.map_eq_some_iff.mp h
    have hdb := (Option.filter_eq_some_iff.mp hfilter).1
    have hbackup := hs.backups db (List.mem_of_getElem? hdb)
    have hver : db.userVersion = sup := by
      simpa [stampsWhatItDoes, hrunning, hdb] using ha
    refine ⟨by simp, ?_, hs.backups, hs.met, hs.passed⟩
    rintro _ _ ⟨⟩
    apply stageInv_creating_zero hbackup
    right
    rw [← hver]
    exact hbackup

theorem Inv.removed (hs : Inv M s) {sup : ℕ} (hrunning : s.running = some (sup, .removed)) :
    Inv M { s with
      db := { s.db with userVersion := 0 }, running := some (sup, .creating 0) } := by
  have hempty : s.db.schema = M.schemaOf 0 := hs.stage _ _ hrunning
  refine ⟨by simp, ?_, hs.backups, hs.met, hs.passed⟩
  rintro _ _ ⟨⟩
  exact stageInv_creating_zero hempty (.inl hempty)

theorem Inv.stamping (hs : Inv M s) {sup : ℕ} (hrunning : s.running = some (sup, .stamping)) :
    Inv M { s with db := { s.db with userVersion := sup }, running := none } :=
  ⟨fun _ => hs.stage _ _ hrunning, by simp, hs.backups, hs.met, hs.passed⟩

theorem Inv.removeAllTables (hs : Inv M s) (sup : ℕ) :
    Inv M { s with
      db := { s.db with schema := M.schemaOf 0 }, running := some (sup, .removed) } := by
  refine ⟨by simp, ?_, hs.backups, hs.met, hs.passed⟩
  rintro _ _ ⟨⟩
  rfl

theorem Inv.step (hs : Inv M s) (ha : s.stampsWhatItDoes M a)
    (h : step M s a = some s') : Inv M s' := by
  by_cases hstop : a = .stop
  · subst hstop
    exact hs.stop (Bool.not_eq_true' _ ▸ ha) h
  rcases hrunning : s.running with _ | ⟨sup, call | _ | _ | done | _⟩
  · cases a with
    | databaseInitialize => exact hs.databaseInitialize hrunning h
    | restoreDb => exact hs.restoreDb ha h
    | _ => simp [DbState.step, hrunning] at h
  · have hcall : DbState.migrateStep M s sup call a = some s' := by
      cases a with
      | stop => exact absurd rfl hstop
      | _ => simpa only [DbState.step, hrunning] using h
    apply hs.migrateStep hrunning _ _ hcall
    · rintro rfl
      simpa [stampsWhatItDoes, unstamped, hrunning] using ha
    · rintro rfl
      simpa only [stampsWhatItDoes, hrunning] using ha
  · cases a with
    | restoreDb => exact hs.restoreDb ha h
    | removeAllTables =>
        simp only [DbState.step, hrunning, Option.some.injEq] at h
        exact h ▸ hs.removeAllTables sup
    | stop => exact absurd rfl hstop
    | _ => simp [DbState.step, hrunning] at h
  · cases a with
    | setCurrDbVer =>
        simp only [DbState.step, hrunning, Option.some.injEq] at h
        exact h ▸ hs.removed hrunning
    | stop => exact absurd rfl hstop
    | _ => simp [DbState.step, hrunning] at h
  · cases a with
    | createDBStructure => exact hs.createDBStructure hrunning h
    | stop => exact absurd rfl hstop
    | _ => simp [DbState.step, hrunning] at h
  · cases a with
    | setCurrDbVer =>
        simp only [DbState.step, hrunning, Option.some.injEq] at h
        exact h ▸ hs.stamping hrunning
    | stop => exact absurd rfl hstop
    | _ => simp [DbState.step, hrunning] at h

theorem inv_of_reachable (hs : (machine M).Reachable (stampsWhatItDoes M · ·) s) :
    Inv M s := by
  apply hs.invariant
  · rintro s ⟨hdb, hbackups, hrunning, hexecutions, hfinished⟩
    refine ⟨fun _ => hdb, by simp [hrunning], hbackups, ?_, ?_⟩
    · simp [hexecutions]
    · simp [hfinished]
  · intro s a s' ih ha h
    exact ih.step ha h

/-- A finished call launched exactly the versions between the two, each once, ascending
for up and descending for down. -/
theorem Inv.passed_versions (hs : Inv M s) {call : MigrateCall} (hcall : call ∈ s.finished) :
    (∀ v, v ∈ call.passed ↔ (call.currVer < v ∧ v ≤ call.supportedVer) ∨
      (call.supportedVer < v ∧ v ≤ call.currVer)) ∧
    (call.isDown = false → call.passed.Pairwise (· < ·)) ∧
    (call.isDown = true → call.passed.Pairwise (· > ·)) := by
  rw [hs.passed call hcall]
  refine ⟨fun v => mem_migrationRange, ?_, ?_⟩
  · intro hup
    exact pairwise_migrationRange_up (Nat.le_of_not_lt (of_decide_eq_false hup))
  · intro hdown
    exact pairwise_migrationRange_down (of_decide_eq_true hdown).le

end DbState

end ReportsFramework
