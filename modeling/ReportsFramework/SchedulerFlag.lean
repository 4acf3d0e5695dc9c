/-
The flag of the scheduler over `signOut` and `updateSubAccount`, which disable it, and
enable it in the end.
-/
import ReportsFramework.UpdateChecks

namespace ReportsFramework

namespace SubAccounts

open Attempt

section SignOut

structure SignOutArgs where
  email : Option String
  password : Option String
  isSubAccount : Bool
  token : Option String
deriving DecidableEq

/-- The steps of `signOut` that may fail. -/
inductive SignOutPoint
  | verifyUser
  | readScheduler
  | disableScheduler
  | stopSync
  | updateUser
  | processInterrupters
  | enableScheduler
deriving DecidableEq

structure SignOutEnv where
  secretKey : String
  throws : List SignOutPoint

def SignOutEnv.pass (env : SignOutEnv) (p : SignOutPoint) : Call Unit :=
  .failIf (p ∈ env.throws) (.step false)

/-- `isSchedulerEnabled` of the service: an error of the database counts as disabled. -/
def SignOutEnv.isSchedulerEnabled (env : SignOutEnv) (s : World) : Bool :=
  if .readScheduler ∈ env.throws then false else s.isSchedulerEnabled

def SignOutEnv.verifyUser (env : SignOutEnv) (args : SignOutArgs) (s : World) :
    Option (User × List User) :=
  SubAccounts.verifyUser env.secretKey s args.email args.password args.isSubAccount args.token false

def World.updateRecordOfScheduler (isEnable : Bool) : Call Unit :=
  .write fun s => { s with isSchedulerEnabled := isEnable }

def Db.hasUser (db : Db) (_id : ℕ) (email : String) : Bool :=
  db.users.any fun row => row._id = _id && row.email = email

def Db.setActive (db : Db) (_id : ℕ) (email : String) (active : Bool) : Db :=
  { db with users := db.users.map fun row =>
    if row._id = _id ∧ row.email = email then { row with active } else row }

def World.removeUserSession (args : SignOutArgs) (s : World) : World :=
  { s with sessions := removeSession s.sessions ⟨args.email, args.isSubAccount, args.token⟩ }

/-- The part of `signOut` from the stop of the sync to the removed session. -/
def endSession (env : SignOutEnv) (args : SignOutArgs) (active : Bool) (user : User) :
    Call Unit := do
  env.pass .stopSync
  env.pass .updateUser
  let s ← .read
  writeDb fun db => db.setActive user._id user.email active
  .failIf (!s.db.hasUser user._id user.email) .auth
  env.pass .processInterrupters
  .write (World.removeUserSession args)

def signOut (env : SignOutEnv) (args : SignOutArgs) (active : Bool) : Call Unit := do
  env.pass .verifyUser
  let s ← .read
  let (user, _) ← .orFail .auth (env.verifyUser args s)
  let isSchedulerEnabled := env.isSchedulerEnabled s
  env.pass .disableScheduler
  World.updateRecordOfScheduler false
  endSession env args active user
  .skipIf (!isSchedulerEnabled) do
    env.pass .enableScheduler
    World.updateRecordOfScheduler true

end SignOut

section Flag

variable {s : World}

theorem ignoresDb_isSchedulerEnabled : IgnoresDb World.isSchedulerEnabled := fun _ _ => rfl

/-- Steps that leave the flag are followed by those that may set it. -/
theorem isSchedulerEnabled_bind {x g : Call Unit} (hx : Keeps World.isSchedulerEnabled x) {c : Bool}
    (hg : ∀ s', (g s').2.isSchedulerEnabled = (c || s'.isSchedulerEnabled)) :
    ((x >>= fun _ => g) s).2.isSchedulerEnabled =
      ((x s).1.isOk && c || s.isSchedulerEnabled) := by
  have hkept := hx s
  rcases hres : x s with ⟨res, s'⟩
  rw [hres] at hkept
  cases res with
  | error e =>
    rw [bind_of_error hres]
    exact hkept
  | ok a =>
    rw [bind_of_ok hres, hg, hkept]
    rfl

end Flag

section SignOutFlag

variable {env : SignOutEnv} {args : SignOutArgs} {active : Bool} {user : User} {s : World}

theorem SignOutEnv.pass_of_mem {p : SignOutPoint} (h : p ∈ env.throws) :
    env.pass p = .fail (.step false) := by
  simp [SignOutEnv.pass, failIf, h]

theorem SignOutEnv.pass_of_not_mem {p : SignOutPoint} (h : p ∉ env.throws) :
    env.pass p = pure () := by
  simp [SignOutEnv.pass, failIf, h]

theorem SignOutEnv.throws_eq_nil_iff (env : SignOutEnv) :
    env.throws = [] ↔ .verifyUser ∉ env.throws ∧ .disableScheduler ∉ env.throws ∧
      .readScheduler ∉ env.throws ∧ .stopSync ∉ env.throws ∧ .updateUser ∉ env.throws ∧
        .processInterrupters ∉ env.throws ∧ .enableScheduler ∉ env.throws := by
  rw [List.eq_nil_iff_forall_not_mem]
  constructor
  · intro h
    exact ⟨h _, h _, h _, h _, h _, h _, h _⟩
  · rintro ⟨h₁, h₂, h₃, h₄, h₅, h₆, h₇⟩ p
    cases p <;> assumption

theorem World.removeUserSession_isSchedulerEnabled :
    (s.removeUserSession args).isSchedulerEnabled = s.isSchedulerEnabled := rfl

theorem keeps_endSession :
    Keeps World.isSchedulerEnabled (endSession env args active user) := by
  apply Keeps.bind (keeps_failIf _ _)
  intro _
  apply Keeps.bind (keeps_failIf _ _)
  intro _
  apply Keeps.bind keeps_read
  intro s
  apply Keeps.bind (keeps_writeDb ignoresDb_isSchedulerEnabled _)
  intro _
  apply Keeps.bind (keeps_failIf _ _)
  intro _
  apply Keeps.bind (keeps_failIf _ _)
  intro _
  exact keeps_write fun _ => World.removeUserSession_isSchedulerEnabled

/-- The session is ended if none of the steps throws and the user has a row. -/
theorem endSession_isOk :
    (endSession env args active user s).1.isOk = true ↔
      .stopSync ∉ env.throws ∧ .updateUser ∉ env.throws ∧
        .processInterrupters ∉ env.throws ∧ s.db.hasUser user._id user.email = true := by
  rw [isOk_iff_wp, endSession]
  simp only [SignOutEnv.pass, wp_bind, wp_failIf, wp_read, writeDb, wp_write, decide_eq_true_eq,
    decide_eq_false_iff_not, Bool.not_eq_true', Bool.not_eq_false', imp_false]
  grind

/-- No step throws, and the user, if one is verified, has a row. -/
def SignOutEnv.Passes (env : SignOutEnv) (args : SignOutArgs) (s : World) : Prop :=
  ∀ user subUsers, env.verifyUser args s = some (user, subUsers) →
    env.throws = [] ∧ s.db.hasUser user._id user.email = true

/-- The flag was not set, or `signOut` throws before it is disabled, or not at all. -/
def SignOutRestores (env : SignOutEnv) (args : SignOutArgs) (s : World) : Prop :=
  s.isSchedulerEnabled = false ∨ .verifyUser ∈ env.throws ∨ .disableScheduler ∈ env.throws ∨
    env.Passes args s

/-- Behind the disabling write the flag is set again if all else passes. -/
theorem signOut_isSchedulerEnabled {subUsers : List User} (hverify : .verifyUser ∉ env.throws)
    (hverified : env.verifyUser args s = some (user, subUsers))
    (hdisable : .disableScheduler ∉ env.throws) :
    (signOut env args active s).2.isSchedulerEnabled =
      ((endSession env args active user { s with isSchedulerEnabled := false }).1.isOk &&
        (env.isSchedulerEnabled s && decide (.enableScheduler ∉ env.throws))) := by
  have henable : ∀ s' : World, ((Attempt.skipIf (!env.isSchedulerEnabled s) (do
      env.pass .enableScheduler
      World.updateRecordOfScheduler true) : Call Unit) s').2.isSchedulerEnabled =
        (env.isSchedulerEnabled s && decide (.enableScheduler ∉ env.throws) ||
          s'.isSchedulerEnabled) := by
    intro s'
    cases env.isSchedulerEnabled s with
    | false => simp [Attempt.skipIf, pure]
    | true =>
      by_cases hthrows : .enableScheduler ∈ env.throws
      · rw [SignOutEnv.pass_of_mem hthrows]
        simp [hthrows]
        rfl
      · rw [SignOutEnv.pass_of_not_mem hthrows]
        simp [hthrows]
        rfl
  have hkept : Keeps World.isSchedulerEnabled (endSession env args active user) :=
    keeps_endSession
  have hflag := isSchedulerEnabled_bind (s := { s with isSchedulerEnabled := false }) hkept henable
  rw [Bool.or_false] at hflag
  rw [← hflag, signOut, SignOutEnv.pass_of_not_mem hverify, SignOutEnv.pass_of_not_mem hdisable]
  show ((Attempt.orFail _ (env.verifyUser args s) >>= _ : Call Unit) s).2.isSchedulerEnabled = _
  rw [hverified]
  rfl

theorem signOut_restored_iff :
    (signOut env args active s).2.isSchedulerEnabled = s.isSchedulerEnabled ↔
      SignOutRestores env args s := by
  unfold SignOutRestores
  by_cases hverify : .verifyUser ∈ env.throws
  · rw [signOut, SignOutEnv.pass_of_mem hverify]
    simp only [hverify, true_or, or_true, iff_true]
    rfl
  by_cases hdisable : .disableScheduler ∈ env.throws
  · simp only [hdisable, true_or, or_true, iff_true]
    rw [signOut, SignOutEnv.pass_of_not_mem hverify, SignOutEnv.pass_of_mem hdisable]
    show ((Attempt.orFail _ (env.verifyUser args s) >>= _ : Call Unit) s).2.isSchedulerEnabled = _
    cases env.verifyUser args s <;> rfl
  cases hverified : env.verifyUser args s with
  | none =>
    have hpasses : env.Passes args s := by
      intro user subUsers hsome
      rw [hverified] at hsome
      cases hsome
    simp only [hpasses, or_true, iff_true]
    rw [signOut, SignOutEnv.pass_of_not_mem hverify]
    show ((Attempt.orFail _ (env.verifyUser args s) >>= _ : Call Unit) s).2.isSchedulerEnabled = _
    rw [hverified]
    rfl
  | some verified =>
    obtain ⟨user, subUsers⟩ := verified
    have hpasses : env.Passes args s ↔
        env.throws = [] ∧ s.db.hasUser user._id user.email = true := by
      unfold SignOutEnv.Passes
      rw [hverified]
      constructor
      · intro h
        exact h user subUsers rfl
      · intro h user' subUsers' hsome
        obtain ⟨rfl, rfl⟩ := Prod.mk.inj (Option.some.inj hsome)
        exact h
    have hnothing := env.throws_eq_nil_iff
    simp only [hverify, hdisable, not_false_eq_true, true_and] at hnothing
    rw [signOut_isSchedulerEnabled hverify hverified hdisable, hpasses, hnothing]
    cases hflag : s.isSchedulerEnabled with
    | false => simp [SignOutEnv.isSchedulerEnabled, hflag]
    | true =>
      rw [Bool.and_eq_true, Bool.and_eq_true, endSession_isOk]
      simp only [SignOutEnv.isSchedulerEnabled, hflag, hverify, hdisable, decide_eq_true_eq]
      grind

end SignOutFlag

section UpdateFlag

variable {env : Env} {args : UpdateArgs} {attempt : ℕ} {s : World}

theorem keeps_setUserSession (session : Session) :
    Keeps World.isSchedulerEnabled (setUserSession session) :=
  keeps_write fun _ => rfl

theorem keeps_signIn (email password token : Option String) :
    Keeps World.isSchedulerEnabled (signIn env attempt email password token) := by
  apply Keeps.bind (keeps_pass _ _)
  intro _
  apply Keeps.bind keeps_read
  intro s
  apply Keeps.bind (keeps_orFail _ _)
  rintro ⟨user, subUsers⟩
  apply Keeps.bind (keeps_pass _ _)
  intro _
  apply Keeps.bind (keeps_failIf _ _)
  intro _
  apply Keeps.bind (keeps_pass _ _)
  intro _
  apply Keeps.bind (keeps_orFail _ _)
  intro refreshedUser
  apply Keeps.bind (keeps_pass _ _)
  intro _
  apply Keeps.bind (keeps_orFail _ _)
  intro db
  apply Keeps.bind (keeps_writeDb ignoresDb_isSchedulerEnabled _)
  intro _
  apply Keeps.bind (keeps_pass _ _)
  intro _
  apply Keeps.bind (keeps_writeDb ignoresDb_isSchedulerEnabled _)
  intro _
  apply Keeps.bind (keeps_failIf _ _)
  intro _
  apply Keeps.ite
  · apply Keeps.bind (keeps_failIf _ _)
    intro _
    apply Keeps.bind
    · exact keeps_write fun _ => rfl
    · intro _
      exact keeps_pure _
  · exact keeps_pure _

theorem keeps_refreshSubAccount :
    Keeps World.isSchedulerEnabled (refreshSubAccount env args attempt) := by
  apply Keeps.bind (keeps_signIn _ _ _)
  intro session
  apply Keeps.bind (keeps_failIf _ _)
  intro _
  apply Keeps.bind (keeps_orFail _ _)
  intro masterUser
  apply Keeps.bind (keeps_addSubUsers ignoresDb_isSchedulerEnabled _ _ _ _ _)
  intro addedSubUsers
  apply Keeps.bind (Keeps.skipIf _ (keeps_removeSubUsers ignoresDb_isSchedulerEnabled _))
  intro _
  apply Keeps.bind (Keeps.skipIf _ (keeps_resetLedgers ignoresDb_isSchedulerEnabled _))
  intro _
  exact keeps_pure _

section Transaction

variable {α : Type} {body : ℕ → Call α}

theorem keeps_once (hbody : ∀ attempt, Keeps World.isSchedulerEnabled (body attempt)) :
    Keeps World.isSchedulerEnabled (proccesTrans.once env body attempt) := by
  apply Keeps.orRestore
  · apply Keeps.bind (keeps_pass _ _)
    intro _
    apply Keeps.bind (hbody attempt)
    intro res
    exact Keeps.bind (keeps_pass _ _) fun _ => keeps_pure _
  · intro s s' hs'
    exact hs'

theorem keeps_proccesTrans (hbody : ∀ attempt, Keeps World.isSchedulerEnabled (body attempt))
    (left attempt : ℕ) :
    Keeps World.isSchedulerEnabled (proccesTrans env body left attempt) := by
  induction left generalizing attempt with
  | zero => exact keeps_once hbody
  | succ left ih =>
    apply Keeps.orRetry _ _ (keeps_once hbody)
    apply Keeps.bind
    · exact keeps_write fun _ => rfl
    intro _
    apply Keeps.bind (ih (attempt + 1))
    intro res
    apply Keeps.bind
    · exact keeps_write fun _ => rfl
    · intro _
      exact keeps_pure _

end Transaction

/-- The transaction of `updateSubAccount`. -/
def updateTransaction (env : Env) (args : UpdateArgs) : Call Unit :=
  executeQueriesInTrans env (updateBody env args)

theorem keeps_updateTransaction : Keeps World.isSchedulerEnabled (updateTransaction env args) := by
  apply Keeps.bind keeps_read
  intro s
  apply keeps_proccesTrans
  intro attempt
  apply Keeps.bind keeps_refreshSubAccount
  intro session
  exact keeps_setUserSession session

/-- A step outside of the transaction throws. -/
def Env.throwsAt (env : Env) (p : Point) : Bool :=
  env.throws.any fun t => t.attempt = 0 && t.point = p

theorem pass_of_throwsAt {p : Point} (h : env.throwsAt p = true) :
    ∃ e, env.pass 0 p = .fail e := by
  obtain ⟨t, ht, hp⟩ := List.any_eq_true.mp h
  cases hfound : env.throws.find? fun t => t.attempt = 0 && t.point = p with
  | none => exact absurd hp (List.find?_eq_none.mp hfound t ht)
  | some t' => exact ⟨_, by rw [Env.pass, hfound]⟩

theorem pass_of_not_throwsAt {p : Point} (h : env.throwsAt p = false) :
    env.pass 0 p = pure () := by
  have hnone : env.throws.find? (fun t => t.attempt = 0 && t.point = p) = none :=
    List.find?_eq_none.mpr fun t ht hp =>
      absurd (List.any_eq_true.mpr ⟨t, ht, hp⟩) (ne_true_of_eq_false h)
  rw [Env.pass, hnone]

/-- Neither the stop of the sync nor the second write of the flag throws, and a run of the
transaction takes all of its steps and accepts all of its inputs, each run before it having
met a locked database. -/
def Env.updatePasses (env : Env) (args : UpdateArgs) (s : World) : Bool :=
  !env.throwsAt .stopSync &&
    commits env args (3 - s.lockedDbRetryInTrxAmount) 0 { s with isSchedulerEnabled := false } &&
    !env.throwsAt .enableScheduler

/-- The flag is not disabled; or it was set and no step throws and no input is refused; or
it was not set, and a step throws or an input is refused. -/
def UpdateRestores (env : Env) (args : UpdateArgs) (s : World) : Prop :=
  env.throwsAt .disableScheduler = true ∨
    s.isSchedulerEnabled = true ∧ env.updatePasses args s = true ∨
    s.isSchedulerEnabled = false ∧ env.updatePasses args s = false

theorem updateSubAccount_isSchedulerEnabled (hdisable : env.throwsAt .disableScheduler = false) :
    (updateSubAccount env args s).2.isSchedulerEnabled = env.updatePasses args s := by
  have henable : ∀ s' : World, ((do
      env.pass 0 .enableScheduler
      .write fun s => { s with isSchedulerEnabled := true }
      env.pass 0 .startSync : Call Unit) s').2.isSchedulerEnabled =
        (!env.throwsAt .enableScheduler || s'.isSchedulerEnabled) := by
    intro s'
    cases hthrows : env.throwsAt .enableScheduler with
    | true =>
      obtain ⟨e, hpass⟩ := pass_of_throwsAt hthrows
      rw [hpass]
      rfl
    | false =>
      rw [pass_of_not_throwsAt hthrows]
      exact keeps_pass .startSync World.isSchedulerEnabled { s' with isSchedulerEnabled := true }
  have hkept : Keeps World.isSchedulerEnabled (updateTransaction env args) :=
    keeps_updateTransaction
  have hflag := isSchedulerEnabled_bind (s := { s with isSchedulerEnabled := false }) hkept henable
  rw [updateSubAccount, pass_of_not_throwsAt hdisable, Env.updatePasses]
  cases hstop : env.throwsAt .stopSync with
  | true =>
    obtain ⟨e, hpass⟩ := pass_of_throwsAt hstop
    rw [hpass]
    rfl
  | false =>
    rw [pass_of_not_throwsAt hstop, ← isOk_updateTransaction env args
      { s with isSchedulerEnabled := false }]
    rw [Bool.or_false] at hflag
    exact hflag

theorem updateSubAccount_restored_iff :
    (updateSubAccount env args s).2.isSchedulerEnabled = s.isSchedulerEnabled ↔
      UpdateRestores env args s := by
  unfold UpdateRestores
  cases hdisable : env.throwsAt .disableScheduler with
  | true =>
    obtain ⟨e, hpass⟩ := pass_of_throwsAt hdisable
    rw [updateSubAccount, hpass]
    simp only [true_or, iff_true]
    rfl
  | false =>
    rw [updateSubAccount_isSchedulerEnabled hdisable]
    cases s.isSchedulerEnabled <;> simp

end UpdateFlag

/-- A call leaves the flag of the scheduler as it was exactly if `SignOutRestores`, or
`UpdateRestores`, holds of the state and the steps that throw. -/
theorem scheduler_restored_iff (s : World) :
    (∀ (env : SignOutEnv) (args : SignOutArgs) (active : Bool),
      (signOut env args active s).2.isSchedulerEnabled = s.isSchedulerEnabled ↔
        SignOutRestores env args s) ∧
    ∀ (env : Env) (args : UpdateArgs),
      (updateSubAccount env args s).2.isSchedulerEnabled = s.isSchedulerEnabled ↔
        UpdateRestores env args s := by
  constructor
  · intro env args active
    exact signOut_restored_iff
  · intro env args
    exact updateSubAccount_restored_iff

namespace SchedulerWitness

open AliceWitness

def signOutArgs : SignOutArgs := ⟨none, none, true, some "token"⟩

def disabled : World := { created with isSchedulerEnabled := false }

/-- A sync that cannot be stopped leaves the scheduler disabled, and an update of a
sub-account that passes enables the one that was disabled. -/
theorem scheduler_not_restored :
    created.isSchedulerEnabled = true ∧
      (signOut ⟨"secret", [.stopSync]⟩ signOutArgs false created).2.isSchedulerEnabled = false ∧
      (updateSubAccount (api "token'" [⟨0, .stopSync, false⟩]) exchange
        created).2.isSchedulerEnabled = false ∧
      (updateSubAccount (api "token'" []) exchange disabled).1.isOk = true ∧
      disabled.isSchedulerEnabled = false ∧
      (updateSubAccount (api "token'" []) exchange disabled).2.isSchedulerEnabled = true := by
  decide +kernel

end SchedulerWitness

end SubAccounts

end ReportsFramework
