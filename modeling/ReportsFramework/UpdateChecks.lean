/-
When an update of a sub-account passes: the steps that a run of its transaction takes,
in order, and what each of them asks of the arguments, the database, the sessions and the
API.  The run stops at the first step that throws or input that is refused.
-/
import ReportsFramework.SubAccountAtomicity

namespace ReportsFramework

namespace SubAccounts

open Attempt

/-- A step that may throw, or an input that may be refused. -/
inductive Check
  | step (p : Point)
  | input (isAccepted : Bool)

/-- Whether the check stops the run, and then whether it does so for a locked database. -/
def Env.stopAt (env : Env) (attempt : ℕ) : Check → Option Bool
  | .step p =>
      (env.throws.find? fun t => t.attempt = attempt && t.point = p).map Throw.isLockedDbError
  | .input isAccepted => if isAccepted then none else some false

/-- The first of the checks that stops the run. -/
def Env.stop (env : Env) (attempt : ℕ) (checks : List Check) : Option Bool :=
  checks.findSome? (env.stopAt attempt)

section Plan

variable (env : Env)

/-- The user as the API tells, or as he is known without a connection. -/
def Env.freshUser (user : User) : Option User :=
  freshUserData env user (if user.authToken.isSome then env.generateAuthToken else none)
    (env.checkAuth (user.apiKey.getD "") (user.apiSecret.getD ""))

def verifiedBy (args : UpdateArgs) (s : World) : Option (User × List User) :=
  verifyUser env.secretKey s args.email args.password true args.token true

/-- The user is verified, the API answers, no other row has his new e-mail and username,
and he has a row. -/
def signInChecks (args : UpdateArgs) (s : World) : List Check :=
  .step .verifyUser ::
    match verifiedBy env args s with
    | none => [.input false]
    | some (user, _) =>
        .step .generateAuthToken ::
        .input (!(user.authToken.isSome && env.generateAuthToken.isNone)) ::
        .step .checkAuth ::
          match env.freshUser user with
          | none => [.input false]
          | some refreshedUser =>
              [.step .updateUser,
                .input (s.db.updateUser user._id user.email refreshedUser).isSome,
                .step .updateSubUsers,
                .input (∃ row ∈ s.db.users, row._id = user._id ∧ row.email = user.email)]

/-- The session of the user who is signed in, and the database. -/
def signedIn (args : UpdateArgs) (s : World) : Option (Session × Db) :=
  (verifiedBy env args s).bind fun (user, subUsers) =>
    (env.freshUser user).bind fun refreshedUser =>
      (s.db.updateUser user._id user.email refreshedUser).map fun db =>
        (⟨refreshedUser, subUsers,
            (args.token.orElse fun _ => getUserSessionByEmail s args.email).getD env.newToken⟩,
          db.updateSubUsers (subUsers.map User._id) refreshedUser.isStagingBfxApi)

/-- A sub-user can be signed up: he has keys that are not those of a sub-account, a
password, an account with an e-mail, and no row yet. -/
def signedUp (session : Session) (masterUserId : Option ℕ) (auth : CheckedAuth) (db : Db) :
    Option (User × Db) :=
  let password := if session.user.isNotProtected then env.secretKey else session.user.password
  if auth.apiKey.isNone || auth.apiSecret.isNone || password = "" then none
  else if auth.account.isNone && isSubAccountApiKeys auth.apiKey auth.apiSecret then none
  else (env.accountOf auth).bind fun account =>
    if account.email = "" then none
    else if auth.account.isNone && (db.getUser account.email
        (some (generateSubUserName masterUserId account.username false true))
        false true).isSome then none
    else
      let user := newUser env auth account password session.user.isNotProtected false true
        masterUserId none db.nextId
      (db.insertUser user).map fun db => (user, db)

/-- Each sub-user to add is verified, and signed up unless his keys are known; then who is
added, and the database. -/
def addPlan (s : World) (session : Session) (masterUser : User)
    (processedSubUsers addedSubUsers : List User) (db : Db) :
    List SubUserAuth → List Check × List User × Db
  | [] => ([], addedSubUsers, db)
  | subUserAuth :: rest =>
      let i := rest.length
      match checkAuth env.secretKey { s with db := db } subUserAuth with
      | none => ([.step (.verifySubUser i), .input false], addedSubUsers, db)
      | some auth =>
          match session.subUsers.find? (hasKeysOf auth) with
          | some existedSubUser =>
              let plan := addPlan s session masterUser (processedSubUsers ++ [existedSubUser])
                addedSubUsers db rest
              (.step (.verifySubUser i) :: plan.1, plan.2)
          | none =>
              if hasKeysOf auth masterUser || processedSubUsers.any (hasKeysOf auth) then
                let plan := addPlan s session masterUser processedSubUsers addedSubUsers db rest
                (.step (.verifySubUser i) :: plan.1, plan.2)
              else
                match signedUp env session masterUser.id auth db with
                | none =>
                    ([.step (.verifySubUser i), .step (.signUpSubUser i), .input false],
                      addedSubUsers, db)
                | some (subUser, db) =>
                    let plan := addPlan s session masterUser (processedSubUsers ++ [subUser])
                      (addedSubUsers ++ [subUser])
                      (db.insertSubAccount session.user._id subUser._id) rest
                    (.step (.verifySubUser i) :: .step (.signUpSubUser i) ::
                      .step (.insertSubAccount i) :: plan.1, plan.2)

/-- There are rows to remove. -/
def removeChecks (ids : List ℕ) (db : Db) : List Check :=
  if ids.isEmpty then []
  else [.step .removeUsers, .input (∃ row ∈ db.users, row._id ∈ ids)]

def resetChecks (db : Db) : List Check :=
  .step .updateLedgers :: .step .getTempTableNames ::
    (List.range db.tempLedgers.length).map fun i => .step (.updateTempLedgers i)

/-- All of a run but for its begin and its commit, and the session it leads to. -/
def refreshPlan (args : UpdateArgs) (s : World) : List Check × Option Session :=
  match signedIn env args s with
  | none => (signInChecks env args s, none)
  | some (session, db) =>
      let first := signInChecks env args s ++ [.input (!args.areInvalid session.user)]
      match session.subUsers.find? fun subUser => subUser.email = session.user.email with
      | none => (first ++ [.input false], none)
      | some masterUser =>
          let plan := addPlan env s session masterUser [] [] db
            (args.addingSubUsers ++ [masterAuth masterUser session.user.password])
          let removingSubUsers := session.subUsers.filter fun subUser =>
            args.removingSubUsersByEmails.contains (some subUser.email)
          let refreshedSubUsers :=
            ((session.subUsers ++ plan.2.1).insertionSort fun u u' => u._id ≤ u'._id).filter
              fun subUser => subUser._id ∉ removingSubUsers.map User._id
          (first ++ plan.1 ++ removeChecks (removingSubUsers.map User._id) plan.2.2 ++
              (if plan.2.1.isEmpty && removingSubUsers.isEmpty then []
                else resetChecks plan.2.2),
            some { session with subUsers := refreshedSubUsers })

/-- How a run ends that does not commit: whether the database is locked, and the state
it leaves.  The session is set before the commit. -/
def runStop (args : UpdateArgs) (attempt : ℕ) (s : World) : Option (Bool × World) :=
  let plan := refreshPlan env args s
  match env.stop attempt (.step .begin :: plan.1) with
  | some isLocked => some (isLocked, s)
  | none =>
      (env.stop attempt [.step .commit]).map fun isLocked =>
        (isLocked, plan.2.elim s fun session =>
          { s with sessions := s.sessions.set session.token session })

/-- A run commits, each one before it having met a locked database. -/
def commits (args : UpdateArgs) : ℕ → ℕ → World → Bool
  | 0, attempt, s => (runStop env args attempt s).isNone
  | left + 1, attempt, s =>
      match runStop env args attempt s with
      | none => true
      | some (isLocked, s') =>
          isLocked && commits args left (attempt + 1)
            { s' with lockedDbRetryInTrxAmount := s'.lockedDbRetryInTrxAmount + 1 }

end Plan

/-- A computation within the transaction takes these checks, one after the other: it
leaves a result and a database if all pass, and else fails, for a locked database without
a change beside the database. -/
structure Goes (env : Env) (attempt : ℕ) (s : World) {α : Type} (x : Call α) (db : Db)
    (checks : List Check) (Q : α → Db → Prop) : Prop where
  passes : env.stop attempt checks = none →
    ∃ a db', x { s with db := db } = (.ok a, { s with db := db' }) ∧ Q a db'
  stops : ∀ isLocked, env.stop attempt checks = some isLocked →
    ∃ e s', x { s with db := db } = (.error e, s') ∧ (e = .step true ↔ isLocked = true) ∧
      (isLocked = true → ∃ db', s' = { s with db := db' })

section Goes

variable {env : Env} {attempt : ℕ} {s : World} {db : Db} {checks rest : List Check}

theorem Env.stop_append (env : Env) (attempt : ℕ) (checks rest : List Check) :
    env.stop attempt (checks ++ rest) =
      (env.stop attempt checks).or (env.stop attempt rest) :=
  List.findSome?_append

theorem stop_input_false : env.stop attempt (.input false :: rest) = some false := rfl

variable {α β : Type} {Q : α → Db → Prop} {R : β → Db → Prop}

theorem Goes.bind {x : Call α} {f : α → Call β} (hx : Goes env attempt s x db checks Q)
    (hf : ∀ a db', Q a db' → Goes env attempt s (f a) db' rest R) :
    Goes env attempt s (x >>= f) db (checks ++ rest) R := by
  cases hstop : env.stop attempt checks with
  | none =>
    obtain ⟨a, db', hres, hQ⟩ := hx.passes hstop
    have hrest := hf a db' hQ
    constructor
    · rw [Env.stop_append, hstop, bind_of_ok hres]
      exact hrest.passes
    · rw [Env.stop_append, hstop, bind_of_ok hres]
      exact hrest.stops
  | some isLocked =>
    obtain ⟨e, s', hres, hlocked⟩ := hx.stops isLocked hstop
    constructor
    · rw [Env.stop_append, hstop]
      simp
    · rw [Env.stop_append, hstop, bind_of_error hres]
      rintro isLocked' ⟨⟩
      exact ⟨e, s', rfl, hlocked⟩

theorem goes_pure (a : α) (h : Q a db) : Goes env attempt s (pure a) db [] Q where
  passes _ := ⟨a, db, rfl, h⟩
  stops := by simp [Env.stop]

theorem goes_read {Q : World → Db → Prop} (h : Q { s with db := db } db) :
    Goes env attempt s .read db [] Q where
  passes _ := ⟨_, db, rfl, h⟩
  stops := by simp [Env.stop]

theorem goes_writeDb {f : Db → Db} {Q : Unit → Db → Prop} (h : Q () (f db)) :
    Goes env attempt s (writeDb f) db [] Q where
  passes _ := ⟨(), f db, rfl, h⟩
  stops := by simp [Env.stop]

theorem goes_pass (p : Point) {Q : Unit → Db → Prop} (h : Q () db) :
    Goes env attempt s (env.pass attempt p) db [.step p] Q := by
  cases hfind : env.throws.find? fun t => t.attempt = attempt && t.point = p with
  | none =>
    have hpass : env.pass attempt p = pure () := by rw [Env.pass, hfind]
    rw [hpass]
    constructor
    · exact fun _ => ⟨(), db, rfl, h⟩
    · simp [Env.stop, Env.stopAt, hfind]
  | some t =>
    have hpass : env.pass attempt p = .fail (.step t.isLockedDbError) := by rw [Env.pass, hfind]
    rw [hpass]
    constructor
    · simp [Env.stop, Env.stopAt, hfind]
    · intro isLocked hstop
      have hlocked : t.isLockedDbError = isLocked := by
        simpa [Env.stop, Env.stopAt, hfind] using hstop
      rw [hlocked]
      exact ⟨_, _, rfl, by simp, fun _ => ⟨db, rfl⟩⟩

theorem goes_failIf {c : Bool} {e : CallError} (he : e ≠ .step true) {Q : Unit → Db → Prop}
    (h : c = false → Q () db) :
    Goes env attempt s (.failIf c e) db [.input (!c)] Q := by
  cases c with
  | false => exact ⟨fun _ => ⟨(), db, rfl, h rfl⟩, by simp [Env.stop, Env.stopAt]⟩
  | true =>
    constructor
    · simp [Env.stop, Env.stopAt]
    · rintro _ ⟨⟩
      exact ⟨e, _, rfl, by simp [he], by simp⟩

theorem goes_orFail_none {e : CallError} (he : e ≠ .step true) {a? : Option α} {f : α → Call β}
    (ha : a? = none) : Goes env attempt s (.orFail e a? >>= f) db (.input false :: rest) R := by
  rw [ha]
  constructor
  · rw [stop_input_false]
    simp
  · rw [stop_input_false]
    rintro _ ⟨⟩
    exact ⟨e, _, rfl, by simp [he], by simp⟩

end Goes

section Run

variable {env : Env} {args : UpdateArgs} {attempt : ℕ} {s : World} {db db' : Db}
  {rest : List Check} {β : Type} {R : β → Db → Prop}

theorem failIf_bind (c : Bool) (e : CallError) (f : Unit → Call β) (s : World) :
    (.failIf c e >>= f : Call β) s = if c then (.error e, s) else f () s := by
  cases c <;> rfl

theorem orFail_bind_none {α : Type} {e : CallError} {a? : Option α} {f : α → Call β}
    (ha : a? = none) (s : World) : (.orFail e a? >>= f : Call β) s = (.error e, s) := by
  rw [ha]
  rfl

theorem orFail_bind_some {α : Type} {e : CallError} {a? : Option α} {a : α} {f : α → Call β}
    (ha : a? = some a) (s : World) : (.orFail e a? >>= f : Call β) s = f a s := by
  rw [ha]
  rfl

/-- `signUp` of a sub-user does what `signedUp` says. -/
theorem signUp_eq (session : Session) (masterUserId : Option ℕ) (auth : CheckedAuth) :
    (∀ user db', signedUp env session masterUserId auth db = some (user, db') →
      signUp env auth session.user.password session.user.isNotProtected false true masterUserId
        none { s with db := db } = (.ok user, { s with db := db' })) ∧
    (signedUp env session masterUserId auth db = none →
      ∃ e, e ≠ .step true ∧ signUp env auth session.user.password session.user.isNotProtected
        false true masterUserId none { s with db := db } = (.error e, { s with db := db })) := by
  unfold signedUp signUp
  dsimp only
  generalize (if session.user.isNotProtected then env.secretKey else session.user.password) =
    password
  rw [failIf_bind]
  by_cases hkeys : (auth.apiKey.isNone || auth.apiSecret.isNone || decide (password = "")) = true
  · rw [if_pos hkeys, if_pos hkeys]
    exact ⟨by simp, fun _ => ⟨.auth, by simp, rfl⟩⟩
  rw [if_neg hkeys, if_neg hkeys, failIf_bind]
  by_cases hsubAccount :
      (auth.account.isNone && isSubAccountApiKeys auth.apiKey auth.apiSecret) = true
  · rw [if_pos hsubAccount, if_pos hsubAccount]
    exact ⟨by simp, fun _ => ⟨.auth, by simp, rfl⟩⟩
  rw [if_neg hsubAccount, if_neg hsubAccount, failIf_bind, if_neg (by simp)]
  cases haccount : env.accountOf auth with
  | none =>
    rw [orFail_bind_none rfl, Option.bind_none]
    exact ⟨by simp, fun _ => ⟨.api, by simp, rfl⟩⟩
  | some account =>
    rw [orFail_bind_some rfl, Option.bind_some, failIf_bind]
    by_cases hemail : account.email = ""
    · rw [if_pos hemail, if_pos (by simp [hemail])]
      exact ⟨by simp, fun _ => ⟨.auth, by simp, rfl⟩⟩
    have hemailBool : ¬ decide (account.email = "") = true := by simp [hemail]
    rw [if_neg hemail, if_neg hemailBool, bind_of_ok (read_apply _), failIf_bind]
    by_cases hstored : (auth.account.isNone && (db.getUser account.email
        (some (generateSubUserName masterUserId account.username false true))
        false true).isSome) = true
    · rw [if_pos hstored, if_pos hstored]
      exact ⟨by simp, fun _ => ⟨.userWasPreviouslyStored, by simp, rfl⟩⟩
    rw [if_neg hstored, if_neg hstored]
    cases hinsert : db.insertUser (newUser env auth account password
        session.user.isNotProtected false true masterUserId none db.nextId) with
    | none =>
      rw [orFail_bind_none rfl, Option.map_none]
      exact ⟨by simp, fun _ => ⟨.uniqueConstraint, by simp, rfl⟩⟩
    | some inserted =>
      rw [orFail_bind_some rfl, Option.map_some]
      constructor
      · rintro user db' ⟨⟩
        rfl
      · simp

/-! One check after the other. -/

theorem Goes.step_bind {p : Point} {f : Unit → Call β}
    (hf : Goes env attempt s (f ()) db rest R) :
    Goes env attempt s (env.pass attempt p >>= f) db (.step p :: rest) R :=
  (goes_pass p (Q := fun _ db' => db' = db) rfl).bind fun _ _ hdb => hdb ▸ hf

theorem Goes.read_bind {f : World → Call β}
    (hf : Goes env attempt s (f { s with db := db }) db rest R) :
    Goes env attempt s (.read >>= f) db rest R :=
  (goes_read (Q := fun a db' => a = { s with db := db } ∧ db' = db) ⟨rfl, rfl⟩).bind
    fun _ _ h => h.1 ▸ h.2 ▸ hf

theorem Goes.writeDb_bind {g : Db → Db} {f : Unit → Call β}
    (hf : Goes env attempt s (f ()) (g db) rest R) :
    Goes env attempt s (writeDb g >>= f) db rest R :=
  (goes_writeDb (Q := fun _ db' => db' = g db) rfl).bind fun _ _ hdb => hdb ▸ hf

theorem Goes.failIf_bind {c isAccepted : Bool} {e : CallError} {f : Unit → Call β}
    (he : e ≠ .step true) (haccepted : isAccepted = !c)
    (hf : c = false → Goes env attempt s (f ()) db rest R) :
    Goes env attempt s (.failIf c e >>= f) db (.input isAccepted :: rest) R := by
  subst haccepted
  exact (goes_failIf he (Q := fun _ db' => c = false ∧ db' = db) fun hc => ⟨hc, rfl⟩).bind
    fun _ _ h => h.2 ▸ hf h.1

theorem Goes.orFail_bind {α : Type} {e : CallError} {a? : Option α} {a : α} {f : α → Call β}
    (ha : a? = some a) (hf : Goes env attempt s (f a) db rest R) :
    Goes env attempt s (.orFail e a? >>= f) db rest R := by
  rw [ha]
  exact (goes_pure a (Q := fun a' db' => a' = a ∧ db' = db) ⟨rfl, rfl⟩).bind
    fun _ _ h => h.1 ▸ h.2 ▸ hf

theorem Goes.bind_pure {α : Type} {x : Call α} {b : β} {checks : List Check}
    (hx : Goes env attempt s x db checks fun _ _ => True) (hb : ∀ db', R b db') :
    Goes env attempt s (x >>= fun _ => pure b) db checks R := by
  rw [← List.append_nil checks]
  exact hx.bind fun _ db' _ => goes_pure b (hb db')

theorem goes_failIf_last {c isAccepted : Bool} {e : CallError} {Q : Unit → Db → Prop}
    (he : e ≠ .step true) (haccepted : isAccepted = !c) (h : Q () db) :
    Goes env attempt s (.failIf c e) db [.input isAccepted] Q := by
  subst haccepted
  exact goes_failIf he fun _ => h

/-- An input that is accepted stops nothing. -/
theorem Goes.input_true {x : Call β} (hx : Goes env attempt s x db rest R) :
    Goes env attempt s x db (.input true :: rest) R :=
  ⟨hx.passes, hx.stops⟩

/-- `addSubUser` takes the steps around `signUp`. -/
theorem goes_addSubUser (session : Session) (masterUserId : Option ℕ) (auth : CheckedAuth)
    (i : ℕ) {f : User → Call β} :
    (signedUp env session masterUserId auth db = none →
      Goes env attempt s (addSubUser env attempt i auth session.user.password
        session.user.isNotProtected masterUserId session.user._id >>= f) db
        (.step (.signUpSubUser i) :: .input false :: rest) R) ∧
    ∀ subUser db', signedUp env session masterUserId auth db = some (subUser, db') →
      Goes env attempt s (f subUser) (db'.insertSubAccount session.user._id subUser._id) rest R →
      Goes env attempt s (addSubUser env attempt i auth session.user.password
        session.user.isNotProtected masterUserId session.user._id >>= f) db
        (.step (.signUpSubUser i) :: .step (.insertSubAccount i) :: rest) R := by
  obtain ⟨hsome, hnone⟩ := @signUp_eq env s db session masterUserId auth
  constructor
  · intro hrefused
    obtain ⟨e, he, hres⟩ := hnone hrefused
    have hfails : Goes env attempt s (addSubUser env attempt i auth session.user.password
        session.user.isNotProtected masterUserId session.user._id) db
        (.step (.signUpSubUser i) :: [.input false]) fun _ _ => False := by
      apply Goes.step_bind
      constructor
      · simp [stop_input_false]
      · rintro _ ⟨⟩
        exact ⟨e, _, bind_of_error hres, by simp [he], by simp⟩
    exact hfails.bind fun _ _ h => h.elim
  · intro subUser db' hsigned hf
    have hadds : Goes env attempt s (addSubUser env attempt i auth session.user.password
        session.user.isNotProtected masterUserId session.user._id) db
        (.step (.signUpSubUser i) :: [.step (.insertSubAccount i)])
        fun user db'' => user = subUser ∧
          db'' = db'.insertSubAccount session.user._id subUser._id := by
      apply Goes.step_bind
      have hsignUp : Goes env attempt s (signUp env auth session.user.password
          session.user.isNotProtected false true masterUserId none) db []
          fun user db'' => user = subUser ∧ db'' = db' :=
        ⟨fun _ => ⟨_, _, hsome subUser db' hsigned, rfl, rfl⟩, by simp [Env.stop]⟩
      apply hsignUp.bind
      rintro _ _ ⟨rfl, rfl⟩
      apply Goes.step_bind
      apply Goes.writeDb_bind
      exact goes_pure _ ⟨rfl, rfl⟩
    exact hadds.bind fun _ _ h => h.1 ▸ h.2 ▸ hf

/-- The loop over the sub-users to add follows the plan. -/
theorem goes_addSubUsers (session : Session) (masterUser : User) (auths : List SubUserAuth)
    (processedSubUsers addedSubUsers : List User) (db : Db) :
    Goes env attempt s
      (addSubUsers env attempt session masterUser processedSubUsers addedSubUsers auths) db
      (addPlan env s session masterUser processedSubUsers addedSubUsers db auths).1
      fun added db' =>
        (added, db') = (addPlan env s session masterUser processedSubUsers addedSubUsers db auths).2
    := by
  induction auths generalizing processedSubUsers addedSubUsers db with
  | nil => exact goes_pure _ rfl
  | cons subUserAuth rest ih =>
    rw [addSubUsers, addPlan]
    cases hauth : checkAuth env.secretKey { s with db := db } subUserAuth with
    | none =>
      apply Goes.step_bind
      apply Goes.read_bind
      exact goes_orFail_none (by simp) hauth
    | some auth =>
      cases hfind : session.subUsers.find? (hasKeysOf auth) with
      | some existedSubUser =>
        simp only [hfind]
        apply Goes.step_bind
        apply Goes.read_bind
        apply Goes.orFail_bind hauth
        simp only [hfind]
        exact ih (processedSubUsers ++ [existedSubUser]) addedSubUsers db
      | none =>
        by_cases hknown : (hasKeysOf auth masterUser ||
            processedSubUsers.any (hasKeysOf auth)) = true
        · simp only [hfind, hknown, if_true]
          apply Goes.step_bind
          apply Goes.read_bind
          apply Goes.orFail_bind hauth
          simp only [hfind, hknown, if_true]
          exact ih processedSubUsers addedSubUsers db
        · simp only [hfind, hknown, Bool.false_eq_true, if_false]
          cases hsigned : signedUp env session masterUser.id auth db with
          | none =>
            apply Goes.step_bind
            apply Goes.read_bind
            apply Goes.orFail_bind hauth
            simp only [hfind, hknown, Bool.false_eq_true, if_false]
            exact (goes_addSubUser session masterUser.id auth rest.length).1 hsigned
          | some signed =>
            obtain ⟨subUser, db'⟩ := signed
            apply Goes.step_bind
            apply Goes.read_bind
            apply Goes.orFail_bind hauth
            simp only [hfind, hknown, Bool.false_eq_true, if_false]
            apply (goes_addSubUser session masterUser.id auth rest.length).2 subUser db' hsigned
            exact ih (processedSubUsers ++ [subUser]) (addedSubUsers ++ [subUser])
              (db'.insertSubAccount session.user._id subUser._id)

theorem goes_removeSubUsers (users : List User) :
    Goes env attempt s (.skipIf users.isEmpty (removeSubUsers env attempt (users.map User._id))) db
      (removeChecks (users.map User._id) db)
      fun _ db' => db'.tempLedgers.length = db.tempLedgers.length := by
  cases users with
  | nil => exact goes_pure () rfl
  | cons user users =>
    apply Goes.step_bind
    apply Goes.read_bind
    apply Goes.writeDb_bind
    apply goes_failIf_last (by simp) (by rw [decide_not, Bool.not_not])
    simp [Db.removeUsers]

theorem goes_resetTempLedgers (masterUserId n : ℕ) (db : Db) :
    Goes env attempt s (resetTempLedgers env attempt masterUserId n) db
      ((List.range n).map fun i => .step (.updateTempLedgers i)) fun _ _ => True := by
  induction n with
  | zero => exact goes_pure () trivial
  | succ n ih =>
    rw [List.range_succ, List.map_append]
    apply ih.bind
    intro _ _ _
    apply Goes.step_bind
    exact goes_writeDb trivial

theorem goes_resetLedgers (masterUserId : ℕ) (db : Db) :
    Goes env attempt s (resetLedgers env attempt masterUserId) db (resetChecks db)
      fun _ _ => True := by
  apply Goes.step_bind
  apply Goes.writeDb_bind
  apply Goes.step_bind
  apply Goes.read_bind
  exact goes_resetTempLedgers masterUserId db.tempLedgers.length _

theorem freshUser_authToken {user refreshedUser : User}
    (h : env.freshUser user = some refreshedUser) :
    refreshedUser.authToken =
      if user.authToken.isSome && env.generateAuthToken.isSome then env.generateAuthToken
      else user.authToken := by
  rw [Env.freshUser] at h
  cases hcheck : env.checkAuth (user.apiKey.getD "") (user.apiSecret.getD "") with
  | error =>
    rw [hcheck] at h
    cases h
  | user account =>
    rw [hcheck] at h
    obtain rfl := Option.some.inj h
    cases user.authToken <;> simp
  | netError =>
    rw [hcheck] at h
    obtain rfl := Option.some.inj h
    cases user.authToken <;> simp

theorem signedIn_eq {user refreshedUser : User} {subUsers : List User}
    (hverified : verifiedBy env args s = some (user, subUsers))
    (hfresh : env.freshUser user = some refreshedUser)
    (hupdate : s.db.updateUser user._id user.email refreshedUser = some db) :
    signedIn env args s = some
      (⟨refreshedUser, subUsers,
          (args.token.orElse fun _ => getUserSessionByEmail s args.email).getD env.newToken⟩,
        db.updateSubUsers (subUsers.map User._id) refreshedUser.isStagingBfxApi) := by
  rw [signedIn, hverified, Option.bind_some]
  dsimp only
  rw [hfresh, Option.bind_some, hupdate, Option.map_some]

/-- Signing in takes its checks.  A user with an authentication token, whose session is
changed at once, is refused behind it. -/
theorem goes_signIn {k : Session → Call β}
    (hgoes : ∀ session db', signedIn env args s = some (session, db') →
      session.user.authToken = none → Goes env attempt s (k session) db' rest R)
    (hrefused : ∀ session db', signedIn env args s = some (session, db') →
      session.user.authToken.isSome → (∃ rest', rest = .input false :: rest') ∧
        ∀ s', ∃ e s'', k session s' = (.error e, s'') ∧ e ≠ .step true) :
    Goes env attempt s (signIn env attempt args.email args.password args.token >>= k) s.db
      (signInChecks env args s ++ rest) R := by
  rw [signIn, signInChecks]
  simp only [Attempt.bind_assoc]
  apply Goes.step_bind
  apply Goes.read_bind
  cases hverified : verifiedBy env args s with
  | none => exact goes_orFail_none (by simp) hverified
  | some verified =>
    obtain ⟨user, subUsers⟩ := verified
    apply Goes.orFail_bind hverified
    dsimp only
    apply Goes.step_bind
    apply Goes.failIf_bind (by simp) rfl
    intro hgenerated
    apply Goes.step_bind
    cases hfresh : env.freshUser user with
    | none => exact goes_orFail_none (by simp) hfresh
    | some refreshedUser =>
      apply Goes.orFail_bind hfresh
      apply Goes.step_bind
      cases hupdate : s.db.updateUser user._id user.email refreshedUser with
      | none => exact goes_orFail_none (by simp) rfl
      | some db =>
        apply Goes.input_true
        apply Goes.orFail_bind rfl
        apply Goes.writeDb_bind
        apply Goes.step_bind
        apply Goes.writeDb_bind
        apply Goes.failIf_bind (by simp) (by rw [decide_not, Bool.not_not])
        intro _
        have hsigned := signedIn_eq hverified hfresh hupdate
        have hauthToken := freshUser_authToken hfresh
        cases htoken : user.authToken with
        | none =>
          rw [htoken] at hauthToken
          simp only [Option.isSome_none, Bool.false_eq_true, if_false]
          exact hgoes _ _ hsigned (by simpa using hauthToken)
        | some authToken =>
          have hnew : env.generateAuthToken.isSome = true := by
            simpa [htoken] using hgenerated
          rw [htoken, hnew] at hauthToken
          have hrefreshed : refreshedUser.authToken.isSome = true := by
            rw [hauthToken]
            exact hnew
          obtain ⟨⟨rest', rfl⟩, herror⟩ := hrefused _ _ hsigned hrefreshed
          simp only [Option.isSome_some, if_true, hnew]
          constructor
          · intro hstop
            cases hstop
          · rintro _ ⟨⟩
            rw [Attempt.bind_assoc, failIf_bind]
            split_ifs
            · exact ⟨.typeError, _, rfl, by simp, by simp⟩
            · obtain ⟨e, s'', hres, he⟩ := herror _
              exact ⟨e, s'', hres, by simp [he], by simp⟩

/-- All of the transaction's body but for the session follows the plan. -/
theorem goes_refreshSubAccount :
    Goes env attempt s (refreshSubAccount env args attempt) s.db (refreshPlan env args s).1
      fun session _ => (refreshPlan env args s).2 = some session := by
  rw [refreshSubAccount, refreshPlan]
  simp only [List.contains_eq_mem]
  cases hsigned : signedIn env args s with
  | none =>
    rw [← List.append_nil (signInChecks env args s)]
    apply goes_signIn
    · intro session db' hsome
      rw [hsigned] at hsome
      cases hsome
    · intro session db' hsome
      rw [hsigned] at hsome
      cases hsome
  | some signed =>
    obtain ⟨session, db⟩ := signed
    -- the arguments are refused where the user has an authentication token
    have hrefused : ∀ tail (k : Session → Unit → Call Session) session' db',
        signedIn env args s = some (session', db') → session'.user.authToken.isSome →
          (∃ rest', Check.input (!args.areInvalid session.user) :: tail = .input false :: rest') ∧
          ∀ s', ∃ e s'', (.failIf (args.areInvalid session'.user) .subAccountUpdating >>=
            k session' : Call Session) s' = (.error e, s'') ∧ e ≠ .step true := by
      intro tail k session' db' hsome htoken
      rw [hsigned] at hsome
      obtain ⟨rfl, rfl⟩ := Prod.mk.inj (Option.some.inj hsome)
      have hinvalid : args.areInvalid session.user = true := by
        simp [UpdateArgs.areInvalid, htoken]
      rw [hinvalid]
      exact ⟨⟨tail, rfl⟩, fun s' => ⟨.subAccountUpdating, s', rfl, by simp⟩⟩
    cases hmaster : session.subUsers.find? fun subUser => subUser.email = session.user.email with
    | none =>
      simp only [hmaster, List.append_assoc, List.singleton_append]
      apply goes_signIn
      · intro session' db' hsome _
        rw [hsigned] at hsome
        obtain ⟨rfl, rfl⟩ := Prod.mk.inj (Option.some.inj hsome)
        apply Goes.failIf_bind (by simp) rfl
        intro _
        exact goes_orFail_none (by simp) hmaster
      · exact hrefused _ _
    | some masterUser =>
      simp only [hmaster, List.append_assoc, List.singleton_append]
      apply goes_signIn
      · intro session' db' hsome _
        rw [hsigned] at hsome
        obtain ⟨rfl, rfl⟩ := Prod.mk.inj (Option.some.inj hsome)
        apply Goes.failIf_bind (by simp) rfl
        intro _
        apply Goes.orFail_bind hmaster
        apply (goes_addSubUsers session masterUser _ [] [] db).bind
        rintro added db' hadded
        rw [← hadded]
        dsimp only
        apply (goes_removeSubUsers _).bind
        intro _ db'' htables
        apply Goes.bind_pure _ fun _ => rfl
        have hreset : resetChecks db' = resetChecks db'' := by
          rw [resetChecks, resetChecks, htables]
        rw [hreset]
        by_cases hnothing : (added.isEmpty && (session.subUsers.filter fun subUser =>
            decide (some subUser.email ∈ args.removingSubUsersByEmails)).isEmpty) = true
        · rw [if_pos hnothing, hnothing]
          exact goes_pure () trivial
        · rw [if_neg hnothing, eq_false_of_ne_true hnothing]
          exact goes_resetLedgers _ db''
      · exact hrefused _ _

/-- The body of the transaction. -/
def updateBody (env : Env) (args : UpdateArgs) (attempt : ℕ) : Call Unit := do
  let session ← refreshSubAccount env args attempt
  setUserSession session

theorem once_of_stops {isLocked : Bool}
    (hstop : env.stop attempt (.step .begin :: (refreshPlan env args s).1) = some isLocked) :
    ∃ e s', proccesTrans.once env (updateBody env args) attempt s = (.error e, s') ∧
      (e = .step true ↔ isLocked = true) ∧ (isLocked = true → s' = s) := by
  have hgoes : Goes env attempt s
      (env.pass attempt .begin >>= fun _ => refreshSubAccount env args attempt) s.db
      (.step .begin :: (refreshPlan env args s).1) _ := Goes.step_bind goes_refreshSubAccount
  obtain ⟨e, s', hres, hlocked, hsame⟩ := hgoes.stops isLocked hstop
  have hbody : (do
      env.pass attempt .begin
      let res ← updateBody env args attempt
      env.pass attempt .commit
      pure res : Call Unit) s = (.error e, s') := by
    have herror := @bind_of_error _ _ _ _ _ (fun session => do
      setUserSession session
      env.pass attempt .commit
      (pure () : Call Unit)) _ _ _ hres
    simpa only [updateBody, Attempt.bind_assoc] using herror
  refine ⟨e, { s' with db := s.db }, ?_, hlocked, ?_⟩
  · rw [proccesTrans.once, orRestore, hbody]
  · intro htrue
    obtain ⟨db', rfl⟩ := hsame htrue
    rfl

/-- A run of the transaction ends as the checks say. -/
theorem once_spec :
    (runStop env args attempt s = none →
      ∃ s', proccesTrans.once env (updateBody env args) attempt s = (.ok (), s')) ∧
    ∀ isLocked s', runStop env args attempt s = some (isLocked, s') →
      ∃ e s'', proccesTrans.once env (updateBody env args) attempt s = (.error e, s'') ∧
        (e = .step true ↔ isLocked = true) ∧ (isLocked = true → s'' = s') := by
  rw [runStop]
  cases hstop : env.stop attempt (.step .begin :: (refreshPlan env args s).1) with
  | some isLocked =>
    constructor
    · simp
    · rintro _ _ ⟨⟩
      exact once_of_stops hstop
  | none =>
    have hgoes : Goes env attempt s
        (env.pass attempt .begin >>= fun _ => refreshSubAccount env args attempt) s.db
        (.step .begin :: (refreshPlan env args s).1) _ := Goes.step_bind goes_refreshSubAccount
    obtain ⟨session, db', hres, hsession⟩ := hgoes.passes hstop
    have hbody : (do
        env.pass attempt .begin
        let res ← updateBody env args attempt
        env.pass attempt .commit
        pure res : Call Unit) s = (env.pass attempt .commit >>= fun _ => pure ())
          { s with db := db', sessions := s.sessions.set session.token session } := by
      have hok := @bind_of_ok _ _ _ _ _ (fun session => do
        setUserSession session
        env.pass attempt .commit
        (pure () : Call Unit)) _ _ _ hres
      simp only [Attempt.bind_assoc] at hok
      simp only [updateBody, Attempt.bind_assoc]
      exact hok
    rw [proccesTrans.once, orRestore, hbody]
    cases hcommit : env.throws.find? fun t => t.attempt = attempt && t.point = .commit with
    | none =>
      have hpass : env.pass attempt .commit = pure () := by rw [Env.pass, hcommit]
      have hnone : env.stop attempt [.step .commit] = none := by
        simp [Env.stop, Env.stopAt, hcommit]
      rw [hpass, hnone]
      exact ⟨fun _ => ⟨_, rfl⟩, by simp⟩
    | some t =>
      have hpass : env.pass attempt .commit = .fail (.step t.isLockedDbError) := by
        rw [Env.pass, hcommit]
      have hsome : env.stop attempt [.step .commit] = some t.isLockedDbError := by
        simp [Env.stop, Env.stopAt, hcommit]
      rw [hpass, hsome, hsession]
      constructor
      · simp
      · rintro _ _ ⟨⟩
        exact ⟨.step t.isLockedDbError, _, rfl, by simp, fun _ => rfl⟩

theorem isOk_proccesTrans (left attempt : ℕ) (s : World) :
    (proccesTrans env (updateBody env args) left attempt s).1.isOk =
      commits env args left attempt s := by
  induction left generalizing attempt s with
  | zero =>
    obtain ⟨hpasses, hstops⟩ := @once_spec env args attempt s
    rw [proccesTrans, commits]
    cases hstop : runStop env args attempt s with
    | none =>
      obtain ⟨s', hres⟩ := hpasses hstop
      rw [hres]
      rfl
    | some stopped =>
      obtain ⟨e, s', hres, _⟩ := hstops stopped.1 stopped.2 hstop
      rw [hres]
      rfl
  | succ left ih =>
    obtain ⟨hpasses, hstops⟩ := @once_spec env args attempt s
    rw [proccesTrans, commits, orRetry]
    cases hstop : runStop env args attempt s with
    | none =>
      obtain ⟨s', hres⟩ := hpasses hstop
      rw [hres]
      rfl
    | some stopped =>
      obtain ⟨isLocked, s'⟩ := stopped
      obtain ⟨e, s'', hres, hlocked, hsame⟩ := hstops isLocked s' hstop
      rw [hres]
      cases isLocked with
      | false =>
        have he : decide (e = .step true) = false := by simpa using hlocked
        simp only [he, Bool.false_eq_true, if_false]
        rfl
      | true =>
        rw [hlocked.mpr rfl, hsame rfl]
        simp only [decide_true, if_true, Bool.true_and]
        rw [← ih, bind_of_ok (write_apply _ _)]
        cases hrun : proccesTrans env (updateBody env args) left (attempt + 1)
            { s' with lockedDbRetryInTrxAmount := s'.lockedDbRetryInTrxAmount + 1 } with
        | mk res s₁ =>
          cases res with
          | ok a => rw [bind_of_ok hrun]; rfl
          | error e' => rw [bind_of_error hrun]

/-- The transaction commits after as many runs as it has left. -/
theorem isOk_updateTransaction (env : Env) (args : UpdateArgs) (s : World) :
    (executeQueriesInTrans env (updateBody env args) s).1.isOk =
      commits env args (3 - s.lockedDbRetryInTrxAmount) 0 s :=
  isOk_proccesTrans (3 - s.lockedDbRetryInTrxAmount) 0 s

end Run

end SubAccounts

end ReportsFramework
