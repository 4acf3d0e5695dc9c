/-
An update of a sub-account that throws leaves the database and the sessions as they
were, unless it throws at the commit of the transaction or behind it.
-/
import ReportsFramework.SubAccounts

namespace ReportsFramework

namespace SubAccounts

open Attempt

variable {env : Env} {attempt : ℕ} {s : World}

section Steps

variable {κ : Type} {f : World → κ}

theorem keeps_pass (p : Point) (f : World → κ) : Keeps f (env.pass attempt p) := by
  unfold Env.pass
  split
  · exact keeps_fail _
  · exact keeps_pure _

theorem wp_pass {p : Point} {Q : Unit → World → Prop} {E : World → Prop} (hQ : Q () s)
    (hE : E s) : wp (env.pass attempt p) Q E s := by
  unfold Env.pass
  split
  · exact hE
  · exact hQ

theorem pass_eq_pure {p : Point} (h : ∀ t ∈ env.throws, t.point ≠ p) :
    env.pass attempt p = pure () := by
  have hnone : env.throws.find? (fun t => t.attempt = attempt && t.point = p) = none := by
    apply List.find?_eq_none.mpr
    intro t ht
    simp [h t ht]
  rw [Env.pass, hnone]

/-- A part of the state that is no part of the database. -/
def IgnoresDb (f : World → κ) : Prop :=
  ∀ (s : World) (db : Db), f { s with db } = f s

theorem ignoresDb_sessions : IgnoresDb World.sessions := fun _ _ => rfl

theorem keeps_writeDb (hf : IgnoresDb f) (g : Db → Db) : Keeps f (writeDb g) :=
  keeps_write fun s => hf s (g s.db)

theorem keeps_signUp (hf : IgnoresDb f) (auth : CheckedAuth) (userPwd : String)
    (isNotProtected isSubAccount isSubUser : Bool) (masterUserId : Option ℕ)
    (localUsername : Option String) :
    Keeps f (signUp env auth userPwd isNotProtected isSubAccount isSubUser
      masterUserId localUsername) := by
  apply Keeps.bind (keeps_failIf _ _)
  intro _
  apply Keeps.bind (keeps_failIf _ _)
  intro _
  apply Keeps.bind (keeps_failIf _ _)
  intro _
  apply Keeps.bind (keeps_orFail _ _)
  intro account
  apply Keeps.bind (keeps_failIf _ _)
  intro _
  apply Keeps.bind keeps_read
  intro s
  apply Keeps.bind (keeps_failIf _ _)
  intro _
  apply Keeps.bind (keeps_orFail _ _)
  intro db
  exact Keeps.bind (keeps_writeDb hf _) fun _ => keeps_pure _

theorem keeps_addSubUser (hf : IgnoresDb f) (i : ℕ) (auth : CheckedAuth) (password : String)
    (isNotProtected : Bool) (masterUserId : Option ℕ) (subAccountId : ℕ) :
    Keeps f (addSubUser env attempt i auth password isNotProtected masterUserId subAccountId) := by
  apply Keeps.bind (keeps_pass _ _)
  intro _
  apply Keeps.bind (keeps_signUp hf _ _ _ _ _ _ _)
  intro subUser
  apply Keeps.bind (keeps_pass _ _)
  intro _
  exact Keeps.bind (keeps_writeDb hf _) fun _ => keeps_pure _

theorem keeps_addSubUsers (hf : IgnoresDb f) (session : Session) (masterUser : User)
    (auths : List SubUserAuth) (processedSubUsers addedSubUsers : List User) :
    Keeps f (addSubUsers env attempt session masterUser processedSubUsers addedSubUsers auths) := by
  induction auths generalizing processedSubUsers addedSubUsers with
  | nil => exact keeps_pure _
  | cons subUserAuth rest ih =>
    apply Keeps.bind (keeps_pass _ _)
    intro _
    apply Keeps.bind keeps_read
    intro s
    apply Keeps.bind (keeps_orFail _ _)
    intro auth
    split
    · exact ih _ _
    · apply Keeps.ite (ih _ _)
      exact Keeps.bind (keeps_addSubUser hf _ _ _ _ _ _) fun _ => ih _ _

theorem keeps_removeSubUsers (hf : IgnoresDb f) (ids : List ℕ) :
    Keeps f (removeSubUsers env attempt ids) := by
  apply Keeps.bind (keeps_pass _ _)
  intro _
  apply Keeps.bind keeps_read
  intro s
  exact Keeps.bind (keeps_writeDb hf _) fun _ => keeps_failIf _ _

theorem keeps_resetTempLedgers (hf : IgnoresDb f) (masterUserId n : ℕ) :
    Keeps f (resetTempLedgers env attempt masterUserId n) := by
  induction n with
  | zero => exact keeps_pure _
  | succ n ih =>
    apply Keeps.bind ih
    intro _
    exact Keeps.bind (keeps_pass _ _) fun _ => keeps_writeDb hf _

theorem keeps_resetLedgers (hf : IgnoresDb f) (masterUserId : ℕ) :
    Keeps f (resetLedgers env attempt masterUserId) := by
  apply Keeps.bind (keeps_pass _ _)
  intro _
  apply Keeps.bind (keeps_writeDb hf _)
  intro _
  apply Keeps.bind (keeps_pass _ _)
  intro _
  exact Keeps.bind keeps_read fun _ => keeps_resetTempLedgers hf _ _

end Steps

section SignIn

/-- The user of the arguments, if there is one, has no authentication token. -/
def hasNoAuthToken (env : Env) (args : UpdateArgs) (s : World) : Bool :=
  (verifyUser env.secretKey s args.email args.password true args.token true).all fun verified =>
    verified.1.authToken.isNone

/-- A user is verified from the database and the sessions. -/
theorem verifyUser_congr {s s' : World} (hdb : s'.db = s.db) (hsessions : s'.sessions = s.sessions)
    {secretKey : String} {email password : Option String} {isSubAccount : Bool}
    {token : Option String} {isFilledSubUsers : Bool} :
    verifyUser secretKey s' email password isSubAccount token isFilledSubUsers =
      verifyUser secretKey s email password isSubAccount token isFilledSubUsers := by
  unfold verifyUser
  rw [hdb, hsessions]

/-- Signing in changes a session only where the user has an authentication token. -/
theorem wp_signIn_sessions {args : UpdateArgs} (h : hasNoAuthToken env args s = true) :
    wp (signIn env attempt args.email args.password args.token)
      (fun _ s' => s'.sessions = s.sessions) (fun s' => s'.sessions = s.sessions) s := by
  rw [signIn, wp_bind]
  apply wp_pass
  · rw [wp_bind, wp_read, wp_bind, wp_orFail]
    refine ⟨?_, fun _ => rfl⟩
    rintro ⟨user, subUsers⟩ hverified
    have hnone : user.authToken = none := by
      simpa [hasNoAuthToken, hverified] using h
    apply keeps_iff.mp
    apply Keeps.bind (keeps_pass _ _)
    intro _
    apply Keeps.bind (keeps_failIf _ _)
    intro _
    apply Keeps.bind (keeps_pass _ _)
    intro _
    apply Keeps.bind (keeps_orFail _ _)
    intro refreshedUser
    apply Keeps.bind (keeps_pass _ _)
    intro _
    apply Keeps.bind (keeps_orFail _ _)
    intro db
    apply Keeps.bind (keeps_writeDb ignoresDb_sessions _)
    intro _
    apply Keeps.bind (keeps_pass _ _)
    intro _
    apply Keeps.bind (keeps_writeDb ignoresDb_sessions _)
    intro _
    apply Keeps.bind (keeps_failIf _ _)
    intro _
    rw [hnone]
    exact keeps_pure _
  · rfl

theorem wp_refreshSubAccount_sessions {args : UpdateArgs} (h : hasNoAuthToken env args s = true) :
    wp (refreshSubAccount env args attempt)
      (fun _ s' => s'.sessions = s.sessions) (fun s' => s'.sessions = s.sessions) s := by
  rw [refreshSubAccount, wp_bind]
  apply wp_mono (wp_signIn_sessions h)
  · intro session s' hs'
    rw [← hs']
    apply keeps_iff.mp
    apply Keeps.bind (keeps_failIf _ _)
    intro _
    apply Keeps.bind (keeps_orFail _ _)
    intro masterUser
    apply Keeps.bind (keeps_addSubUsers ignoresDb_sessions _ _ _ _ _)
    intro addedSubUsers
    apply Keeps.bind (Keeps.skipIf _ (keeps_removeSubUsers ignoresDb_sessions _))
    intro _
    apply Keeps.bind (Keeps.skipIf _ (keeps_resetLedgers ignoresDb_sessions _))
    intro _
    exact keeps_pure _
  · exact fun _ hs' => hs'

end SignIn

section Transaction

variable {α : Type} {Q : α → World → Prop} {body : ℕ → Call α}

/-- The database and the sessions are as they were. -/
def Untouched (s s' : World) : Prop :=
  s'.db = s.db ∧ s'.sessions = s.sessions

theorem wp_once (hcommit : ∀ t ∈ env.throws, t.point ≠ .commit) {s' : World}
    (hs' : Untouched s s')
    (hbody : wp (body attempt) Q (fun s'' => s''.sessions = s.sessions) s') :
    wp (proccesTrans.once env body attempt) Q (Untouched s) s' := by
  rw [proccesTrans.once, wp_orRestore, wp_bind]
  apply wp_pass
  · rw [wp_bind]
    apply wp_mono hbody
    · intro a s'' ha
      rw [pass_eq_pure hcommit]
      exact ha
    · exact fun s'' hs'' => ⟨hs'.1, hs''⟩
  · exact hs'

/-- A transaction whose body throws before the sessions are changed is undone, as often
as it is tried again. -/
theorem wp_proccesTrans (hcommit : ∀ t ∈ env.throws, t.point ≠ .commit)
    (hQ : ∀ a s' n, Q a s' → Q a { s' with lockedDbRetryInTrxAmount := n })
    (hbody : ∀ attempt s', Untouched s s' →
      wp (body attempt) Q (fun s'' => s''.sessions = s.sessions) s')
    (left attempt : ℕ) {s' : World} (hs' : Untouched s s') :
    wp (proccesTrans env body left attempt) Q (Untouched s) s' := by
  induction left generalizing attempt s' with
  | zero => exact wp_once hcommit hs' (hbody attempt s' hs')
  | succ left ih =>
    rw [proccesTrans]
    apply wp_orRetry (wp_once hcommit hs' (hbody attempt s' hs')) (fun _ h => h)
    intro s'' hs''
    rw [wp_bind, wp_write, wp_bind]
    have hretried : Untouched s
        { s'' with lockedDbRetryInTrxAmount := s''.lockedDbRetryInTrxAmount + 1 } := hs''
    apply wp_mono (ih (attempt + 1) hretried)
    · exact fun a s'' ha => hQ a s'' 0 ha
    · exact fun _ h => h

theorem wp_executeQueriesInTrans (hcommit : ∀ t ∈ env.throws, t.point ≠ .commit)
    (hQ : ∀ a s' n, Q a s' → Q a { s' with lockedDbRetryInTrxAmount := n })
    (hbody : ∀ attempt s', Untouched s s' →
      wp (body attempt) Q (fun s'' => s''.sessions = s.sessions) s')
    {s' : World} (hs' : Untouched s s') :
    wp (executeQueriesInTrans env body) Q (Untouched s) s' := by
  rw [executeQueriesInTrans, wp_bind, wp_read]
  exact wp_proccesTrans hcommit hQ hbody _ 0 hs'

end Transaction

/-- No step throws from the commit on. -/
def ThrowsBeforeCommit (env : Env) : Prop :=
  ∀ t ∈ env.throws, t.point ≠ .commit ∧ t.point ≠ .enableScheduler ∧ t.point ≠ .startSync

theorem wp_updateSubAccount {args : UpdateArgs} (hthrows : ThrowsBeforeCommit env)
    (h : hasNoAuthToken env args s = true) :
    wp (updateSubAccount env args) (fun _ _ => True) (Untouched s) s := by
  have hs : Untouched s { s with isSchedulerEnabled := false } := ⟨rfl, rfl⟩
  rw [updateSubAccount, wp_bind]
  apply wp_pass
  · rw [wp_bind, wp_write, wp_bind]
    apply wp_pass
    · rw [wp_bind]
      apply wp_mono (wp_executeQueriesInTrans (Q := fun _ _ => True) (s := s)
        (fun t ht => (hthrows t ht).1) (fun _ _ _ h => h) ?_ hs)
      · intro _ s' _
        rw [pass_eq_pure fun t ht => (hthrows t ht).2.1,
          pass_eq_pure fun t ht => (hthrows t ht).2.2]
        trivial
      · exact fun _ h => h
      · intro attempt s' hs'
        rw [wp_bind]
        have hauth : hasNoAuthToken env args s' = true := by
          rw [hasNoAuthToken, verifyUser_congr hs'.1 hs'.2]
          exact h
        apply wp_mono (wp_refreshSubAccount_sessions hauth)
        · exact fun _ _ _ => trivial
        · exact fun _ h => h.trans hs'.2
    · exact hs
  · exact ⟨rfl, rfl⟩

/-- Of a user without an authentication token, a call that throws before the commit leaves
the users, the sub-accounts, the ledgers and the sessions as they were. -/
theorem updateSubAccount_atomic {args : UpdateArgs} (hthrows : ThrowsBeforeCommit env)
    (h : hasNoAuthToken env args s = true) (e : CallError) (s' : World)
    (hres : updateSubAccount env args s = (.error e, s')) :
    s'.db = s.db ∧ s'.sessions = s.sessions := by
  have hwp := wp_updateSubAccount hthrows h
  rw [wp, hres] at hwp
  exact hwp

namespace AliceWitness

def account (id : ℕ) (email username : String) : Account := ⟨some id, email, "UTC", username, false⟩

def user (_id : ℕ) (owner : Account) (apiKey apiSecret : String) : User :=
  { owner with
    _id
    apiKey := some apiKey
    apiSecret := some apiSecret
    authToken := none
    password := "pwd"
    isNotProtected := false
    active := true
    isDataFromDb := true
    isSubAccount := false
    isSubUser := false
    localUsername := none
    isStagingBfxApi := false }

def alice : Account := account 1 "a@host" "alice"

def bob : Account := account 2 "b@host" "bob"

def carol : Account := account 3 "c@host" "carol"

/-- The API knows three users by their keys. -/
def api (newToken : String) (throws : List Throw) : Env where
  secretKey := "secret"
  isStagingBfxApi := false
  checkAuthInApi apiKey _ :=
    if apiKey = "keyA" then .user alice
    else if apiKey = "keyB" then .user bob
    else if apiKey = "keyC" then .user carol
    else .error
  generateAuthToken := none
  newToken
  throws

def byKeys (apiKey apiSecret : String) : SubUserAuth :=
  ⟨some apiKey, some apiSecret, none, none, none, none⟩

def byToken (token : String) : SubUserAuth := ⟨none, none, none, none, some token, none⟩

/-- Two users who are signed up, without sub-accounts. -/
def start : World where
  db := ⟨[user 1 alice "keyA" "secretA", user 2 bob "keyB" "secretB"], 3, [], [], []⟩
  sessions := .empty
  isSchedulerEnabled := true
  lockedDbRetryInTrxAmount := 0

def create : CreateArgs :=
  ⟨some "a@host", some "pwd", none, none, [byKeys "keyB" "secretB"], none⟩

/-- A sub-account of Alice and Bob. -/
def created : World := (createSubAccount (api "token" []) create start).2

/-- Carol in the place of Bob. -/
def exchange : UpdateArgs :=
  ⟨none, none, some "token", [byKeys "keyC" "secretC"], [some "b@host"]⟩

def subUsersOfSession (s : World) : Option (List String) :=
  (s.sessions.val "token").map fun session => session.subUsers.map fun subUser => subUser.email

/-- The commit throws, and the session alone has the new sub-users. -/
theorem session_ahead_of_database :
    (updateSubAccount (api "token'" [⟨0, .commit, false⟩]) exchange created).1.isOk = false ∧
      (updateSubAccount (api "token'" [⟨0, .commit, false⟩]) exchange created).2.db = created.db ∧
      subUsersOfSession created = some ["b@host", "a@host"] ∧
      subUsersOfSession
          (updateSubAccount (api "token'" [⟨0, .commit, false⟩]) exchange created).2 =
        some ["a@host", "c@host"] := by
  refine ⟨by decide +kernel, by decide +kernel, by decide +kernel, by decide +kernel⟩

theorem updateSubAccount_atomic_ledgers :
    (updateSubAccount (api "token'" [⟨0, .updateLedgers, false⟩]) exchange created).1.isOk = false ∧
      (updateSubAccount (api "token'" [⟨0, .updateLedgers, false⟩]) exchange created).2.db =
        created.db ∧
      (updateSubAccount (api "token'" [⟨0, .updateLedgers, false⟩]) exchange created).2.sessions =
        created.sessions := by
  have hok : (updateSubAccount (api "token'" [⟨0, .updateLedgers, false⟩])
      exchange created).1.isOk = false := by decide +kernel
  refine ⟨hok, ?_⟩
  rcases hres : updateSubAccount (api "token'" [⟨0, .updateLedgers, false⟩]) exchange created with
    ⟨res, s'⟩
  cases res with
  | ok _ =>
    rw [hres] at hok
    cases hok
  | error e =>
    exact updateSubAccount_atomic (by unfold ThrowsBeforeCommit; decide) (by decide +kernel) e s'
      hres

end AliceWitness

end SubAccounts

end ReportsFramework
