/-
Sub-accounts: what `createSubAccount` and `updateSubAccount` do to the users, the links
from sub-accounts to sub-users, the ledgers and the sessions, with every step that may
throw.
-/
import Mathlib.Data.List.Sort
import ReportsFramework.Attempt
import ReportsFramework.UserSessions

namespace ReportsFramework

namespace SubAccounts

/-- What the API tells of the owner of api keys. -/
structure Account where
  id : Option ℕ
  email : String
  timezone : String
  username : String
  isUserMerchant : Bool
deriving DecidableEq

/-- A row of the users table, a sub-user or the user of a session.  The keys, the
authentication token and the password stand for what is stored encrypted or hashed by
the password. -/
structure User extends Account where
  _id : ℕ
  apiKey : Option String
  apiSecret : Option String
  authToken : Option String
  password : String
  isNotProtected : Bool
  active : Bool
  isDataFromDb : Bool
  isSubAccount : Bool
  isSubUser : Bool
  localUsername : Option String
  isStagingBfxApi : Bool
deriving DecidableEq

structure Session where
  user : User
  subUsers : List User
  token : String
deriving DecidableEq

def Session.tokenKey (session : Session) : String :=
  getTokenKeyByEmailField (some session.user.email) session.user.isSubAccount

/-- A ledger, as far as users and the recalculation of its balance are concerned. -/
structure LedgerRow where
  user_id : ℕ
  subUserId : Option ℕ
  isBalanceRecalced : Bool
deriving DecidableEq

/-- The users by `_id`, the links from `masterUserId` to `subUserId`, the ledgers and
the temporary tables of the ledgers. -/
structure Db where
  users : List User
  nextId : ℕ
  subAccounts : List (ℕ × ℕ)
  ledgers : List LedgerRow
  tempLedgers : List (List LedgerRow)
deriving DecidableEq

structure World where
  db : Db
  sessions : IndexedMap Session.tokenKey String
  isSchedulerEnabled : Bool
  lockedDbRetryInTrxAmount : ℕ

/-- The steps of the two calls, those of a sub-user with the number of those behind it. -/
inductive Point
  | disableScheduler
  | stopSync
  | verifyUser
  | begin
  | generateAuthToken
  | checkAuth
  | updateUser
  | updateSubUsers
  | signUpSubAccount
  | verifySubUser (i : ℕ)
  | signUpSubUser (i : ℕ)
  | insertSubAccount (i : ℕ)
  | removeUsers
  | updateLedgers
  | getTempTableNames
  | updateTempLedgers (i : ℕ)
  | commit
  | enableScheduler
  | startSync
deriving DecidableEq

inductive CallError
  | step (isLockedDbError : Bool)
  | auth
  | api
  | argsParams
  | userWasPreviouslyStored
  | uniqueConstraint
  | subAccountCreating
  | subAccountUpdating
  | userRemoving
  | typeError
deriving DecidableEq

abbrev Call := Attempt World CallError

/-- A statement that changes the database. -/
def writeDb (f : Db → Db) : Call Unit :=
  .write fun s => { s with db := f s.db }

inductive CheckAuthRes
  | user (account : Account)
  | netError
  | error
deriving DecidableEq

/-- A step that throws, in a run of the transaction; those outside of it are of the first. -/
structure Throw where
  attempt : ℕ
  point : Point
  isLockedDbError : Bool
deriving DecidableEq

/-- What a call depends on beside the state: the API by api keys, a new authentication
token from it, the token `uuidv4` generates, and the steps that throw. -/
structure Env where
  secretKey : String
  isStagingBfxApi : Bool
  checkAuthInApi : String → String → CheckAuthRes
  generateAuthToken : Option String
  newToken : String
  throws : List Throw

/-- A step is passed, or throws. -/
def Env.pass (env : Env) (attempt : ℕ) (p : Point) : Call Unit :=
  match env.throws.find? fun t => t.attempt = attempt && t.point = p with
  | some t => .fail (.step t.isLockedDbError)
  | none => pure ()

section Keys

def endsWithSubAccount (s : String) : Bool :=
  "-sub-account".toList.isSuffixOf s.toList

def isSubAccountApiKeys (apiKey apiSecret : Option String) : Bool :=
  apiKey.any endsWithSubAccount && apiSecret.any endsWithSubAccount

def withoutEnding (s : String) : String :=
  if endsWithSubAccount s then String.ofList (s.toList.take (s.length - 12)) else s

/-- `_checkAuthInApi` of api keys, without the ending of a sub-account's. -/
def Env.checkAuth (env : Env) (apiKey apiSecret : String) : CheckAuthRes :=
  env.checkAuthInApi (withoutEnding apiKey) (withoutEnding apiSecret)

def generateSubUserName (masterUserId : Option ℕ) (username : String)
    (isSubAccount isSubUser : Bool) : String :=
  username ++ (if isSubAccount then "-sub-account" else "") ++
    if isSubUser then "-sub-user-" ++ masterUserId.elim "null" toString else ""

end Keys

namespace Db

/-- The first such row. -/
def getUser (db : Db) (email : String) (username : Option String)
    (isSubAccount isSubUser : Bool) : Option User :=
  db.users.find? fun user => user.email = email && username.all (· = user.username) &&
    user.isSubAccount = isSubAccount && user.isSubUser = isSubUser

/-- The rows linked to a user, once for each link. -/
def subUsersOf (db : Db) (masterUserId : ℕ) : List User :=
  db.users.flatMap fun user => List.replicate (db.subAccounts.count (masterUserId, user._id)) user

/-- `None` if another row has the e-mail and the username. -/
def insertUser (db : Db) (user : User) : Option Db :=
  if ∃ row ∈ db.users, row.email = user.email ∧ row.username = user.username then none
  else some { db with users := db.users ++ [user], nextId := db.nextId + 1 }

def insertSubAccount (db : Db) (masterUserId subUserId : ℕ) : Db :=
  { db with subAccounts := db.subAccounts ++ [(masterUserId, subUserId)] }

/-- The users who are deleted with others: sub-users go with the links from a master. -/
def deletedWith (db : Db) (ids : List ℕ) : List ℕ :=
  (List.range db.subAccounts.length).foldl (fun ids _ =>
    ids ++ (db.subAccounts.filter (·.1 ∈ ids)).map Prod.snd) ids

/-- The rows of the foreign keys are deleted in turn. -/
def removeUsers (db : Db) (ids : List ℕ) : Db :=
  let deleted := db.deletedWith ids
  let keepsLedger := fun row : LedgerRow => row.user_id ∉ deleted && row.subUserId.all (· ∉ deleted)
  { db with
    users := db.users.filter (·._id ∉ deleted)
    subAccounts := db.subAccounts.filter fun link => link.1 ∉ deleted ∧ link.2 ∉ deleted
    ledgers := db.ledgers.filter keepsLedger
    tempLedgers := db.tempLedgers.map (·.filter keepsLedger) }

def resetLedgers (masterUserId : ℕ) (rows : List LedgerRow) : List LedgerRow :=
  rows.map fun row =>
    if row.user_id = masterUserId then { row with isBalanceRecalced := false } else row

end Db

/-- How a sub-user to add is given; an empty string counts as none. -/
structure SubUserAuth where
  apiKey : Option String
  apiSecret : Option String
  email : Option String
  password : Option String
  token : Option String
  authToken : Option String
deriving DecidableEq

/-- The authentication of a sub-user, with the account if it is taken from the database. -/
structure CheckedAuth where
  account : Option Account
  apiKey : Option String
  apiSecret : Option String
deriving DecidableEq

section Verify

/-- By e-mail and password, or else by token; the sub-users of a stored user are taken
where they are asked for. -/
def verifyUser (secretKey : String) (s : World) (email password : Option String)
    (isSubAccount : Bool) (token : Option String) (isFilledSubUsers : Bool) :
    Option (User × List User) :=
  match email with
  | some email =>
      let password := password.getD secretKey
      (s.db.getUser email none isSubAccount false).bind fun user =>
        let subUsers := if isFilledSubUsers then s.db.subUsersOf user._id else []
        if user.password = password ∧ ∀ subUser ∈ subUsers, subUser.password = password then
          some (user, subUsers)
        else none
  | none =>
      (token.bind s.sessions.val).bind fun session =>
        if session.user.apiKey.isSome ∧ session.user.apiSecret.isSome ∨
            session.user.authToken.isSome then some (session.user, session.subUsers)
        else none

/-- Api keys are taken as they are, else a user is verified. -/
def checkAuth (secretKey : String) (s : World) (auth : SubUserAuth) : Option CheckedAuth :=
  if auth.email.isSome || auth.token.isSome then
    (verifyUser secretKey s auth.email auth.password false auth.token false).map fun verified =>
      ⟨some verified.1.toAccount, verified.1.apiKey, verified.1.apiSecret⟩
  else some ⟨none, auth.apiKey, auth.apiSecret⟩

end Verify

section SignUp

/-- The account, from the API where it is not taken from the database. -/
def Env.accountOf (env : Env) (auth : CheckedAuth) : Option Account :=
  match auth.account with
  | some account => some account
  | none =>
      match env.checkAuth (auth.apiKey.getD "") (auth.apiSecret.getD "") with
      | .user account => some account
      | _ => none

/-- The row of a user who is signed up. -/
def newUser (env : Env) (auth : CheckedAuth) (account : Account) (password : String)
    (isNotProtected isSubAccount isSubUser : Bool) (masterUserId : Option ℕ)
    (localUsername : Option String) (_id : ℕ) : User :=
  { account with
    username := generateSubUserName masterUserId account.username isSubAccount isSubUser
    _id
    apiKey := auth.apiKey
    apiSecret := auth.apiSecret
    authToken := none
    password
    isNotProtected
    active := true
    isDataFromDb := true
    isSubAccount
    isSubUser
    localUsername
    isStagingBfxApi := env.isStagingBfxApi }

/-- `signUp` of a sub-account or a sub-user, whose keys are not verified if the account
is from the database. -/
def signUp (env : Env) (auth : CheckedAuth) (userPwd : String)
    (isNotProtected isSubAccount isSubUser : Bool) (masterUserId : Option ℕ)
    (localUsername : Option String) : Call User := do
  let password := if isNotProtected then env.secretKey else userPwd
  .failIf (auth.apiKey.isNone || auth.apiSecret.isNone || password = "") .auth
  .failIf (auth.account.isNone && isSubAccountApiKeys auth.apiKey auth.apiSecret) .auth
  .failIf (localUsername.isSome && !isSubAccount || localUsername = some "") .argsParams
  let account ← .orFail .api (env.accountOf auth)
  .failIf (account.email = "") .auth
  let s ← .read
  .failIf (auth.account.isNone && (s.db.getUser account.email
    (some (generateSubUserName masterUserId account.username isSubAccount isSubUser))
    isSubAccount isSubUser).isSome) .userWasPreviouslyStored
  let user := newUser env auth account password isNotProtected isSubAccount isSubUser masterUserId
    localUsername s.db.nextId
  let db ← .orFail .uniqueConstraint (s.db.insertUser user)
  writeDb fun _ => db
  pure user

/-- A sub-user is signed up and linked to the sub-account. -/
def addSubUser (env : Env) (attempt i : ℕ) (auth : CheckedAuth) (password : String)
    (isNotProtected : Bool) (masterUserId : Option ℕ) (subAccountId : ℕ) : Call User := do
  env.pass attempt (.signUpSubUser i)
  let subUser ← signUp env auth password isNotProtected false true masterUserId none
  env.pass attempt (.insertSubAccount i)
  writeDb fun db => db.insertSubAccount subAccountId subUser._id
  pure subUser

end SignUp

section Transaction

/-- The locked database is tried again up to three times, counted over all calls. -/
def proccesTrans {α : Type} (env : Env) (body : ℕ → Call α) : ℕ → ℕ → Call α
  | 0, attempt => once attempt
  | left + 1, attempt =>
      .orRetry (fun e _ => e = .step true) (do
        .write fun s => { s with lockedDbRetryInTrxAmount := s.lockedDbRetryInTrxAmount + 1 }
        let res ← proccesTrans env body left (attempt + 1)
        .write fun s => { s with lockedDbRetryInTrxAmount := 0 }
        pure res) (once attempt)
where
  /-- The changes of the database are rolled back on an error. -/
  once (attempt : ℕ) : Call α :=
    .orRestore (fun s s' => { s' with db := s.db }) do
      env.pass attempt .begin
      let res ← body attempt
      env.pass attempt .commit
      pure res

def executeQueriesInTrans {α : Type} (env : Env) (body : ℕ → Call α) : Call α := do
  let s ← .read
  proccesTrans env body (3 - s.lockedDbRetryInTrxAmount) 0

def setUserSession (session : Session) : Call Unit :=
  .write fun s => { s with sessions := s.sessions.set session.token session }

end Transaction

section Create

structure CreateArgs where
  email : Option String
  password : Option String
  token : Option String
  subAccountPassword : Option String
  subAccountApiKeys : List SubUserAuth
  localUsername : Option String
deriving DecidableEq

/-- The password of the sub-account, and that it is not protected. -/
def CreateArgs.passwordOf (args : CreateArgs) (masterUser : User) : String × Bool :=
  (args.subAccountPassword.getD masterUser.password,
    args.subAccountPassword.isNone && masterUser.isNotProtected)

/-- The master user, with whom the list of sub-users ends. -/
def masterAuth (masterUser : User) (password : String) : SubUserAuth :=
  { apiKey := masterUser.apiKey, apiSecret := masterUser.apiSecret, email := some masterUser.email,
    password := some password, token := none, authToken := none }

def hasKeysOf (auth : CheckedAuth) (user : User) : Bool :=
  auth.apiKey = user.apiKey && auth.apiSecret = user.apiSecret

def createSubUsers (env : Env) (attempt : ℕ) (masterUser : User) (password : String)
    (isNotProtected : Bool) (subAccountId : ℕ) (subUsers : List User)
    (isSubUserFromMasterCreated : Bool) : List SubUserAuth → Call (List User)
  | [] => pure subUsers
  | subUserAuth :: rest => do
      let i := rest.length
      env.pass attempt (.verifySubUser i)
      let s ← .read
      let auth ← .orFail .auth (checkAuth env.secretKey s subUserAuth)
      .failIf (rest.isEmpty && isSubUserFromMasterCreated && hasKeysOf auth masterUser &&
        subUsers.length = 1) .subAccountCreating
      if subUsers.any (hasKeysOf auth) then
        createSubUsers env attempt masterUser password isNotProtected subAccountId subUsers
          isSubUserFromMasterCreated rest
      else do
        let subUser ←
          addSubUser env attempt i auth password isNotProtected masterUser.id subAccountId
        createSubUsers env attempt masterUser password isNotProtected subAccountId
          (subUsers ++ [subUser])
          (isSubUserFromMasterCreated || hasKeysOf auth masterUser) rest

def createSubAccount (env : Env) (args : CreateArgs) : Call Unit := do
  env.pass 0 .verifyUser
  let s ← .read
  let (masterUser, _) ← .orFail .auth
    (verifyUser env.secretKey s args.email args.password false args.token false)
  let (password, isNotProtected) := args.passwordOf masterUser
  .failIf (isSubAccountApiKeys masterUser.apiKey masterUser.apiSecret ||
    args.subAccountApiKeys.isEmpty || args.subAccountApiKeys.any fun auth =>
      isSubAccountApiKeys auth.apiKey auth.apiSecret || auth.authToken.isSome) .subAccountCreating
  executeQueriesInTrans env fun attempt => do
    env.pass attempt .signUpSubAccount
    let subAccountUser ← signUp env
      ⟨some masterUser.toAccount, masterUser.apiKey.map (· ++ "-sub-account"),
        masterUser.apiSecret.map (· ++ "-sub-account")⟩
      password isNotProtected true false none args.localUsername
    let subUsers ← createSubUsers env attempt masterUser password isNotProtected
      subAccountUser._id [] false
      (args.subAccountApiKeys ++ [masterAuth masterUser masterUser.password])
    setUserSession ⟨subAccountUser, subUsers, env.newToken⟩

end Create

section Update

structure UpdateArgs where
  email : Option String
  password : Option String
  token : Option String
  addingSubUsers : List SubUserAuth
  removingSubUsersByEmails : List (Option String)
deriving DecidableEq

/-- The token of the session the e-mail leads to. -/
def getUserSessionByEmail (s : World) (email : Option String) : Option String :=
  (s.sessions.index (getTokenKeyByEmailField email true)).filter fun token =>
    (s.sessions.val token).isSome

/-- A row with the data of the API. -/
def User.refreshedBy (row user : User) : User :=
  { row with
    toAccount := user.toAccount
    active := user.active
    isDataFromDb := user.isDataFromDb
    isStagingBfxApi := user.isStagingBfxApi
    authToken := if user.authToken.isSome then user.authToken else row.authToken }

/-- The row of the id and the e-mail is refreshed; `none` if another row has the new
e-mail and username. -/
def Db.updateUser (db : Db) (_id : ℕ) (email : String) (user : User) : Option Db :=
  if (∃ row ∈ db.users, row._id = _id ∧ row.email = email) ∧
      ∃ row ∈ db.users, row._id ≠ _id ∧ row.email = user.email ∧ row.username = user.username then
    none
  else some { db with users := db.users.map fun row =>
    if row._id = _id ∧ row.email = email then row.refreshedBy user else row }

/-- The flag of the API, in the rows of the sub-users too. -/
def Db.updateSubUsers (db : Db) (ids : List ℕ) (isStagingBfxApi : Bool) : Db :=
  { db with users := db.users.map fun row =>
    if row._id ∈ ids then { row with isStagingBfxApi } else row }

/-- What `signIn` writes: the data of the API, or what is known without a connection. -/
def freshUserData (env : Env) (user : User) (newAuthToken : Option String) :
    CheckAuthRes → Option User
  | .user account => some
      { user with
        toAccount := { account with
          username := generateSubUserName none account.username user.isSubAccount false }
        active := true
        isDataFromDb := true
        isStagingBfxApi := env.isStagingBfxApi
        authToken := if newAuthToken.isSome then newAuthToken else user.authToken }
  | .netError => some
      { user with
        username := generateSubUserName none user.username user.isSubAccount false
        active := true
        isDataFromDb := true
        authToken := if newAuthToken.isSome then newAuthToken else user.authToken }
  | .error => none

/-- `signIn` of the sub-account without setting its session, within the transaction. -/
def signIn (env : Env) (attempt : ℕ) (email password token : Option String) : Call Session := do
  env.pass attempt .verifyUser
  let s ← .read
  let (user, subUsers) ← .orFail .auth (verifyUser env.secretKey s email password true token true)
  env.pass attempt .generateAuthToken
  .failIf (user.authToken.isSome && env.generateAuthToken.isNone) .api
  let newAuthToken := if user.authToken.isSome then env.generateAuthToken else none
  env.pass attempt .checkAuth
  let refreshedUser ← .orFail .api (freshUserData env user newAuthToken
    (env.checkAuth (user.apiKey.getD "") (user.apiSecret.getD "")))
  env.pass attempt .updateUser
  let db ← .orFail .uniqueConstraint (s.db.updateUser user._id user.email refreshedUser)
  writeDb fun _ => db
  env.pass attempt .updateSubUsers
  writeDb fun db => db.updateSubUsers (subUsers.map User._id) refreshedUser.isStagingBfxApi
  .failIf (¬ ∃ row ∈ s.db.users, row._id = user._id ∧ row.email = user.email) .auth
  let existedToken := token.orElse fun _ => getUserSessionByEmail s email
  let createdToken := existedToken.getD env.newToken
  if newAuthToken.isSome then do
    -- the session is changed at once, and looked up for the old token
    .failIf (s.sessions.val createdToken).isNone .typeError
    .write fun s => { s with
      sessions.val := Function.update s.sessions.val createdToken
        ((s.sessions.val createdToken).map fun session =>
          { session with user.authToken := newAuthToken }) }
    pure ⟨refreshedUser, subUsers, createdToken⟩
  else pure ⟨refreshedUser, subUsers, createdToken⟩

/-- Sub-users whose keys are known already are passed by; the result is those added. -/
def addSubUsers (env : Env) (attempt : ℕ) (session : Session) (masterUser : User)
    (processedSubUsers addedSubUsers : List User) : List SubUserAuth → Call (List User)
  | [] => pure addedSubUsers
  | subUserAuth :: rest => do
      let i := rest.length
      env.pass attempt (.verifySubUser i)
      let s ← .read
      let auth ← .orFail .auth (checkAuth env.secretKey s subUserAuth)
      match session.subUsers.find? (hasKeysOf auth) with
      | some existedSubUser =>
          addSubUsers env attempt session masterUser (processedSubUsers ++ [existedSubUser])
            addedSubUsers rest
      | none =>
          if hasKeysOf auth masterUser || processedSubUsers.any (hasKeysOf auth) then
            addSubUsers env attempt session masterUser processedSubUsers addedSubUsers rest
          else do
            let subUser ← addSubUser env attempt i auth session.user.password
              session.user.isNotProtected masterUser.id session.user._id
            addSubUsers env attempt session masterUser (processedSubUsers ++ [subUser])
              (addedSubUsers ++ [subUser]) rest

def removeSubUsers (env : Env) (attempt : ℕ) (ids : List ℕ) : Call Unit := do
  env.pass attempt .removeUsers
  let s ← .read
  writeDb fun db => db.removeUsers ids
  .failIf (¬ ∃ row ∈ s.db.users, row._id ∈ ids) .userRemoving

/-- The temporary tables one after the other, as many as there are. -/
def resetTempLedgers (env : Env) (attempt masterUserId : ℕ) : ℕ → Call Unit
  | 0 => pure ()
  | n + 1 => do
      resetTempLedgers env attempt masterUserId n
      env.pass attempt (.updateTempLedgers n)
      writeDb fun db => { db with
        tempLedgers := db.tempLedgers.modify n (Db.resetLedgers masterUserId) }

def resetLedgers (env : Env) (attempt masterUserId : ℕ) : Call Unit := do
  env.pass attempt .updateLedgers
  writeDb fun db => { db with ledgers := Db.resetLedgers masterUserId db.ledgers }
  env.pass attempt .getTempTableNames
  let s ← .read
  resetTempLedgers env attempt masterUserId s.db.tempLedgers.length

/-- What the arguments may not be. -/
def UpdateArgs.areInvalid (args : UpdateArgs) (user : User) : Bool :=
  user.authToken.isSome || !isSubAccountApiKeys user.apiKey user.apiSecret ||
    args.addingSubUsers.isEmpty && args.removingSubUsersByEmails.isEmpty ||
    (args.addingSubUsers.any fun auth =>
      isSubAccountApiKeys auth.apiKey auth.apiSecret || auth.authToken.isSome) ||
    args.removingSubUsersByEmails.any Option.isNone

/-- All of the transaction but for the session. -/
def refreshSubAccount (env : Env) (args : UpdateArgs) (attempt : ℕ) : Call Session := do
  let session ← signIn env attempt args.email args.password args.token
  .failIf (args.areInvalid session.user) .subAccountUpdating
  let masterUser ← .orFail .typeError
    (session.subUsers.find? fun subUser => subUser.email = session.user.email)
  let addedSubUsers ← addSubUsers env attempt session masterUser [] []
    (args.addingSubUsers ++ [masterAuth masterUser session.user.password])
  let removingSubUsers := session.subUsers.filter fun subUser =>
    some subUser.email ∈ args.removingSubUsersByEmails
  .skipIf removingSubUsers.isEmpty (removeSubUsers env attempt (removingSubUsers.map User._id))
  .skipIf (addedSubUsers.isEmpty && removingSubUsers.isEmpty)
    (resetLedgers env attempt session.user._id)
  let refreshedSubUsers :=
    ((session.subUsers ++ addedSubUsers).insertionSort fun u u' => u._id ≤ u'._id).filter
      fun subUser => subUser._id ∉ removingSubUsers.map User._id
  pure { session with subUsers := refreshedSubUsers }

def updateSubAccount (env : Env) (args : UpdateArgs) : Call Unit := do
  env.pass 0 .disableScheduler
  .write fun s => { s with isSchedulerEnabled := false }
  env.pass 0 .stopSync
  executeQueriesInTrans env fun attempt => do
    let session ← refreshSubAccount env args attempt
    setUserSession session
  env.pass 0 .enableScheduler
  .write fun s => { s with isSchedulerEnabled := true }
  env.pass 0 .startSync

end Update

end SubAccounts

end ReportsFramework
