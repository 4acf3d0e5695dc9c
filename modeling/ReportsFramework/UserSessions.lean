/-
User sessions: the map from tokens to sessions and the map from e-mail keys to
tokens, as the calls of the authenticator write them, one call after the other.
-/
import Mathlib.Data.Nat.Notation
import Mathlib.Order.Basic
import ReportsFramework.InverseIndex
import ReportsFramework.Machine

namespace ReportsFramework

/-- A stored user, but for sub-users, who have no sessions. -/
structure UserRow where
  id : ℕ
  email : String
  username : String
  isSubAccount : Bool
deriving DecidableEq

/-- What a session holds of its user. -/
abbrev Session := UserRow

/-- `_getTokenKeyByEmailField` of a user, a session or the arguments of a call. -/
def getTokenKeyByEmailField (email : Option String) (isSubAccount : Bool) : String :=
  email.getD "undefined" ++ if isSubAccount then ":sub-account" else ""

def Session.tokenKey (session : Session) : String :=
  getTokenKeyByEmailField (some session.email) session.isSubAccount

/-- `args.auth`; an empty string counts as none. -/
structure AuthArgs where
  email : Option String
  isSubAccount : Bool
  token : Option String
deriving DecidableEq

/-- What `_checkAuthInApi` comes to. -/
inductive CheckAuthRes
  | user (email username : String)
  | netError
  | error
deriving DecidableEq

/-- The session of the token, or of the key without one.  Where there is no session the
key is that of an empty object. -/
def removeSession {σ : Type*} {tokenKey : σ → String} (sessions : IndexedMap tokenKey String)
    (args : AuthArgs) : IndexedMap tokenKey String :=
  let token := args.token.orElse fun _ =>
    sessions.index (getTokenKeyByEmailField args.email args.isSubAccount)
  match token with
  | some token =>
      let key := ((sessions.val token).map tokenKey).getD (getTokenKeyByEmailField none false)
      sessions.erase token key
  | none =>
      ⟨sessions.val, Function.update sessions.index (getTokenKeyByEmailField none false) none⟩

structure UserSessions where
  users : List UserRow
  nextId : ℕ
  sessions : IndexedMap Session.tokenKey String

/-- The calls, with what the password check and the API say, and the token `uuidv4`
would generate.  `failsAfterUpdate` is an error behind the update of the users table. -/
inductive AuthCall
  | signUp (api : CheckAuthRes) (newToken : String)
  | signIn (args : AuthArgs) (isPasswordVerified : Bool) (api : CheckAuthRes)
      (newToken : String) (failsAfterUpdate : Bool)
  | recoverPassword (isSubAccount : Bool) (api : CheckAuthRes) (newToken : String)
  | signOut (args : AuthArgs) (isPasswordVerified : Bool)
  | removeUser (args : AuthArgs) (isPasswordVerified : Bool)
deriving DecidableEq

/-- `generateSubUserName` of a user who is no sub-user. -/
def generateSubUserName (username : String) (isSubAccount : Bool) : String :=
  username ++ if isSubAccount then "-sub-account" else ""

namespace UserSessions

/-- The first stored user by id. -/
def getUser (s : UserSessions) (email : String) (isSubAccount : Bool) : Option UserRow :=
  s.users.find? fun user => user.email = email && user.isSubAccount = isSubAccount

/-- By e-mail and password, or else by token. -/
def verifyUser (s : UserSessions) (args : AuthArgs) (isPasswordVerified : Bool) :
    Option Session :=
  match args.email with
  | some email => if isPasswordVerified then s.getUser email args.isSubAccount else none
  | none => args.token.bind s.sessions.val

/-- The token of the session the e-mail leads to. -/
def getUserSessionByEmail (s : UserSessions) (email : Option String) (isSubAccount : Bool) :
    Option String :=
  (s.sessions.index (getTokenKeyByEmailField email isSubAccount)).filter fun token =>
    (s.sessions.val token).isSome

/-- `None` if there is no such row, or another has the e-mail and the username. -/
def updateUser (s : UserSessions) (id : ℕ) (oldEmail email username : String) :
    Option UserSessions :=
  if (∃ user ∈ s.users, user.id = id ∧ user.email = oldEmail) ∧
      ∀ user ∈ s.users, user.id ≠ id → ¬ (user.email = email ∧ user.username = username) then
    some { s with users := s.users.map fun user =>
      if user.id = id ∧ user.email = oldEmail then { user with email, username } else user }
  else none

def setUserSession (s : UserSessions) (token : String) (session : Session) : UserSessions :=
  { s with sessions := s.sessions.set token session }

def removeUserSession (s : UserSessions) (args : AuthArgs) : UserSessions :=
  { s with sessions := removeSession s.sessions args }

def signUp (s : UserSessions) (api : CheckAuthRes) (newToken : String) : UserSessions :=
  match api with
  | .user email username =>
      if ∃ user ∈ s.users, user.email = email ∧ user.username = username then s
      else
        let user : UserRow := ⟨s.nextId, email, username, false⟩
        { s with users := s.users ++ [user], nextId := s.nextId + 1 }.setUserSession newToken user
  | _ => s

def signIn (s : UserSessions) (args : AuthArgs) (isPasswordVerified : Bool)
    (api : CheckAuthRes) (newToken : String) (failsAfterUpdate : Bool) : UserSessions :=
  match s.verifyUser args isPasswordVerified with
  | none => s
  | some user =>
      let userData := match api with
        | .user email username => some (email, username)
        -- without a connection the stored data is taken
        | .netError => some (user.email, user.username)
        | .error => none
      match userData with
      | none => s
      | some (email, uName) =>
          let username := generateSubUserName uName user.isSubAccount
          match s.updateUser user.id user.email email username with
          | none => s
          | some updated =>
              if failsAfterUpdate then updated
              else
                let existedToken := args.token.orElse fun _ =>
                  s.getUserSessionByEmail args.email args.isSubAccount
                updated.setUserSession (existedToken.getD newToken)
                  { user with email, username }

def recoverPassword (s : UserSessions) (isSubAccount : Bool) (api : CheckAuthRes)
    (newToken : String) : UserSessions :=
  match api with
  | .user email uName =>
      match s.getUser email isSubAccount with
      | none => s
      | some user =>
          let username := generateSubUserName uName isSubAccount
          match s.updateUser user.id email email username with
          | none => s
          | some updated =>
              updated.setUserSession
                ((s.getUserSessionByEmail (some email) isSubAccount).getD newToken)
                { user with username }
  | _ => s

def signOut (s : UserSessions) (args : AuthArgs) (isPasswordVerified : Bool) : UserSessions :=
  match s.verifyUser args isPasswordVerified with
  | none => s
  | some user =>
      if ∃ row ∈ s.users, row.id = user.id ∧ row.email = user.email then
        s.removeUserSession args
      else s

def removeUser (s : UserSessions) (args : AuthArgs) (isPasswordVerified : Bool) :
    UserSessions :=
  match s.verifyUser args isPasswordVerified with
  | none => s
  | some user =>
      if ∃ row ∈ s.users, row.id = user.id ∧ row.email = user.email then
        { s with users := s.users.filter fun row => ¬ (row.id = user.id ∧
            row.email = user.email) }.removeUserSession args
      else s

/-- A generated token is in no use. -/
def step (s : UserSessions) : AuthCall → Option UserSessions
  | .signUp api newToken =>
      if s.sessions.val newToken = none then some (s.signUp api newToken) else none
  | .signIn args isPasswordVerified api newToken failsAfterUpdate =>
      if s.sessions.val newToken = none then
        some (s.signIn args isPasswordVerified api newToken failsAfterUpdate)
      else none
  | .recoverPassword isSubAccount api newToken =>
      if s.sessions.val newToken = none then some (s.recoverPassword isSubAccount api newToken)
      else none
  | .signOut args isPasswordVerified => some (s.signOut args isPasswordVerified)
  | .removeUser args isPasswordVerified => some (s.removeUser args isPasswordVerified)

/-- No e-mail can be taken for another key. -/
def isEmail (email : String) : Bool :=
  email ≠ "undefined" && !":sub-account".toList.isSuffixOf email.toList

/-- No two stored users share e-mail and sub-account flag. -/
def UniqueUsers (users : List UserRow) : Prop :=
  users.Pairwise fun user user' => user.id ≠ user'.id ∧
    ¬ (user.email = user'.email ∧ user.isSubAccount = user'.isSubAccount)

/-- A process that has just started has no sessions. -/
def machine : Machine UserSessions AuthCall where
  init s := UniqueUsers s.users ∧
    (∀ user ∈ s.users, user.id < s.nextId ∧ isEmail user.email = true) ∧ s.sessions = .empty
  step := step

/-- A token given beside an e-mail is the one the e-mail leads to, if it leads to any. -/
def agreesWithEmail (s : UserSessions) (args : AuthArgs) : Bool :=
  match args.email, args.token with
  | some email, some token =>
      (s.sessions.index (getTokenKeyByEmailField (some email) args.isSubAccount)).all (· = token)
  | _, _ => true

/-- A token given beside an e-mail is the one the e-mail leads to, or neither is in use. -/
def ownsToken (s : UserSessions) (args : AuthArgs) : Bool :=
  s.agreesWithEmail args && match args.email, args.token with
  | some email, some token =>
      (s.sessions.index (getTokenKeyByEmailField (some email) args.isSubAccount)).isSome ||
        (s.sessions.val token).isNone
  | _, _ => true

/-- The user may have this e-mail from now on: it is the stored one, or it is no other
user's and the user has no session yet. -/
def mayHaveEmail (s : UserSessions) (user : UserRow) (email : String) : Bool :=
  email = user.email ||
    isEmail email && (s.sessions.index (Session.tokenKey user)).isNone &&
      ∀ row ∈ s.users, ¬ (row.email = email ∧ row.isSubAccount = user.isSubAccount)

/-- Every call that goes through is about one user: no sign-up with a stored e-mail, no
token of another session beside an e-mail, and no e-mail that has changed at the API
while there is a session. -/
def keepsIdentity (s : UserSessions) : AuthCall → Bool
  | .signUp (.user email username) _ =>
      (∃ user ∈ s.users, user.email = email ∧ user.username = username) ||
        isEmail email && ∀ user ∈ s.users, ¬ (user.email = email ∧ user.isSubAccount = false)
  | .signIn args isPasswordVerified api _ failsAfterUpdate =>
      (s.verifyUser args isPasswordVerified).all fun user =>
        match api with
        | .user email _ => (failsAfterUpdate || s.ownsToken args) && s.mayHaveEmail user email
        | .netError => failsAfterUpdate || s.ownsToken args
        | .error => true
  | .signOut args isPasswordVerified | .removeUser args isPasswordVerified =>
      (s.verifyUser args isPasswordVerified).all fun _ => s.agreesWithEmail args
  | _ => true

end UserSessions

end ReportsFramework
