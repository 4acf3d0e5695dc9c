/-
The WebSocket transport.  Sockets connect, sign in and close at any time, while calls of
`send` walk over the sockets and await their handler for one after the other.  Each action
is what is done between two awaits.
-/
import Mathlib.Data.Int.Notation
import Mathlib.Data.Nat.Notation
import Mathlib.Logic.Function.Basic
import ReportsFramework.Machine

namespace ReportsFramework

/-- A user as the transport knows it. -/
structure WsUser where
  id : ℤ
  email : String
  active : Bool
deriving DecidableEq

/-- Whom the handler of an event is for: everybody, or the user of a given `auth`, whose id
may be missing. -/
inductive WsTarget
  | all
  | toOne (id : Option ℤ)
deriving DecidableEq

namespace WsTarget

/-- `isNotTargetUser` of a wrapped handler. -/
def isNotTargetUser : WsTarget → WsUser → Bool
  | all, _ => false
  | toOne none, _ => true
  | toOne (some id), user => user.id ≠ id

end WsTarget

/-- Where a `send` stands: behind the last socket it has looked at, or awaiting the handler
for a socket. -/
inductive SendPhase
  | looping (last : Option ℕ)
  | handling (sid : ℕ) (user : WsUser)
  | done
deriving DecidableEq

structure WsSend where
  target : WsTarget
  freshUsersDate : List WsUser
  phase : SendPhase
deriving DecidableEq

/-- What was sent: by which call, to which socket, and the user it was made for. -/
structure WsMessage where
  call : ℕ
  sid : ℕ
  user : WsUser
deriving DecidableEq

/-- `sockets` are in the order of their connection, which is that of their ids; `signedIn`
are the users that the sockets have signed in as so far. -/
structure WsSys where
  active : Bool
  sockets : List ℕ
  nextSid : ℕ
  auth : List (ℕ × WsUser)
  sessions : List WsUser
  sends : ℕ → WsSend
  nextSend : ℕ
  signedIn : List (ℕ × WsUser)
  sent : List WsMessage

inductive WsAction
  | connect
  | close (sid : ℕ)
  | signIn (sid : ℕ) (user : WsUser)
  | setSessions (sessions : List WsUser)
  | closeServer
  | send (target : WsTarget)
  | next (c : ℕ)
  | handle (c : ℕ) (isNotEmitted : Bool)
deriving DecidableEq

namespace WsSys

/-- `Map.get` of `_auth`. -/
def getAuth (s : WsSys) (sid : ℕ) : Option WsUser := s.auth.lookup sid

/-- `Map.set` of `_auth`. -/
def setAuth (auth : List (ℕ × WsUser)) (sid : ℕ) (user : WsUser) : List (ℕ × WsUser) :=
  if (auth.lookup sid).isSome then
    auth.map fun entry => if entry.1 = sid then (sid, user) else entry
  else auth ++ [(sid, user)]

/-- `_getFreshUsersDataFromSessions`: a session for every socket of its user. -/
def getFreshUsersDataFromSessions (s : WsSys) : List WsUser :=
  s.sessions.flatMap fun session =>
    (s.auth.filter fun entry => entry.2.id = session.id).map fun _ => session

/-- `_findUser`: the fresh data of a user, or the user as it was. -/
def findUser (auth : WsUser) (freshUsersDate : List WsUser) : WsUser :=
  (freshUsersDate.find? fun user => auth.id = user.id && auth.email = user.email).getD auth

/-- The next socket of a walk over the map of sockets. -/
def nextSocket (s : WsSys) (last : Option ℕ) : Option ℕ :=
  s.sockets.find? fun sid => last.all (· < sid)

def goTo (s : WsSys) (c : ℕ) (phase : SendPhase) : WsSys :=
  { s with sends := Function.update s.sends c { s.sends c with phase } }

def phase (s : WsSys) (c : ℕ) : SendPhase := (s.sends c).phase

/-- The next socket of `send`: it is passed by if it has not signed in, if its user is not
active, or if the handler turns out not to be for its user. -/
def look (s : WsSys) (c sid : ℕ) : SendPhase :=
  match s.getAuth sid with
  | none => .looping (some sid)
  | some auth =>
      let user := findUser auth (s.sends c).freshUsersDate
      if !user.active || (s.sends c).target.isNotTargetUser user then .looping (some sid)
      else .handling sid user

def step (s : WsSys) : WsAction → Option WsSys
  | .connect =>
      some { s with active := true, sockets := s.sockets ++ [s.nextSid], nextSid := s.nextSid + 1 }
  | .close sid =>
      some { s with
        auth := s.auth.filter (·.1 ≠ sid)
        sockets := s.sockets.filter (· ≠ sid) }
  | .signIn sid user =>
      -- the socket may have been closed while the authenticator was awaited
      if sid < s.nextSid then
        some { s with
          auth := setAuth s.auth sid user
          signedIn := s.signedIn ++ [(sid, user)] }
      else none
  | .setSessions sessions => some { s with sessions }
  | .closeServer => some { s with active := false }
  | .send target =>
      if !s.active || s.auth.isEmpty then some s
      else some { s with
        sends := Function.update s.sends s.nextSend
          ⟨target, s.getFreshUsersDataFromSessions, .looping none⟩
        nextSend := s.nextSend + 1 }
  | .next c =>
      match s.phase c with
      | .looping last =>
          match s.nextSocket last with
          | some sid => some (s.goTo c (s.look c sid))
          | none => some (s.goTo c .done)
      | _ => none
  | .handle c isNotEmitted =>
      match s.phase c with
      | .handling sid user =>
          some { s.goTo c (.looping (some sid)) with
            sent := if isNotEmitted then s.sent else s.sent ++ [⟨c, sid, user⟩] }
      | _ => none

/-- A server that has just started. -/
def machine : Machine WsSys WsAction where
  init s := s.sockets = [] ∧ s.auth = [] ∧ s.signedIn = [] ∧ s.sent = [] ∧
    ∀ c, s.phase c = .done
  step := step

end WsSys

end ReportsFramework
