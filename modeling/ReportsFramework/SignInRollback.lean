/-
Sign-in and the refresh of the auth token.  Both write the users table with
`doNotQueueQuery` without being part of a transaction, so their update joins
whatever transaction another caller has open, and goes when that is rolled back.
-/
import Mathlib.Data.List.Infix
import ReportsFramework.TransactionExclusion

namespace ReportsFramework

/-- An update of the row of `user`.  Every token is new, so it is named by who
generated it: after an update that sets it, the row holds the token of
`writer`. -/
structure UserUpdate where
  writer : ℕ
  user : ℕ
  setsAuthToken : Bool
deriving DecidableEq, Repr

/-- The users table as the updates in effect, oldest first, and those a rollback
would go back to. -/
structure UsersTable where
  updates : List UserUpdate
  saved : List UserUpdate

namespace UsersTable

/-- Whose token the row of `user` holds. -/
def authTokenOf (updates : List UserUpdate) (user : ℕ) : Option ℕ :=
  ((updates.filter fun x => x.user = user ∧ x.setsAuthToken).getLast?).map
    (·.writer)

/-- What an event of the connection does; `touched` lists the rows its statement
updates, and whether it sets their token. -/
def apply (touched : List (ℕ × Bool)) (users : UsersTable) :
    DbEvent → UsersTable
  | .statement c =>
      ⟨users.updates ++ touched.map fun row => ⟨c, row.1, row.2⟩, users.saved⟩
  | .begin _ => ⟨users.updates, users.updates⟩
  | .commit _ => users
  | .rollback _ | .forcedRollback _ => ⟨users.saved, users.saved⟩

/-- The table after the connection has gone on from `db` to `db'`. -/
def follow (users : UsersTable) (db db' : Connection)
    (touched : List (ℕ × Bool)) : UsersTable :=
  (db'.log.drop db.log.length).foldl (apply touched) users

end UsersTable

/-- A running `signIn`, or a tick of the refresh timer, at the `await` it is at.
`updated` holds the sub-users still to update and the `changes` of the first
update. -/
inductive AuthJob
  | idle
  | awaitsToken (user : ℕ) (setsAuthToken : Bool) (subUsers : List ℕ)
  | updated (user : ℕ) (setsAuthToken : Bool) (subUsers : List ℕ) (changes : ℕ)
  | done (user : ℕ) (setsAuthToken : Bool)
  | failed
deriving DecidableEq

/-- `userSessions user` is whose token the session of the user holds. -/
structure Authenticator where
  dao : Dao
  users : UsersTable
  job : ℕ → AuthJob
  userSessions : ℕ → Option ℕ

inductive AuthAction
  | dao (a : DaoAction) (touched : List (ℕ × Bool))
  | signIn (user : ℕ) (setsAuthToken : Bool) (subUsers : List ℕ)
  | refresh (user : ℕ)
  | throw (j : ℕ)
  | update (j : ℕ) (changes : ℕ) (forced : Bool)
  | updateSubUsers (j : ℕ) (forced : Bool)
  | report (j : ℕ)
deriving DecidableEq

namespace Authenticator

def init : Authenticator := ⟨.init, ⟨[], []⟩, fun _ => .idle, fun _ => none⟩

def goTo (s : Authenticator) (j : ℕ) (job : AuthJob) : Authenticator :=
  { s with job := Function.update s.job j job }

/-- A new job; it takes a number, but no promise of it is queued. -/
def start (s : Authenticator) (job : AuthJob) : Authenticator :=
  { s.goTo s.dao.next job with dao := { s.dao with next := s.dao.next + 1 } }

/-- The connection has gone on to `dao`; its new events change the table. -/
def execute (s : Authenticator) (dao : Dao) (touched : List (ℕ × Bool)) :
    Authenticator :=
  { s with
    dao := dao
    users := s.users.follow s.dao.db dao.db touched }

/-- A statement passed with `doNotQueueQuery`. -/
def direct (s : Authenticator) (j : ℕ) (forced : Bool)
    (touched : List (ℕ × Bool)) : Authenticator :=
  s.execute { s.dao with db := s.dao.db.run j forced } touched

def step (s : Authenticator) : AuthAction → Option Authenticator
  | .dao a touched => (s.dao.step a).map fun dao => s.execute dao touched
  | .signIn user setsAuthToken subUsers =>
      some (s.start (.awaitsToken user setsAuthToken subUsers))
  | .refresh user => some (s.start (.awaitsToken user true []))
  | .throw j =>
      match s.job j with
      | .awaitsToken _ _ _ | .updated _ _ _ _ => some (s.goTo j .failed)
      | _ => none
  | .update j changes forced =>
      match s.job j with
      | .awaitsToken user setsAuthToken subUsers =>
          some ((s.direct j forced
              (if changes < 1 then [] else [(user, setsAuthToken)])).goTo j
            (.updated user setsAuthToken subUsers changes))
      | _ => none
  | .updateSubUsers j forced =>
      match s.job j with
      | .updated user setsAuthToken subUsers changes =>
          if subUsers = [] then none
          else some ((s.direct j forced (subUsers.map fun u => (u, false))).goTo j
            (.updated user setsAuthToken [] changes))
      | _ => none
  | .report j =>
      match s.job j with
      | .updated user setsAuthToken [] changes =>
          if changes < 1 then some (s.goTo j .failed)
          else some { s.goTo j (.done user setsAuthToken) with
            userSessions := Function.update s.userSessions user
              (if setsAuthToken then some j else none) }
      | _ => none

/-- The statements of all other callers are queued as they should be. -/
def Queued (s : Authenticator) : AuthAction → Prop
  | .dao a _ => s.dao.Queued a
  | _ => True

instance (s : Authenticator) (a : AuthAction) : Decidable (s.Queued a) := by
  unfold Queued
  split <;> infer_instance

/-- The users table is not written while a transaction is open. -/
def Outside (s : Authenticator) : AuthAction → Prop
  | .update _ _ _ | .updateSubUsers _ _ => s.dao.db.inTransaction = false
  | _ => True

instance (s : Authenticator) (a : AuthAction) : Decidable (s.Outside a) := by
  unfold Outside
  split <;> infer_instance

def machine : Machine Authenticator AuthAction where
  init s := s = init
  step := step

/-- The step rolled a transaction back. -/
def RollsBack (s s' : Authenticator) : Prop :=
  ∃ events c, s'.dao.db.log = s.dao.db.log ++ events ∧
    (.rollback c ∈ events ∨ .forcedRollback c ∈ events)

/-- Every update reported as done is in effect, and no rollback takes away the
token that a session and its row both hold. -/
def RollbackSafe (s : Authenticator) : Prop :=
  (∀ j user setsAuthToken, s.job j = .done user setsAuthToken →
      ⟨j, user, setsAuthToken⟩ ∈ s.users.updates) ∧
    ∀ a s', s.Queued a → s.step a = some s' → RollsBack s s' →
      ∀ user j, s'.userSessions user = some j →
        UsersTable.authTokenOf s.users.updates user = some j →
        UsersTable.authTokenOf s'.users.updates user = some j

end Authenticator

namespace UsersTable

variable {users : UsersTable} {db db' : Connection} {touched : List (ℕ × Bool)}

theorem follow_self : users.follow db db touched = users := by
  simp [follow]

theorem follow_run (c : ℕ) (forced : Bool) :
    users.follow db (db.run c forced) touched =
      if forced ∧ db.inTransaction then ⟨users.saved, users.saved⟩
      else ⟨users.updates ++ touched.map fun row => ⟨c, row.1, row.2⟩,
        users.saved⟩ := by
  cases forced <;> cases ht : db.transaction <;>
    simp [follow, Connection.run, Connection.inTransaction, apply, ht]

theorem follow_begin (c : ℕ) :
    users.follow db (db.begin c) touched = ⟨users.updates, users.updates⟩ := by
  simp [follow, Connection.begin, apply]

theorem follow_commit (c : ℕ) : users.follow db (db.commit c) touched = users := by
  simp [follow, Connection.commit, apply]

theorem follow_rollback (c : ℕ) :
    users.follow db (db.rollback c) touched = ⟨users.saved, users.saved⟩ := by
  simp [follow, Connection.rollback, apply]

/-- The updates that no rollback can take away any more. -/
def durable (users : UsersTable) (db : Connection) : List UserUpdate :=
  if db.inTransaction then users.saved else users.updates

theorem durable_of_open (h : db.inTransaction = true) :
    users.durable db = users.saved :=
  if_pos h

theorem durable_of_closed (h : db.inTransaction = false) :
    users.durable db = users.updates :=
  if_neg (by simp [h])

/-- While a transaction is open, everything since its `BEGIN` was written by
callers that satisfy `p`. -/
def WrittenBy (p : ℕ → Prop) (users : UsersTable) (db : Connection) : Prop :=
  db.inTransaction = true →
    ∃ rest, users.updates = users.saved ++ rest ∧ ∀ x ∈ rest, p x.writer

variable {p : ℕ → Prop}

theorem WrittenBy.mono {q : ℕ → Prop} (h : WrittenBy p users db)
    (hpq : ∀ c, p c → q c) : WrittenBy q users db := by
  intro hopen
  obtain ⟨rest, hrest, hp⟩ := h hopen
  exact ⟨rest, hrest, fun x hx => hpq _ (hp x hx)⟩

theorem WrittenBy.durable_subset (h : WrittenBy p users db) :
    users.durable db ⊆ users.updates := by
  cases hopen : db.inTransaction with
  | false =>
      rw [durable_of_closed hopen]
      exact List.Subset.refl _
  | true =>
      obtain ⟨rest, hrest, -⟩ := h hopen
      rw [durable_of_open hopen, hrest]
      exact List.subset_append_left _ _

theorem writtenBy_run (h : WrittenBy p users db) {c : ℕ} (forced : Bool)
    (hc : db.inTransaction = true → p c) :
    WrittenBy p (users.follow db (db.run c forced) touched) (db.run c forced) := by
  intro hopen
  have hopen' : forced = false ∧ db.inTransaction = true := by
    cases forced <;> simp_all [Connection.inTransaction]
  obtain ⟨rfl, hdb⟩ := hopen'
  obtain ⟨rest, hrest, hp⟩ := h hdb
  rw [follow_run, if_neg (by simp)]
  refine ⟨rest ++ touched.map fun row => ⟨c, row.1, row.2⟩, by simp [hrest], ?_⟩
  intro x hx
  rcases List.mem_append.mp hx with hx | hx
  · exact hp x hx
  · obtain ⟨row, -, rfl⟩ := List.mem_map.mp hx
    exact hc hdb

theorem durable_run (c : ℕ) (forced : Bool) :
    users.durable db ⊆
      (users.follow db (db.run c forced) touched).durable (db.run c forced) := by
  cases forced <;> cases ht : db.transaction <;>
    simp [durable, follow_run, Connection.inTransaction, ht]

variable {s s' : Dao} {a : DaoAction}

/-- A step of the DAO keeps what is durable. -/
theorem durable_step (h : WrittenBy p users s.db) (hqueued : s.Queued a)
    (hstep : s.step a = some s') :
    users.durable s.db ⊆ (users.follow s.db s'.db touched).durable s'.db := by
  rcases Dao.db_of_step hqueued hstep with
    hdb | ⟨c, -, ⟨forced, hdb⟩ | ⟨hopen, hdb⟩ | ⟨hopen, hdb | hdb⟩⟩ <;> rw [hdb]
  · rw [follow_self]
    exact List.Subset.refl _
  · exact durable_run c forced
  · rw [follow_begin, durable_of_closed hopen, durable_of_open rfl]
    exact List.Subset.refl _
  · obtain ⟨rest, hrest, -⟩ := h hopen
    rw [follow_commit, durable_of_open hopen, durable_of_closed rfl, hrest]
    exact List.subset_append_left _ _
  · rw [follow_rollback, durable_of_open hopen, durable_of_closed rfl]
    exact List.Subset.refl _

theorem writtenBy_step (h : WrittenBy p users s.db) (hqueued : s.Queued a)
    (hp : ∀ c, s.MayExecute c → p c) (hstep : s.step a = some s') :
    WrittenBy p (users.follow s.db s'.db touched) s'.db := by
  rcases Dao.db_of_step hqueued hstep with
    hdb | ⟨c, hc, ⟨forced, hdb⟩ | ⟨-, hdb⟩ | ⟨-, hdb | hdb⟩⟩ <;> rw [hdb]
  · rw [follow_self]
    exact h
  · exact writtenBy_run h forced fun _ => hp c hc
  · intro _
    exact ⟨[], by simp [follow_begin], nofun⟩
  · exact fun hopen => absurd hopen nofun
  · exact fun hopen => absurd hopen nofun

/-- A token found behind the writes of others was there before them. -/
theorem authTokenOf_of_append {before rest : List UserUpdate} {user j : ℕ}
    (h : authTokenOf (before ++ rest) user = some j)
    (hrest : ∀ x ∈ rest, x.writer ≠ j) : authTokenOf before user = some j := by
  simp only [authTokenOf, List.filter_append, List.getLast?_append] at h ⊢
  cases hlast : (rest.filter fun x => x.user = user ∧ x.setsAuthToken).getLast? with
  | none =>
      rw [hlast, Option.none_or] at h
      exact h
  | some x =>
      have hx : x ∈ rest := (List.mem_filter.mp (List.mem_of_getLast? hlast)).1
      simp only [hlast, Option.some_or, Option.map_some, Option.some.injEq] at h
      exact absurd h (hrest x hx)

end UsersTable

namespace Authenticator

variable {s s' : Authenticator} {a : AuthAction}

/-- What holds between any two steps if none writes the users table inside a
transaction. -/
structure Inv (s : Authenticator) : Prop where
  called {c} : s.dao.phase c ≠ .uncalled → c < s.dao.next
  /-- No promise of a job is queued. -/
  uncalled {j} : s.job j ≠ .idle → s.dao.phase j = .uncalled ∧ j < s.dao.next
  writtenBy :
    s.users.WrittenBy (fun c => s.dao.phase c ≠ .uncalled) s.dao.db
  updated {j user setsAuthToken subUsers changes} :
    s.job j = .updated user setsAuthToken subUsers changes → 1 ≤ changes →
      ⟨j, user, setsAuthToken⟩ ∈ s.users.durable s.dao.db
  done {j user setsAuthToken} : s.job j = .done user setsAuthToken →
    ⟨j, user, setsAuthToken⟩ ∈ s.users.durable s.dao.db
  session {user j} : s.userSessions user = some j → s.job j = .done user true

theorem inv_init : Inv init := by
  constructor <;> simp [init, UsersTable.WrittenBy, Dao.init, Connection.inTransaction]

/-- What the table keeps, the jobs keep. -/
theorem Inv.execute (hs : Inv s) {dao : Dao} {touched : List (ℕ × Bool)}
    (hcalled : ∀ c, dao.phase c ≠ .uncalled → c < dao.next)
    (huncalled : ∀ j, s.dao.phase j = .uncalled → j < s.dao.next →
      dao.phase j = .uncalled ∧ j < dao.next)
    (hdurable : s.users.durable s.dao.db ⊆
      (s.users.follow s.dao.db dao.db touched).durable dao.db)
    (hwritten : (s.users.follow s.dao.db dao.db touched).WrittenBy
      (fun c => dao.phase c ≠ .uncalled) dao.db) :
    Inv (s.execute dao touched) where
  called := hcalled _
  uncalled hj := huncalled _ (hs.uncalled hj).1 (hs.uncalled hj).2
  writtenBy := hwritten
  updated hj hchanges := hdurable (hs.updated hj hchanges)
  done hj := hdurable (hs.done hj)
  session hj := hs.session hj

theorem Inv.dao_step (hs : Inv s) {d : DaoAction} (hqueued : s.dao.Queued d)
    {dao : Dao} (h : s.dao.step d = some dao) (touched : List (ℕ × Bool)) :
    Inv (s.execute dao touched) := by
  apply hs.execute
  · exact fun _ => Dao.lt_next_step h fun _ => hs.called
  · exact fun _ => Dao.uncalled_step h
  · exact UsersTable.durable_step hs.writtenBy hqueued h
  · apply UsersTable.WrittenBy.mono (p := fun c => s.dao.phase c ≠ .uncalled)
    · exact UsersTable.writtenBy_step hs.writtenBy hqueued
        (fun _ => Dao.MayExecute.called) h
    · exact fun _ => Dao.called_step h

theorem Inv.direct (hs : Inv s) (j : ℕ) (forced : Bool)
    (touched : List (ℕ × Bool)) (hopen : s.dao.db.inTransaction = false) :
    Inv (s.direct j forced touched) := by
  apply hs.execute
  · exact fun _ => hs.called
  · exact fun _ hj hlt => ⟨hj, hlt⟩
  · exact UsersTable.durable_run j forced
  · exact UsersTable.writtenBy_run hs.writtenBy forced (by simp [hopen])

/-- The updates of a statement that runs outside of any transaction are durable
at once. -/
theorem mem_durable_direct {j : ℕ} {forced : Bool} {touched : List (ℕ × Bool)}
    (hopen : s.dao.db.inTransaction = false) (row : ℕ × Bool) (hrow : row ∈ touched) :
    ⟨j, row.1, row.2⟩ ∈
      (s.direct j forced touched).users.durable (s.direct j forced touched).dao.db := by
  have hclosed : (s.dao.db.run j forced).inTransaction = false := by
    cases forced <;> simp_all [Connection.inTransaction]
  change _ ∈ (s.users.follow s.dao.db (s.dao.db.run j forced) touched).durable
    (s.dao.db.run j forced)
  rw [UsersTable.durable_of_closed hclosed, UsersTable.follow_run,
    if_neg (by simp [hopen])]
  exact List.mem_append_right _ (List.mem_map.mpr ⟨row, hrow, rfl⟩)

theorem job_goTo_self (s : Authenticator) (j : ℕ) (job : AuthJob) :
    (s.goTo j job).job j = job :=
  Function.update_self ..

theorem job_goTo_of_ne {i j : ℕ} (hne : i ≠ j) (s : Authenticator) (job : AuthJob) :
    (s.goTo j job).job i = s.job i :=
  Function.update_of_ne hne ..

/-- A job that is not done yet moves on. -/
theorem Inv.goTo (hs : Inv s) {j : ℕ} {job : AuthJob}
    (hj : s.dao.phase j = .uncalled ∧ j < s.dao.next)
    (hnotDone : ∀ user setsAuthToken, s.job j ≠ .done user setsAuthToken)
    (hupdated : ∀ user setsAuthToken subUsers changes,
      job = .updated user setsAuthToken subUsers changes → 1 ≤ changes →
        ⟨j, user, setsAuthToken⟩ ∈ s.users.durable s.dao.db)
    (hdone : ∀ user setsAuthToken, job = .done user setsAuthToken →
      ⟨j, user, setsAuthToken⟩ ∈ s.users.durable s.dao.db) :
    Inv (s.goTo j job) where
  called := hs.called
  uncalled {i} hi := by
    rcases eq_or_ne i j with rfl | hne
    · exact hj
    · rw [job_goTo_of_ne hne] at hi
      exact hs.uncalled hi
  writtenBy := hs.writtenBy
  updated {i user setsAuthToken subUsers changes} hi hchanges := by
    rcases eq_or_ne i j with rfl | hne
    · rw [job_goTo_self] at hi
      exact hupdated user setsAuthToken subUsers changes hi hchanges
    · rw [job_goTo_of_ne hne] at hi
      exact hs.updated hi hchanges
  done {i user setsAuthToken} hi := by
    rcases eq_or_ne i j with rfl | hne
    · rw [job_goTo_self] at hi
      exact hdone user setsAuthToken hi
    · rw [job_goTo_of_ne hne] at hi
      exact hs.done hi
  session {user i} hi := by
    have hi' : s.job i = .done user true := hs.session hi
    have hne : i ≠ j := by
      rintro rfl
      exact hnotDone user true hi'
    rw [job_goTo_of_ne hne]
    exact hi'

theorem Inv.start (hs : Inv s) (user : ℕ) (setsAuthToken : Bool)
    (subUsers : List ℕ) :
    Inv (s.start (.awaitsToken user setsAuthToken subUsers)) := by
  have hnumber : Inv { s with dao := { s.dao with next := s.dao.next + 1 } } :=
    ⟨fun hc => Nat.lt_succ_of_lt (hs.called hc),
      fun hj => ⟨(hs.uncalled hj).1, Nat.lt_succ_of_lt (hs.uncalled hj).2⟩,
      hs.writtenBy, hs.updated, hs.done, hs.session⟩
  have hphase : s.dao.phase s.dao.next = .uncalled := by
    by_contra hphase
    exact absurd (hs.called hphase) (lt_irrefl _)
  have hidle : s.job s.dao.next = .idle := by
    by_contra hjob
    exact absurd (hs.uncalled hjob).2 (lt_irrefl _)
  exact hnumber.goTo ⟨hphase, Nat.lt_succ_self _⟩ (by simp [hidle]) nofun nofun

/-- The last update has run; if it has changed the row it is durable. -/
theorem Inv.updatedTo (hs : Inv s) {j user changes : ℕ} {setsAuthToken : Bool}
    {subUsers : List ℕ} (hj : s.job j ≠ .idle)
    (hnotDone : ∀ user setsAuthToken, s.job j ≠ .done user setsAuthToken)
    (hmem : 1 ≤ changes → ⟨j, user, setsAuthToken⟩ ∈ s.users.durable s.dao.db) :
    Inv (s.goTo j (.updated user setsAuthToken subUsers changes)) := by
  apply hs.goTo (hs.uncalled hj) hnotDone
  · intro user' setsAuthToken' subUsers' changes' hjob hchanges
    obtain ⟨rfl, rfl, -, rfl⟩ := AuthJob.updated.inj hjob
    exact hmem hchanges
  · nofun

theorem Inv.report (hs : Inv s) {j user changes : ℕ} {setsAuthToken : Bool}
    (hj : s.job j = .updated user setsAuthToken [] changes) (hchanges : 1 ≤ changes) :
    Inv { s.goTo j (.done user setsAuthToken) with
      userSessions := Function.update s.userSessions user
        (if setsAuthToken then some j else none) } := by
  have hgoTo : Inv (s.goTo j (.done user setsAuthToken)) := by
    apply hs.goTo (hs.uncalled (by simp [hj])) (by simp [hj]) (by simp)
    intro user' setsAuthToken' hjob
    obtain ⟨rfl, rfl⟩ := AuthJob.done.inj hjob
    exact hs.updated hj hchanges
  refine ⟨hgoTo.called, hgoTo.uncalled, hgoTo.writtenBy, hgoTo.updated, hgoTo.done, ?_⟩
  intro user' i hi
  rcases eq_or_ne user' user with rfl | hne
  · have hi' : (if setsAuthToken then some j else none) = some i := by
      simpa using hi
    split_ifs at hi' with hsets
    obtain rfl := Option.some.inj hi'
    subst hsets
    exact job_goTo_self ..
  · exact hgoTo.session ((Function.update_of_ne hne _ _).symm.trans hi)

theorem Inv.step (hs : Inv s) (houtside : s.Outside a) (hqueued : s.Queued a)
    (h : s.step a = some s') : Inv s' := by
  cases a with
  | dao d touched =>
      obtain ⟨dao, hdao, rfl⟩ := Option.map_eq_some_iff.mp h
      exact hs.dao_step hqueued hdao touched
  | signIn user setsAuthToken subUsers =>
      obtain rfl := Option.some.inj h
      exact hs.start user setsAuthToken subUsers
  | refresh user =>
      obtain rfl := Option.some.inj h
      exact hs.start user true []
  | throw j =>
      simp only [Authenticator.step] at h
      split at h
      next hj =>
        obtain rfl := Option.some.inj h
        exact hs.goTo (hs.uncalled (by simp [hj])) (by simp [hj]) nofun nofun
      next hj =>
        obtain rfl := Option.some.inj h
        exact hs.goTo (hs.uncalled (by simp [hj])) (by simp [hj]) nofun nofun
      next => exact absurd h nofun
  | update j changes forced =>
      simp only [Authenticator.step] at h
      split at h
      next user setsAuthToken subUsers hj =>
        obtain rfl := Option.some.inj h
        have hdirect := hs.direct j forced
          (if changes < 1 then [] else [(user, setsAuthToken)]) houtside
        apply hdirect.updatedTo (hj ▸ nofun) fun _ _ => hj ▸ nofun
        intro hchanges
        exact mem_durable_direct houtside (user, setsAuthToken) (by simp; omega)
      next => exact absurd h nofun
  | updateSubUsers j forced =>
      simp only [Authenticator.step] at h
      split at h
      next user setsAuthToken subUsers changes hj =>
        split_ifs at h
        obtain rfl := Option.some.inj h
        have hdirect := hs.direct j forced (subUsers.map fun u => (u, false)) houtside
        exact hdirect.updatedTo (hj ▸ nofun) (fun _ _ => hj ▸ nofun)
          (hdirect.updated hj)
      next => exact absurd h nofun
  | report j =>
      simp only [Authenticator.step] at h
      split at h
      next user setsAuthToken changes hj =>
        by_cases hchanges : changes < 1
        · rw [if_pos hchanges] at h
          obtain rfl := Option.some.inj h
          exact hs.goTo (hs.uncalled (by simp [hj])) (by simp [hj]) nofun nofun
        · rw [if_neg hchanges] at h
          obtain rfl := Option.some.inj h
          exact hs.report hj (by omega)
      next => exact absurd h nofun

theorem inv_of_reachable (hs : machine.Reachable (fun s a => s.Queued a ∧ s.Outside a) s) :
    Inv s := by
  apply hs.invariant (I := Inv)
  · rintro _ rfl
    exact inv_init
  · rintro s a s' hinv ⟨hqueued, houtside⟩ h
    exact hinv.step houtside hqueued h

/-- What a statement has to do to roll back: make SQLite give up the open
transaction. -/
theorem forced_of_mem_run {db : Connection} {c c' : ℕ} {forced : Bool}
    {events : List DbEvent} (h : (db.run c forced).log = db.log ++ events)
    (hroll : .rollback c' ∈ events ∨ .forcedRollback c' ∈ events) :
    forced = true ∧ db.inTransaction = true := by
  cases forced <;> cases ht : db.transaction <;>
    simp only [Connection.run, ht, List.append_cancel_left_eq] at h <;>
    subst h <;> simp_all [Connection.inTransaction]

theorem direct_rollsBack {j : ℕ} {forced : Bool} {touched : List (ℕ × Bool)}
    (hroll : RollsBack s (s.direct j forced touched)) :
    s.dao.db.inTransaction = true ∧
      (s.direct j forced touched).users.updates = s.users.saved := by
  obtain ⟨events, c, hlog, hroll⟩ := hroll
  obtain ⟨rfl, hopen⟩ := forced_of_mem_run hlog hroll
  refine ⟨hopen, ?_⟩
  change (s.users.follow s.dao.db (s.dao.db.run j true) touched).updates = _
  rw [UsersTable.follow_run, if_pos ⟨rfl, hopen⟩]

theorem dao_rollsBack {d : DaoAction} {dao : Dao} {touched : List (ℕ × Bool)}
    (hqueued : s.dao.Queued d) (h : s.dao.step d = some dao)
    (hroll : RollsBack s (s.execute dao touched)) :
    s.dao.db.inTransaction = true ∧
      (s.execute dao touched).users.updates = s.users.saved := by
  obtain ⟨events, c, hlog, hroll⟩ := hroll
  change dao.db.log = _ at hlog
  change _ ∧ (s.users.follow s.dao.db dao.db touched).updates = _
  rcases Dao.db_of_step hqueued h with
    hdb | ⟨c, -, ⟨forced, hdb⟩ | ⟨hopen, hdb⟩ | ⟨hopen, hdb | hdb⟩⟩ <;>
    rw [hdb] at hlog ⊢
  · simp_all
  · obtain ⟨rfl, hopen⟩ := forced_of_mem_run hlog hroll
    rw [UsersTable.follow_run, if_pos ⟨rfl, hopen⟩]
    exact ⟨hopen, rfl⟩
  · obtain rfl := List.append_cancel_left hlog
    simp at hroll
  · obtain rfl := List.append_cancel_left hlog
    simp at hroll
  · rw [UsersTable.follow_rollback]
    exact ⟨hopen, rfl⟩

/-- A rollback leaves the table as it was at the `BEGIN`, and the sessions as
they are. -/
theorem step_rollsBack (hqueued : s.Queued a) (h : s.step a = some s')
    (hroll : RollsBack s s') :
    s.dao.db.inTransaction = true ∧ s'.users.updates = s.users.saved ∧
      s'.userSessions = s.userSessions := by
  have hquiet : s'.dao.db = s.dao.db → False := by
    rintro hdb
    obtain ⟨events, c, hlog, hmem⟩ := hroll
    simp_all
  cases a with
  | dao d touched =>
      obtain ⟨dao, hdao, rfl⟩ := Option.map_eq_some_iff.mp h
      obtain ⟨hopen, hupdates⟩ := dao_rollsBack hqueued hdao hroll
      exact ⟨hopen, hupdates, rfl⟩
  | signIn user setsAuthToken subUsers =>
      obtain rfl := Option.some.inj h
      exact (hquiet rfl).elim
  | refresh user =>
      obtain rfl := Option.some.inj h
      exact (hquiet rfl).elim
  | throw j =>
      simp only [Authenticator.step] at h
      split at h <;>
        first
        | (obtain rfl := Option.some.inj h; exact (hquiet rfl).elim)
        | exact absurd h nofun
  | update j changes forced =>
      simp only [Authenticator.step] at h
      split at h
      next user setsAuthToken subUsers hj =>
        obtain rfl := Option.some.inj h
        obtain ⟨hopen, hupdates⟩ := direct_rollsBack hroll
        exact ⟨hopen, hupdates, rfl⟩
      next => exact absurd h nofun
  | updateSubUsers j forced =>
      simp only [Authenticator.step] at h
      split at h
      next user setsAuthToken subUsers changes hj =>
        split_ifs at h
        obtain rfl := Option.some.inj h
        obtain ⟨hopen, hupdates⟩ := direct_rollsBack hroll
        exact ⟨hopen, hupdates, rfl⟩
      next => exact absurd h nofun
  | report j =>
      simp only [Authenticator.step] at h
      split at h
      next user setsAuthToken changes hj =>
        by_cases hchanges : changes < 1
        · rw [if_pos hchanges] at h
          obtain rfl := Option.some.inj h
          exact (hquiet rfl).elim
        · rw [if_neg hchanges] at h
          obtain rfl := Option.some.inj h
          exact (hquiet rfl).elim
      next => exact absurd h nofun

/-- If sign-in and refresh write the users table only while no transaction is
open, no rollback undoes an update they report, nor parts a session from its
row. -/
theorem signIn_survives_rollback
    (hs : machine.Reachable (fun s a => s.Queued a ∧ s.Outside a) s) : RollbackSafe s := by
  have hinv := inv_of_reachable hs
  constructor
  · intro j user setsAuthToken hj
    exact hinv.writtenBy.durable_subset (hinv.done hj)
  · intro a s' hqueued h hroll user j hj htoken
    obtain ⟨hopen, hupdates, hsessions⟩ := step_rollsBack hqueued h hroll
    obtain ⟨rest, hrest, hwriters⟩ := hinv.writtenBy hopen
    rw [hupdates]
    rw [hrest] at htoken
    apply UsersTable.authTokenOf_of_append htoken
    rintro x hx rfl
    rw [hsessions] at hj
    exact hwriters x hx (hinv.uncalled (by simp [hinv.session hj])).1

namespace RefreshWitness

/-- The refresh 2 of user 7 writes the row while transaction 0 is open. -/
def inside : List AuthAction :=
  [.dao .beginTrans [], .dao (.manageTransaction 0) [], .dao (.proccesTrans 0) [],
    .dao (.begin 0) [], .refresh 7, .update 2 1 false, .report 2]

/-- The same refresh writes the row just before the transaction begins. -/
def outside : List AuthAction :=
  [.dao .beginTrans [], .dao (.manageTransaction 0) [], .dao (.proccesTrans 0) [],
    .refresh 7, .update 2 1 false, .dao (.begin 0) [], .report 2]

def reported : Authenticator := (machine.run Queued init inside).get (by decide)

def rolledBack : Authenticator :=
  (reported.step (.dao (.throw 0 .failed) [])).get (by decide)

theorem reachable_rolledBack : machine.Reachable Queued rolledBack := by
  have hreported : machine.Reachable Queued reported :=
    (Machine.Reachable.init rfl).run (Option.some_get _).symm
  exact hreported.step (a := .dao (.throw 0 .failed) []) trivial (Option.some_get _).symm

/-- The rollback of transaction 0 takes the reported update with it, and leaves
the session of user 7 with a token that the row no longer holds. -/
theorem refresh_undone_by_rollback :
    UsersTable.authTokenOf reported.users.updates 7 = some 2 ∧
      rolledBack.userSessions 7 = some 2 ∧
      UsersTable.authTokenOf rolledBack.users.updates 7 = none ∧
      ¬ ∀ s, machine.Reachable Queued s → RollbackSafe s := by
  refine ⟨by decide, by decide, by decide, fun hsafe => ?_⟩
  have hkept := (hsafe rolledBack reachable_rolledBack).1 2 7 true (by decide)
  exact absurd hkept (by decide)

def kept : Authenticator :=
  (machine.run (fun s a => s.Queued a ∧ s.Outside a) init outside).get (by decide)

theorem signIn_survives_rollback_of_outside :
    kept.job 2 = .done 7 true ∧ kept.dao.db.transaction = some 0 ∧
      RollbackSafe kept :=
  ⟨by decide, by decide,
    signIn_survives_rollback ((Machine.Reachable.init rfl).run (Option.some_get _).symm)⟩

end RefreshWitness

end Authenticator

end ReportsFramework
