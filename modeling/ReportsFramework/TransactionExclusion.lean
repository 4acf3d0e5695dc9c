/-
Transactions are exclusive.  The queue is a turnstile: queries are its plain
calls, transactions its exclusive ones, and at most one transaction is inside at
a time.  From this follow the serial log of the connection and the absence of
cycles among the waiting calls.
-/
import Mathlib.Data.List.Basic
import Mathlib.Logic.Function.Basic
import ReportsFramework.TransactionQueue

namespace ReportsFramework

namespace CallPhase

/-- Where the turnstile sees a call. -/
def place : CallPhase → Turnstile.Place
  | awaitsTrans snapshot => .plain snapshot
  | awaitsQueries snapshot => .gate snapshot
  | awaitsTransPromises promise snapshot => .lane promise snapshot
  | beforeTrans _ | inTrans _ | afterTrans _ | caught _ _ | transTimeout _ =>
      .inside
  | transEnded _ | managed _ => .leaving
  | _ => .away

@[simp] theorem holdsPlain_place (p : CallPhase) :
    p.place.HoldsPlain ↔ p.queryPending = true := by
  cases p <;> simp [place, queryPending, Turnstile.Place.HoldsPlain]

@[simp] theorem holdsGate_place (p : CallPhase) :
    p.place.HoldsGate ↔ p.transPending = true := by
  cases p <;> simp [place, transPending, Turnstile.Place.HoldsGate]

@[simp] theorem holdsTicket_place (p : CallPhase) :
    p.place.HoldsTicket ↔ p.managedPending = true := by
  cases p <;> simp [place, managedPending, Turnstile.Place.HoldsTicket]

theorem place_of_runsBody {p : CallPhase} (hp : p.runsBody = true) :
    p.place = .inside := by
  cases p <;> simp_all [place, runsBody]

end CallPhase

namespace Dao

variable {s s' : Dao} {a : DaoAction}

/-- What an action requires and does, one case for each. -/
inductive Moves (s : Dao) : DaoAction → Dao → Prop
  | query : Moves s .query s.query
  | direct (c forced) : Moves s (.direct c forced) { s with db := s.db.run c forced }
  | runQuery (res forced) {q snapshot} (hphase : s.phase q = .awaitsTrans snapshot)
      (hsnapshot : ∀ t ∈ snapshot, ¬ (s.phase t).transPending) :
      Moves s (.runQuery q res forced)
        { s.goTo q (.queryEnded res) with db := s.db.run q forced }
  | settleQuery {q res} (p : CallPhase) (hphase : s.phase q = .queryEnded res)
      (hp : p = .queryTimeout ∨ p = .queryReturned res) :
      Moves s (.settleQuery q)
        { s.goTo q p with querySet := s.querySet.erase q }
  | retryQuery {q} (hphase : s.phase q = .queryTimeout) :
      Moves s (.retryQuery q)
        { (s.goTo q (.queryRetried s.next)).query with
          lockedDbRetryAmount := s.lockedDbRetryAmount + 1 }
  | finishRetry {q again res} (amount : ℕ) (hphase : s.phase q = .queryRetried again) :
      Moves s (.finishRetry q)
        { s.goTo q (.queryReturned res) with lockedDbRetryAmount := amount }
  | beginTrans : Moves s .beginTrans s.beginTrans
  | manageTransaction {t snapshot} (hphase : s.phase t = .awaitsQueries snapshot)
      (hsnapshot : ∀ q ∈ snapshot, ¬ (s.phase q).queryPending) :
      Moves s (.manageTransaction t) (s.manageTransaction t)
  | proccesTrans {t promise snapshot}
      (hphase : s.phase t = .awaitsTransPromises promise snapshot)
      (hsnapshot : ∀ t' ∈ snapshot, ¬ (s.phase t').managedPending) :
      Moves s (.proccesTrans t) (s.goTo t (.beforeTrans 1))
  | begin {t depth} (hphase : s.phase t = .beforeTrans depth)
      (hdb : s.db.inTransaction = false) :
      Moves s (.begin t) { s.goTo t (.inTrans depth) with db := s.db.begin t }
  | commit {t depth} (hphase : s.phase t = .inTrans depth)
      (hdb : s.db.inTransaction = true) :
      Moves s (.commit t) { s.goTo t (.afterTrans depth) with db := s.db.commit t }
  | throwIn {t depth} (err : Outcome) (hphase : s.phase t = .inTrans depth) :
      Moves s (.throw t err) (s.catchTrans t depth true err)
  | throwOut {t depth} (err : Outcome)
      (hphase : s.phase t = .beforeTrans depth ∨ s.phase t = .afterTrans depth) :
      Moves s (.throw t err) (s.catchTrans t depth false err)
  | rethrow {t depth err} (p : CallPhase) (hphase : s.phase t = .caught depth err)
      (hp : p = .transTimeout depth ∨ p = .transEnded err) :
      Moves s (.rethrow t) (s.goTo t p)
  | retryTrans {t depth} (hphase : s.phase t = .transTimeout depth) :
      Moves s (.retryTrans t)
        { s.goTo t (.beforeTrans (depth + 1)) with
          lockedDbRetryInTrxAmount := s.lockedDbRetryInTrxAmount + 1 }
  | returnTrans {t depth} (amount : ℕ) (hphase : s.phase t = .afterTrans depth) :
      Moves s (.returnTrans t)
        { s.goTo t (.transEnded .ok) with lockedDbRetryInTrxAmount := amount }
  | deleteTransactionPromise {t res} (hphase : s.phase t = .transEnded res) :
      Moves s (.deleteTransactionPromise t)
        { s.goTo t (.managed res) with
          transactionPromisesSet := s.transactionPromisesSet.erase t }
  | settleTrans {t res} (hphase : s.phase t = .managed res) :
      Moves s (.settleTrans t) (s.goTo t (.transSettled res))
  | deleteTransQuery {t res} (hphase : s.phase t = .transSettled res) :
      Moves s (.deleteTransQuery t)
        { s.goTo t (.transReturned res) with
          transQuerySet := s.transQuerySet.erase t }

theorem moves_of_step (h : s.step a = some s') :
    s.Moves a s' := by
  cases a <;> simp only [step] at h <;> grind [Moves]

/-- The call may use the connection: its body is running, or it is a query whose
wait is over. -/
def MayExecute (s : Dao) (c : ℕ) : Prop :=
  (s.phase c).place = .inside ∨
    ∃ snapshot, s.phase c = .awaitsTrans snapshot ∧
      ∀ t ∈ snapshot, ¬ (s.phase t).transPending

theorem MayExecute.called {c : ℕ} (hc : s.MayExecute c) : s.phase c ≠ .uncalled := by
  rintro huncalled
  rcases hc with hc | ⟨snapshot, hc, -⟩ <;> simp [huncalled, CallPhase.place] at hc

theorem called_step (h : s.step a = some s') {c : ℕ} (hc : s.phase c ≠ .uncalled) :
    s'.phase c ≠ .uncalled := by
  cases moves_of_step h <;> grind

theorem lt_next_step (h : s.step a = some s')
    (hcalled : ∀ c, s.phase c ≠ .uncalled → c < s.next) {c : ℕ}
    (hc : s'.phase c ≠ .uncalled) : c < s'.next := by
  cases moves_of_step h <;> grind

theorem uncalled_step (h : s.step a = some s') {c : ℕ} (hc : s.phase c = .uncalled)
    (hlt : c < s.next) : s'.phase c = .uncalled ∧ c < s'.next := by
  cases moves_of_step h <;> grind

/-- What a step does to the connection, and who does it. -/
theorem db_of_step (hqueued : s.Queued a) (h : s.step a = some s') :
    s'.db = s.db ∨ ∃ c, s.MayExecute c ∧
      ((∃ forced, s'.db = s.db.run c forced) ∨
        s.db.inTransaction = false ∧ s'.db = s.db.begin c ∨
        s.db.inTransaction = true ∧
          (s'.db = s.db.commit c ∨ s'.db = s.db.rollback c)) := by
  cases moves_of_step h with
  | direct c forced =>
      have hc := CallPhase.place_of_runsBody hqueued
      exact .inr ⟨c, .inl hc, .inl ⟨forced, rfl⟩⟩
  | @runQuery res forced q snapshot hphase hsnapshot =>
      exact .inr ⟨q, .inr ⟨snapshot, hphase, hsnapshot⟩, .inl ⟨forced, rfl⟩⟩
  | @begin t depth hphase hdb =>
      have ht : (s.phase t).place = .inside := by rw [hphase]; rfl
      exact .inr ⟨t, .inl ht, .inr (.inl ⟨hdb, rfl⟩)⟩
  | @commit t depth hphase hdb =>
      have ht : (s.phase t).place = .inside := by rw [hphase]; rfl
      exact .inr ⟨t, .inl ht, .inr (.inr ⟨hdb, .inl rfl⟩)⟩
  | @throwIn t depth err hphase =>
      have ht : (s.phase t).place = .inside := by rw [hphase]; rfl
      by_cases hdb : s.db.inTransaction = true
      · refine .inr ⟨t, .inl ht, .inr (.inr ⟨hdb, .inr ?_⟩)⟩
        simp [catchTrans, hdb]
      · left
        simp [catchTrans, hdb, goTo]
  | @throwOut t depth err hphase =>
      left
      simp [catchTrans, goTo]
  | _ => exact .inl rfl

/-- What the turnstile sees of the DAO. -/
def turnstile (s : Dao) : Turnstile.State where
  next := s.next
  place c := (s.phase c).place
  plains := s.querySet
  exclusives := s.transQuerySet
  tickets := s.transactionPromisesSet

theorem turnstile_goTo (s : Dao) (c : ℕ) (p : CallPhase) :
    (s.goTo c p).turnstile = { s.turnstile with
      place := Function.update s.turnstile.place c p.place } := by
  simp only [turnstile, goTo, Turnstile.State.mk.injEq, true_and, and_true]
  funext d
  exact Function.apply_update (fun _ => CallPhase.place) s.phase c p d

/-- A move the turnstile does not see. -/
theorem turnstile_goTo_of_place {c : ℕ} {p : CallPhase}
    (hp : p.place = (s.phase c).place) :
    (s.goTo c p).turnstile = s.turnstile := by
  rw [turnstile_goTo, hp]
  exact congrArg (fun place => { s.turnstile with place := place })
    (Function.update_eq_self c s.turnstile.place)

theorem turnstile_query (s : Dao) :
    Turnstile.Step s.turnstile s.query.turnstile := by
  change Turnstile.Step s.turnstile
    { (s.goTo s.next (.awaitsTrans s.transQuerySet)).turnstile with
      next := s.next + 1
      plains := insert s.next s.querySet }
  rw [turnstile_goTo]
  exact .callPlain

theorem turnstile_beginTrans (s : Dao) :
    Turnstile.Step s.turnstile s.beginTrans.turnstile := by
  change Turnstile.Step s.turnstile
    { (s.goTo s.next (.awaitsQueries s.querySet)).turnstile with
      next := s.next + 1
      exclusives := insert s.next s.transQuerySet }
  rw [turnstile_goTo]
  exact .callExclusive

theorem turnstile_manageTransaction {t : ℕ} {snapshot : Finset ℕ}
    (ht : s.phase t = .awaitsQueries snapshot)
    (hsnapshot : ∀ q ∈ snapshot, ¬ (s.phase q).queryPending) :
    Turnstile.Step s.turnstile (s.manageTransaction t).turnstile := by
  change Turnstile.Step s.turnstile
    { (s.goTo t (.awaitsTransPromises s.next s.transactionPromisesSet)).turnstile with
      next := s.next + 1
      tickets := insert t s.transactionPromisesSet }
  rw [turnstile_goTo]
  apply Turnstile.Step.takeTicket (congrArg CallPhase.place ht)
  simpa [turnstile] using hsnapshot

theorem turnstile_catchTrans {t depth : ℕ} {isTransBegun : Bool} {err : Outcome}
    (ht : (s.phase t).place = .inside) :
    (s.catchTrans t depth isTransBegun err).turnstile = s.turnstile := by
  have hgoTo := turnstile_goTo_of_place (p := .caught depth err) ht.symm
  unfold catchTrans
  split
  · exact hgoTo
  · exact hgoTo

/-- Every step of the DAO is a step of the turnstile, or the turnstile does not
see it. -/
theorem step_turnstile (h : s.step a = some s') :
    Turnstile.Step s.turnstile s'.turnstile ∨ s'.turnstile = s.turnstile := by
  cases moves_of_step h with
  | query => exact .inl s.turnstile_query
  | direct c forced => exact .inr rfl
  | @runQuery res forced q snapshot hphase hsnapshot =>
      left
      change Turnstile.Step s.turnstile (s.goTo q (.queryEnded res)).turnstile
      rw [turnstile_goTo]
      apply Turnstile.Step.runPlain (congrArg CallPhase.place hphase)
      simpa [turnstile] using hsnapshot
  | @settleQuery q res p hphase hp =>
      left
      have hstay : (s.goTo q p).turnstile = s.turnstile :=
        turnstile_goTo_of_place (by rcases hp with rfl | rfl <;> rw [hphase] <;> rfl)
      change Turnstile.Step s.turnstile
        { (s.goTo q p).turnstile with plains := s.querySet.erase q }
      rw [hstay]
      apply Turnstile.Step.forgetPlain
      simp [turnstile, hphase, CallPhase.queryPending]
  | @retryQuery q hphase =>
      left
      have hstay : (s.goTo q (.queryRetried s.next)).turnstile = s.turnstile :=
        turnstile_goTo_of_place (by rw [hphase]; rfl)
      rw [← hstay]
      exact turnstile_query _
  | @finishRetry q again res amount hphase =>
      right
      exact turnstile_goTo_of_place (p := .queryReturned res) (by rw [hphase]; rfl)
  | beginTrans => exact .inl s.turnstile_beginTrans
  | manageTransaction hphase hsnapshot =>
      exact .inl (turnstile_manageTransaction hphase hsnapshot)
  | @proccesTrans t promise snapshot hphase hsnapshot =>
      left
      rw [turnstile_goTo]
      apply Turnstile.Step.enter (congrArg CallPhase.place hphase)
      simpa [turnstile] using hsnapshot
  | @begin t depth hphase hdb =>
      right
      exact turnstile_goTo_of_place (p := .inTrans depth) (by rw [hphase]; rfl)
  | @commit t depth hphase hdb =>
      right
      exact turnstile_goTo_of_place (p := .afterTrans depth) (by rw [hphase]; rfl)
  | throwIn err hphase =>
      exact .inr (turnstile_catchTrans (by rw [hphase]; rfl))
  | throwOut err hphase =>
      right
      apply turnstile_catchTrans
      rcases hphase with hphase | hphase <;> rw [hphase] <;> rfl
  | @rethrow t depth err p hphase hp =>
      rcases hp with rfl | rfl
      · exact .inr (turnstile_goTo_of_place (by rw [hphase]; rfl))
      · left
        rw [turnstile_goTo]
        exact .exit (congrArg CallPhase.place hphase)
  | @retryTrans t depth hphase =>
      right
      exact turnstile_goTo_of_place (p := .beforeTrans (depth + 1)) (by rw [hphase]; rfl)
  | @returnTrans t depth amount hphase =>
      left
      change Turnstile.Step s.turnstile (s.goTo t (.transEnded .ok)).turnstile
      rw [turnstile_goTo]
      exact .exit (congrArg CallPhase.place hphase)
  | @deleteTransactionPromise t res hphase =>
      left
      have hstay : (s.goTo t (.managed res)).turnstile = s.turnstile :=
        turnstile_goTo_of_place (by rw [hphase]; rfl)
      change Turnstile.Step s.turnstile
        { (s.goTo t (.managed res)).turnstile with
          tickets := s.transactionPromisesSet.erase t }
      rw [hstay]
      apply Turnstile.Step.forgetTicket
      simp [turnstile, hphase, CallPhase.managedPending]
  | @settleTrans t res hphase =>
      left
      rw [turnstile_goTo]
      exact .leave (congrArg CallPhase.place hphase)
  | @deleteTransQuery t res hphase =>
      left
      have hstay : (s.goTo t (.transReturned res)).turnstile = s.turnstile :=
        turnstile_goTo_of_place (by rw [hphase]; rfl)
      change Turnstile.Step s.turnstile
        { (s.goTo t (.transReturned res)).turnstile with
          exclusives := s.transQuerySet.erase t }
      rw [hstay]
      apply Turnstile.Step.forgetExclusive
      simp [turnstile, hphase, CallPhase.transPending]

end Dao

namespace DbEvent

/-- The transaction open after an event, `none` if a serial log cannot go on with
it. -/
def after : Option ℕ → DbEvent → Option (Option ℕ)
  | none, statement _ => some none
  | none, begin c => some (some c)
  | some t, statement c => if c = t then some (some t) else none
  | some t, commit c | some t, rollback c | some t, forcedRollback c =>
      if c = t then some none else none
  | _, _ => none

/-- The event ends the transaction of `t`. -/
def Ends (t : ℕ) (e : DbEvent) : Prop :=
  e = commit t ∨ e = rollback t ∨ e = forcedRollback t

end DbEvent

/-- The transaction open after a serial log. -/
def replay (open? : Option ℕ) (log : List DbEvent) : Option (Option ℕ) :=
  log.foldlM DbEvent.after open?

theorem replay_append (o : Option ℕ) (log log' : List DbEvent) :
    replay o (log ++ log') = (replay o log).bind fun o' => replay o' log' :=
  List.foldlM_append

theorem DbEvent.after_of_not_ends {t : ℕ} {e : DbEvent} {o : Option ℕ}
    (h : DbEvent.after (some t) e = some o) :
    e.caller = t ∧ (¬ e.Ends t → o = some t) := by
  cases e <;> grind [DbEvent.after, DbEvent.Ends, DbEvent.caller]

theorem DbEvent.after_begin {t : ℕ} {o o' : Option ℕ}
    (h : (DbEvent.begin t).after o = some o') : o' = some t := by
  cases o <;> simp_all [DbEvent.after]

/-- In a serial log everything between the `BEGIN` of a transaction and its end
comes from its caller. -/
theorem caller_eq_of_replay {t : ℕ} {mid : List DbEvent} {e : DbEvent}
    {post : List DbEvent} {o : Option ℕ}
    (h : replay (some t) (mid ++ e :: post) = some o)
    (hmid : ∀ e' ∈ mid, ¬ e'.Ends t) : e.caller = t := by
  induction mid with
  | nil =>
      obtain ⟨o', ho', -⟩ := Option.bind_eq_some_iff.mp h
      exact (DbEvent.after_of_not_ends ho').1
  | cons e' mid ih =>
      obtain ⟨o', ho', hrest⟩ := Option.bind_eq_some_iff.mp h
      obtain rfl := (DbEvent.after_of_not_ends ho').2 (hmid e' (by simp))
      exact ih hrest fun x hx => hmid x (by simp [hx])

namespace Connection

variable {db : Connection}

@[simp, grind =] theorem transaction_run (db : Connection) (c : ℕ) (forced : Bool) :
    (db.run c forced).transaction = if forced then none else db.transaction := by
  cases forced <;> cases ht : db.transaction <;> simp [run, ht]

theorem mem_of_log_run {db : Connection} {c : ℕ} {forced : Bool}
    {events : List DbEvent} (h : (db.run c forced).log = db.log ++ events)
    {e : DbEvent} (he : e ∈ events) :
    e = .statement c ∨
      ∃ owner, db.transaction = some owner ∧ e = .forcedRollback owner := by
  unfold run at h
  split at h
  next owner howner =>
    obtain rfl := List.append_cancel_left h
    simpa [howner] using he
  next =>
    obtain rfl := List.append_cancel_left h
    exact .inl (List.mem_singleton.mp he)

/-- The log is serial, and its open transaction is that of the connection. -/
def Serial (db : Connection) : Prop :=
  replay none db.log = some db.transaction

theorem Serial.snoc (hdb : db.Serial) {e : DbEvent} {o : Option ℕ}
    (he : e.after db.transaction = some o) :
    replay none (db.log ++ [e]) = some o := by
  rw [replay_append, hdb]
  simp [replay, he]

theorem Serial.run (hdb : db.Serial) {c : ℕ} (forced : Bool)
    (hc : ∀ t, db.transaction = some t → c = t) : (db.run c forced).Serial := by
  have hstatement : DbEvent.after db.transaction (.statement c) =
      some db.transaction := by
    cases ht : db.transaction with
    | none => rfl
    | some t => simp [DbEvent.after, hc t ht]
  have hlog := hdb.snoc hstatement
  simp only [Connection.run]
  split
  next t ht =>
    have hforced : DbEvent.after db.transaction (.forcedRollback t) = some none := by
      simp [ht, DbEvent.after]
    have hdb' : Serial ⟨db.transaction, db.log ++ [.statement c]⟩ := hlog
    simpa [Serial] using hdb'.snoc hforced
  next => exact hlog

theorem Serial.begin (hdb : db.Serial) (c : ℕ) (hopen : db.inTransaction = false) :
    (db.begin c).Serial := by
  apply hdb.snoc
  have ht : db.transaction = none := by simpa [inTransaction] using hopen
  rw [ht]
  rfl

theorem Serial.end (hdb : db.Serial) {c : ℕ} {e : DbEvent} (he : e.Ends c)
    (hc : db.transaction = some c) : replay none (db.log ++ [e]) = some none := by
  apply hdb.snoc
  rcases he with rfl | rfl | rfl <;> simp [hc, DbEvent.after]

end Connection

namespace Dao

variable {s s' : Dao} {a : DaoAction}

/-- What holds of the calls between any two steps. -/
structure CallInv (s : Dao) : Prop where
  turnstile : Turnstile.Inv s.turnstile
  called {c} : s.phase c ≠ .uncalled → c < s.next
  retried {q again} : s.phase q = .queryRetried again → q < again ∧ again < s.next
  /-- The open transaction is that of a call between its `BEGIN` and its end. -/
  owner {t} : s.db.transaction = some t → ∃ depth, s.phase t = .inTrans depth

/-- What holds besides if the statements are queued as they should be. -/
structure Inv (s : Dao) : Prop extends CallInv s where
  serial : s.db.Serial

/-- Two calls that may be running their bodies are one. -/
theorem CallInv.eq_of_inside {c t : ℕ} (hs : CallInv s)
    (hc : (s.phase c).place = .inside) (ht : (s.phase t).place = .inside) :
    c = t :=
  hs.turnstile.inLane.inside_unique hc ht

theorem CallInv.owner_eq {c t : ℕ} (hs : CallInv s) (hc : (s.phase c).place = .inside)
    (ht : s.db.transaction = some t) : c = t := by
  obtain ⟨depth, hdepth⟩ := hs.owner ht
  exact hs.eq_of_inside hc (by rw [hdepth]; rfl)

/-- A query that may run finds no body running. -/
theorem CallInv.not_inside_of_query {q t : ℕ} {snapshot : Finset ℕ} (hs : CallInv s)
    (hq : s.phase q = .awaitsTrans snapshot)
    (hsnapshot : ∀ t ∈ snapshot, ¬ (s.phase t).transPending) :
    (s.phase t).place ≠ .inside := by
  intro ht
  have hmem : t ∈ snapshot :=
    hs.turnstile.plain_waits ht (congrArg CallPhase.place hq)
  have hpending : (s.phase t).place.HoldsGate := by
    simp [ht, Turnstile.Place.HoldsGate]
  exact hsnapshot t hmem (by simpa using hpending)

/-- No call other than `c` is running its body. -/
def Alone (s : Dao) (c : ℕ) : Prop :=
  ∀ t, (s.phase t).place = .inside → c = t

/-- Who may use the connection is alone. -/
theorem CallInv.alone (hs : CallInv s) {c : ℕ} (hc : s.MayExecute c) : s.Alone c := by
  intro t ht
  rcases hc with hc | ⟨snapshot, hc, hsnapshot⟩
  · exact hs.eq_of_inside hc ht
  · exact absurd ht (hs.not_inside_of_query hc hsnapshot)

theorem Inv.serial_step (hs : Inv s) (hqueued : s.Queued a)
    (h : s.step a = some s') : s'.db.Serial := by
  rcases db_of_step hqueued h with hdb | ⟨c, hc, hdb⟩
  · rw [hdb]
    exact hs.serial
  have howner : ∀ t, s.db.transaction = some t → c = t := by
    intro t ht
    obtain ⟨depth, hdepth⟩ := hs.owner ht
    exact hs.alone hc t (by rw [hdepth]; rfl)
  rcases hdb with ⟨forced, hdb⟩ | ⟨hopen, hdb⟩ | ⟨hopen, hdb⟩
  · rw [hdb]
    exact hs.serial.run forced howner
  · rw [hdb]
    exact hs.serial.begin c hopen
  · obtain ⟨t, ht⟩ := Option.isSome_iff_exists.mp hopen
    obtain rfl := howner t ht
    rcases hdb with hdb | hdb <;> rw [hdb]
    · exact hs.serial.end (.inl rfl) ht
    · exact hs.serial.end (.inr (.inl rfl)) ht

/-- As long as its transaction is open a call stays between its `BEGIN` and its
end. -/
theorem CallInv.owner_step (hs : CallInv s) (h : s.step a = some s') {t : ℕ}
    (ht : s'.db.transaction = some t) : ∃ depth, s'.phase t = .inTrans depth := by
  cases moves_of_step h <;>
    grind [Connection.begin, Connection.commit, Connection.rollback, CallInv]

theorem CallInv.retried_step (hs : CallInv s) (h : s.step a = some s') {q again : ℕ}
    (hq : s'.phase q = .queryRetried again) : q < again ∧ again < s'.next := by
  cases moves_of_step h <;> grind [CallInv]

theorem CallInv.turnstile_step (hs : CallInv s) (h : s.step a = some s') :
    Turnstile.Inv s'.turnstile := by
  rcases step_turnstile h with hstep | hstay
  · exact hs.turnstile.step hstep
  · rw [hstay]
    exact hs.turnstile

theorem CallInv.step (hs : CallInv s) (h : s.step a = some s') : CallInv s' where
  turnstile := hs.turnstile_step h
  called := lt_next_step h fun _ => hs.called
  retried := hs.retried_step h
  owner := hs.owner_step h

theorem Inv.step (hs : Inv s) (hqueued : s.Queued a) (h : s.step a = some s') :
    Inv s' where
  toCallInv := hs.toCallInv.step h
  serial := hs.serial_step hqueued h

theorem callInv_init : CallInv init where
  turnstile := Turnstile.inv_init
  called hc := absurd rfl hc
  retried hq := absurd hq nofun
  owner ht := absurd ht nofun

theorem inv_init : Inv init where
  toCallInv := callInv_init
  serial := rfl

theorem inv_of_reachable (hs : machine.Reachable Queued s) : Inv s := by
  apply hs.invariant (I := Inv)
  · rintro _ rfl
    exact inv_init
  · intro s a s' hinv hqueued h
    exact hinv.step hqueued h

/-- Apart from retries the calls wait as in the turnstile. -/
theorem turnstile_waits {c d : ℕ} (h : s.Waits c d) :
    Turnstile.Waits s.turnstile c d ∨ s.phase c = .queryRetried d := by
  cases h with
  | trans hc hmem hd =>
      exact .inl (.plain (congrArg CallPhase.place hc) hmem
        ((CallPhase.holdsGate_place _).mpr hd))
  | query hc hmem hd =>
      exact .inl (.gate (congrArg CallPhase.place hc) hmem
        ((CallPhase.holdsPlain_place _).mpr hd))
  | transPromise hc hmem hd =>
      exact .inl (.lane (congrArg CallPhase.place hc) hmem
        ((CallPhase.holdsTicket_place _).mpr hd))
  | retry hc => exact .inr hc

/-- A retried call ranks above all others; the others rank as in the turnstile. -/
def rank (s : Dao) (c : ℕ) : ℕ ×ₗ (ℕ ×ₗ ℕ) :=
  match s.phase c with
  | .queryRetried _ => toLex (1, toLex (s.next - c, 0))
  | p => toLex (0, p.place.rank c)

theorem rank_of_place {c : ℕ} (hc : (s.phase c).place ≠ .away) :
    s.rank c = toLex (0, (s.turnstile.place c).rank c) := by
  unfold rank
  split
  next hphase => simp [hphase, CallPhase.place] at hc
  next => rfl

theorem CallInv.rank_lt (hs : CallInv s) {c d : ℕ} (h : s.Waits c d) :
    s.rank d < s.rank c := by
  rcases turnstile_waits h with hwaits | hc
  · have hlt := hs.turnstile.rank_lt hwaits
    have hplaces := hwaits.place_ne_away
    rw [rank_of_place hplaces.1, rank_of_place hplaces.2]
    simpa [Prod.Lex.toLex_lt_toLex] using hlt
  · obtain ⟨hlt, hnext⟩ := hs.retried hc
    simp only [rank, hc]
    split
    · have hsub : s.next - d < s.next - c := by omega
      simp [Prod.Lex.toLex_lt_toLex, hsub]
    · simp [Prod.Lex.toLex_lt_toLex]

/-- Calls never wait for each other in a circle. -/
theorem CallInv.not_transGen_waits (hs : CallInv s) (c : ℕ) :
    ¬ Relation.TransGen s.Waits c c := by
  intro hcycle
  have hlt : Relation.TransGen (· > ·) (s.rank c) (s.rank c) :=
    Relation.TransGen.lift (p := (· > ·)) s.rank
      (fun _ _ hwaits => hs.rank_lt hwaits) _ _ hcycle
  rw [Relation.transGen_eq_self] at hlt
  exact lt_irrefl _ hlt

/-- No statement of another caller runs between the `BEGIN` of a transaction and
its end, also not while its body goes on after SQLite has rolled it back; and no
callers wait for each other in a circle. -/
theorem transactions_exclusive (hs : machine.Reachable Queued s) :
    (∀ pre t mid e post, s.db.log = pre ++ .begin t :: (mid ++ e :: post) →
        (∀ e' ∈ mid, ¬ e'.Ends t) → e.caller = t) ∧
      (∀ t depth, s.phase t = .inTrans depth →
        ∀ a s', s.Queued a → s.step a = some s' →
          ∀ events, s'.db.log = s.db.log ++ events → ∀ e ∈ events, e.caller = t) ∧
      ∀ c, ¬ Relation.TransGen s.Waits c c := by
  have hinv := inv_of_reachable hs
  refine ⟨?_, ?_, hinv.not_transGen_waits⟩
  · intro pre t mid e post hlog hmid
    have hserial := hinv.serial
    rw [Connection.Serial, hlog, replay_append, Option.bind_eq_some_iff] at hserial
    obtain ⟨o, -, hopen⟩ := hserial
    obtain ⟨o', ho', hrest⟩ := Option.bind_eq_some_iff.mp hopen
    obtain rfl := DbEvent.after_begin ho'
    exact caller_eq_of_replay hrest hmid
  · intro t depth ht a s' hqueued h events hlog e he
    have hinside : (s.phase t).place = .inside := by rw [ht]; rfl
    rcases db_of_step hqueued h with hdb | ⟨c, hc, hdb⟩
    · simp_all
    obtain rfl := hinv.alone hc t hinside
    rcases hdb with ⟨forced, hdb⟩ | ⟨-, hdb⟩ | ⟨-, hdb | hdb⟩ <;> rw [hdb] at hlog
    · rcases Connection.mem_of_log_run hlog he with rfl | ⟨owner, howner, rfl⟩
      · rfl
      · exact (hinv.owner_eq hinside howner).symm
    all_goals
      obtain rfl := List.append_cancel_left hlog
      obtain rfl := List.mem_singleton.mp he
      rfl

namespace RivalsWitness

/-- Transaction 0 is rolled back and retried, and SQLite gives up the second try;
query 1 and transaction 2 have come in meanwhile. -/
def actions : List DaoAction :=
  [.beginTrans, .manageTransaction 0, .proccesTrans 0, .begin 0, .query,
    .direct 0 false, .beginTrans, .throw 0 .locked, .rethrow 0, .retryTrans 0,
    .begin 0, .direct 0 true, .direct 0 false, .throw 0 .failed, .rethrow 0,
    .deleteTransactionPromise 0, .settleTrans 0, .runQuery 2 .ok false,
    .manageTransaction 3, .proccesTrans 3, .begin 3, .commit 3]

def rivals : Dao := (machine.run Queued init actions).get (by decide)

theorem reachable_rivals : machine.Reachable Queued rivals :=
  (Machine.Reachable.init rfl).run (Option.some_get _).symm

theorem transactions_exclusive_of_rivals :
    rivals.db.log =
        [.begin 0, .statement 0, .rollback 0, .begin 0, .statement 0,
          .forcedRollback 0, .statement 0, .statement 2, .begin 3, .commit 3] ∧
      ((∀ pre t mid e post, rivals.db.log = pre ++ .begin t :: (mid ++ e :: post) →
          (∀ e' ∈ mid, ¬ e'.Ends t) → e.caller = t) ∧
        (∀ t depth, rivals.phase t = .inTrans depth →
          ∀ a s', rivals.Queued a → rivals.step a = some s' →
            ∀ events, s'.db.log = rivals.db.log ++ events →
              ∀ e ∈ events, e.caller = t) ∧
        ∀ c, ¬ Relation.TransGen rivals.Waits c c) :=
  ⟨by decide, transactions_exclusive reachable_rivals⟩

end RivalsWitness

end Dao

end ReportsFramework
