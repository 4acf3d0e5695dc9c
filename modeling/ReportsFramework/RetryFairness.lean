/-
The retries of locked queries and transactions.  Both count them in fields of the DAO,
which all callers share: a counter is set back when a retried call succeeds, and stays
where it is when one is rejected.
-/
import ReportsFramework.Machine
import ReportsFramework.RetryBudget
import ReportsFramework.TransactionExclusion

namespace ReportsFramework

namespace CallPhase

/-- What the retries see of a query. -/
def retryCall : CallPhase → RetryBudget.Call
  | awaitsTrans _ | queryEnded _ => .running
  | queryTimeout => .waiting
  | queryRetried again => .retried again
  | queryReturned res => .returned (res = .ok)
  | _ => .away

/-- The calls of `_proccesTrans` on the stack of a transaction that is inside. -/
def depth? : CallPhase → Option ℕ
  | beforeTrans depth | inTrans depth | afterTrans depth | caught depth _
  | transTimeout depth => some depth
  | _ => none

/-- The transaction has been rejected. -/
def isRejected : CallPhase → Bool
  | transEnded res | managed res | transSettled res | transReturned res => res ≠ .ok
  | _ => false

def isCaughtLocked : CallPhase → Bool
  | caught _ res => res = .locked
  | _ => false

/-- No body of the transaction has run yet. -/
def isQueued : CallPhase → Bool
  | uncalled | awaitsQueries _ | awaitsTransPromises _ _ => true
  | _ => false

end CallPhase

/-- The DAO with a record of its retries: which call of `query` a retried one goes back
to, after how many retries, and the retries of each transaction. -/
structure RetriedDao where
  dao : Dao
  root : ℕ → ℕ
  retries : ℕ → ℕ
  trxRetries : ℕ → ℕ

namespace RetriedDao

def init : RetriedDao := ⟨.init, id, fun _ => 0, fun _ => 0⟩

def step (s : RetriedDao) (a : DaoAction) : Option RetriedDao :=
  (s.dao.step a).map fun dao =>
    match a with
    | .retryQuery q =>
        { s with
          dao := dao
          root := Function.update s.root s.dao.next (s.root q)
          retries := Function.update s.retries s.dao.next (s.retries q + 1) }
    | .retryTrans t =>
        { s with
          dao := dao
          trxRetries := fun c => if c = t then s.trxRetries c + 1 else s.trxRetries c }
    | _ => { s with dao := dao }

def machine : Machine RetriedDao DaoAction where
  init s := s = init
  step := step

/-- What the counter of the queries is about. -/
def pool (s : RetriedDao) : RetryBudget.Pool where
  next := s.dao.next
  call c := (s.dao.phase c).retryCall
  amount := s.dao.lockedDbRetryAmount
  root := s.root
  retries := s.retries

/-- No other query is about to retry, and every query that has retried has succeeded. -/
def QueryUndisturbed (s : RetriedDao) (q : ℕ) : Prop :=
  ∀ c < s.dao.next, s.root c ≠ s.root q →
    (s.dao.phase c).retryCall.isRetrying = false ∧
      (s.retries c = 0 ∨ s.dao.phase c = .queryReturned .ok)

/-- No transaction that has retried has been rejected. -/
def TransUndisturbed (s : RetriedDao) : Prop :=
  ∀ c < s.dao.next, s.trxRetries c = 0 ∨ (s.dao.phase c).isRejected = false

/-- A query or transaction that meets a lock is undisturbed by the others. -/
def Undisturbed (s : RetriedDao) : DaoAction → Prop
  | .settleQuery q => s.dao.phase q = .queryEnded .locked → s.QueryUndisturbed q
  | .rethrow t => (s.dao.phase t).isCaughtLocked = true → s.TransUndisturbed
  | _ => True

/-- A query or transaction that has met a lock is rejected for it exactly if it has
been retried three times. -/
def FullBudget (s : RetriedDao) (a : DaoAction) : Prop :=
  match a with
  | .settleQuery q => s.dao.phase q = .queryEnded .locked →
      ∀ s', s.step a = some s' →
        (s'.dao.phase q = .queryReturned .locked ↔ s.retries q = 3)
  | .rethrow t => ∀ depth, s.dao.phase t = .caught depth .locked →
      ∀ s', s.step a = some s' →
        (s'.dao.phase t = .transEnded .locked ↔ s.trxRetries t = 3)
  | _ => True

section Queries

variable {s s' : RetriedDao}

/-- What is seen of the phases after one of them has changed. -/
theorem retryCall_update (dao : Dao) (c : ℕ) (p : CallPhase) :
    (fun d => (Function.update dao.phase c p d).retryCall) =
      Function.update (fun d => (dao.phase d).retryCall) c p.retryCall := by
  funext d
  exact Function.apply_update (fun _ => CallPhase.retryCall) dao.phase c p d

/-- A change that the retries do not see. -/
theorem retryCall_update_of_eq {dao : Dao} {c : ℕ} {p : CallPhase}
    (h : (dao.phase c).retryCall = p.retryCall) :
    (fun d => (Function.update dao.phase c p d).retryCall) =
      fun d => (dao.phase d).retryCall := by
  rw [retryCall_update, ← h]
  exact Function.update_eq_self c fun d => (dao.phase d).retryCall

theorem undisturbed_pool {q : ℕ} (hpool : RetryBudget.Inv 3 s.pool)
    (h : s.QueryUndisturbed q) : s.pool.Undisturbed q := by
  intro c hc
  rcases Nat.lt_or_ge c s.dao.next with hlt | hge
  · obtain ⟨hretrying, hend⟩ := h c hlt hc
    refine ⟨hretrying, ?_⟩
    rcases hend with hzero | hreturned
    · exact .inl hzero
    · exact .inr (by simp [pool, hreturned, CallPhase.retryCall])
  · obtain ⟨haway, _, hzero⟩ := hpool.fresh (c := c) hge
    exact ⟨by rw [haway]; rfl, .inl hzero⟩

theorem settleQuery_eq {dao dao' : Dao} {q : ℕ} (h : dao.step (.settleQuery q) = some dao') :
    ∃ res, dao.phase q = .queryEnded res ∧ dao' = { dao.goTo q
      (if res = .locked ∧ dao.lockedDbRetryAmount < 3 then .queryTimeout
        else .queryReturned res) with querySet := dao.querySet.erase q } := by
  simp only [Dao.step] at h
  split at h
  · rename_i res hphase
    exact ⟨res, hphase, (Option.some.inj h).symm⟩
  · cases h

theorem finishRetry_eq {dao dao' : Dao} {q : ℕ} (h : dao.step (.finishRetry q) = some dao') :
    ∃ again res, dao.phase q = .queryRetried again ∧ dao.phase again = .queryReturned res ∧
      dao' = { dao.goTo q (.queryReturned res) with
        lockedDbRetryAmount := if res = .ok then 0 else dao.lockedDbRetryAmount } := by
  simp only [Dao.step] at h
  split at h
  · rename_i again hphase
    split at h
    · rename_i res hagain
      exact ⟨again, res, hphase, hagain, (Option.some.inj h).symm⟩
    · cases h
  · cases h

theorem pool_settleQuery (hpool : RetryBudget.Inv 3 s.pool) {q : ℕ}
    (hq : s.Undisturbed (.settleQuery q)) (h : s.step (.settleQuery q) = some s') :
    RetryBudget.Step 3 s.pool s'.pool := by
  obtain ⟨dao', hdao, rfl⟩ := Option.map_eq_some_iff.mp h
  obtain ⟨res, hphase, rfl⟩ := settleQuery_eq hdao
  have hcall : s.pool.call q = .running := by simp [pool, hphase, CallPhase.retryCall]
  unfold pool
  simp only [Dao.goTo, retryCall_update]
  cases res with
  | locked =>
      have hundisturbed := undisturbed_pool hpool (hq hphase)
      have hlock : RetryBudget.Step 3 s.pool _ := .lock hcall hundisturbed
      have hend : (if Outcome.locked = .locked ∧ s.dao.lockedDbRetryAmount < 3
          then CallPhase.queryTimeout else .queryReturned .locked).retryCall =
          if s.pool.amount < 3 then .waiting else .returned false := by
        by_cases hlt : s.dao.lockedDbRetryAmount < 3 <;>
          simp [pool, hlt, CallPhase.retryCall]
      rw [hend]
      exact hlock
  | ok => exact .settle true hcall
  | failed => exact .settle false hcall

theorem pool_finishRetry {q : ℕ} (h : s.step (.finishRetry q) = some s') :
    RetryBudget.Step 3 s.pool s'.pool := by
  obtain ⟨dao', hdao, rfl⟩ := Option.map_eq_some_iff.mp h
  obtain ⟨again, res, hphase, hagain, rfl⟩ := finishRetry_eq hdao
  have hcall : s.pool.call q = .retried again := by simp [pool, hphase, CallPhase.retryCall]
  have hcalled : s.pool.call again = .returned (res = .ok) := by
    simp [pool, hagain, CallPhase.retryCall]
  have hfinish : RetryBudget.Step 3 s.pool _ := .finish _ hcall hcalled
  unfold pool at hfinish ⊢
  simp only [Dao.goTo, retryCall_update]
  simpa [CallPhase.retryCall] using hfinish

/-- A step of the DAO is one of the pool of its queries, or the pool does not see it. -/
theorem pool_step (hs : s.dao.CallInv) (hpool : RetryBudget.Inv 3 s.pool) {a : DaoAction}
    (ha : s.Undisturbed a) (h : s.step a = some s') :
    RetryBudget.Step 3 s.pool s'.pool ∨ s'.pool = s.pool := by
  have hnext : s.dao.phase s.dao.next = .uncalled := by
    by_contra hcalled
    exact absurd (hs.called hcalled) (lt_irrefl _)
  have hfresh : (s.dao.phase s.dao.next).retryCall = .away := by rw [hnext]; rfl
  -- a change of phase that the retries do not see
  have hunseen : ∀ {c : ℕ} {p : CallPhase}, (s.dao.phase c).retryCall = p.retryCall →
      ({ s with dao := s.dao.goTo c p } : RetriedDao).pool = s.pool := by
    intro c p hp
    simp only [pool, Dao.goTo, retryCall_update_of_eq hp]
  have hstep := h
  obtain ⟨dao', hdao, rfl⟩ := Option.map_eq_some_iff.mp h
  cases Dao.moves_of_step hdao with
  | query =>
      left
      have hstart : RetryBudget.Step 3 s.pool _ := .start
      simp only [pool, Dao.query, Dao.goTo, retryCall_update]
      exact hstart
  | direct c forced => exact .inr rfl
  | runQuery res forced hphase _ => exact .inr (hunseen (by rw [hphase]; rfl))
  | settleQuery p hphase hp => exact .inl (pool_settleQuery hpool ha hstep)
  | @retryQuery q hphase =>
      left
      have hcall : s.pool.call q = .waiting := by simp [pool, hphase, CallPhase.retryCall]
      have hretry : RetryBudget.Step 3 s.pool _ := .retry hcall
      simp only [pool, Dao.query, Dao.goTo]
      rw [retryCall_update { s.dao with
        phase := Function.update s.dao.phase q (.queryRetried s.dao.next) }, retryCall_update]
      exact hretry
  | finishRetry amount hphase => exact .inl (pool_finishRetry hstep)
  | beginTrans =>
      left
      have hskip : RetryBudget.Step 3 s.pool _ := .skip
      simp only [pool, Dao.beginTrans, Dao.goTo, retryCall_update_of_eq
        (show (s.dao.phase s.dao.next).retryCall = (CallPhase.awaitsQueries _).retryCall
          from hfresh)]
      exact hskip
  | manageTransaction hphase _ =>
      left
      have hskip : RetryBudget.Step 3 s.pool _ := .skip
      simp only [pool, Dao.manageTransaction, Dao.goTo, retryCall_update_of_eq
        (show _ = (CallPhase.awaitsTransPromises _ _).retryCall by rw [hphase]; rfl)]
      exact hskip
  | proccesTrans hphase _ => exact .inr (hunseen (by rw [hphase]; rfl))
  | begin hphase _ => exact .inr (hunseen (by rw [hphase]; rfl))
  | commit hphase _ => exact .inr (hunseen (by rw [hphase]; rfl))
  | @throwIn t depth err hphase =>
      right
      rw [← hunseen (c := t) (p := .caught depth err) (by rw [hphase]; rfl)]
      unfold pool Dao.catchTrans
      split_ifs <;> rfl
  | @throwOut t depth err hphase =>
      right
      rw [← hunseen (c := t) (p := .caught depth err)
        (by rcases hphase with hphase | hphase <;> rw [hphase] <;> rfl)]
      unfold pool Dao.catchTrans
      split_ifs <;> rfl
  | rethrow p hphase hp =>
      exact .inr (hunseen (by rcases hp with rfl | rfl <;> rw [hphase] <;> rfl))
  | retryTrans hphase => exact .inr (hunseen (by rw [hphase]; rfl))
  | returnTrans amount hphase => exact .inr (hunseen (by rw [hphase]; rfl))
  | deleteTransactionPromise hphase => exact .inr (hunseen (by rw [hphase]; rfl))
  | settleTrans hphase => exact .inr (hunseen (by rw [hphase]; rfl))
  | deleteTransQuery hphase => exact .inr (hunseen (by rw [hphase]; rfl))

end Queries

section Transactions

variable {s s' : RetriedDao}

/-- A transaction that had retried has been rejected, and its retries stay counted. -/
def TransSpent (s : RetriedDao) : Prop :=
  ∃ c, 1 ≤ s.trxRetries c ∧ (s.dao.phase c).isRejected = true

structure TransInv (s : RetriedDao) : Prop where
  depth {t d} : (s.dao.phase t).depth? = some d → d = s.trxRetries t + 1
  queued {t} : (s.dao.phase t).isQueued = true → s.trxRetries t = 0
  caught {t d err} : s.dao.phase t = .caught d err → err ≠ .ok
  inside : s.TransSpent ∨ ∀ t d, (s.dao.phase t).depth? = some d →
    s.dao.lockedDbRetryInTrxAmount = s.trxRetries t ∧ s.dao.lockedDbRetryInTrxAmount ≤ 3 ∧
      (s.dao.phase t = .transTimeout d → s.dao.lockedDbRetryInTrxAmount < 3)
  outside : (∀ t, (s.dao.phase t).depth? = none) →
    s.TransSpent ∨ s.dao.lockedDbRetryInTrxAmount = 0

theorem TransInv.depth_step (hs : s.TransInv) {a : DaoAction} (h : s.step a = some s')
    {t d : ℕ} (ht : (s'.dao.phase t).depth? = some d) : d = s'.trxRetries t + 1 := by
  have hold : ∀ d, (s.dao.phase t).depth? = some d → d = s.trxRetries t + 1 :=
    fun _ => hs.depth
  have hqueued := hs.queued (t := t)
  obtain ⟨dao', hdao, rfl⟩ := Option.map_eq_some_iff.mp h
  cases Dao.moves_of_step hdao <;> grind [CallPhase.depth?, CallPhase.isQueued]

theorem TransInv.queued_step (hs : s.TransInv) {a : DaoAction} (h : s.step a = some s')
    (hdao : s.dao.CallInv) {t : ℕ} (ht : (s'.dao.phase t).isQueued = true) :
    s'.trxRetries t = 0 := by
  have hqueued := hs.queued (t := t)
  have hcalled := hdao.called (c := t)
  obtain ⟨dao', hdao', rfl⟩ := Option.map_eq_some_iff.mp h
  cases Dao.moves_of_step hdao' <;> grind [CallPhase.isQueued]

/-- Once spent, always spent. -/
theorem TransSpent.step (hs : s.TransSpent) {a : DaoAction} (h : s.step a = some s')
    (hinv : s.dao.CallInv) : s'.TransSpent := by
  obtain ⟨c, hpos, hrejected⟩ := hs
  refine ⟨c, ?_⟩
  have hcalled := hinv.called (c := c)
  obtain ⟨dao', hdao, rfl⟩ := Option.map_eq_some_iff.mp h
  cases Dao.moves_of_step hdao <;> grind [CallPhase.isRejected]

theorem TransInv.caught_step (hs : s.TransInv) {a : DaoAction} (h : s.step a = some s')
    {t d : ℕ} {err : Outcome} (ht : s'.dao.phase t = .caught d err) : err ≠ .ok := by
  have hold : ∀ d, s.dao.phase t = .caught d err → err ≠ .ok := fun _ => hs.caught
  obtain ⟨dao', hdao, rfl⟩ := Option.map_eq_some_iff.mp h
  have herr : ∀ {c err}, a = .throw c err → err ≠ .ok := by
    rintro c err rfl rfl
    simp only [Dao.step, if_true] at hdao
    split at hdao <;> cases hdao
  cases Dao.moves_of_step hdao <;> grind

theorem rethrow_eq {dao dao' : Dao} {t : ℕ} (h : dao.step (.rethrow t) = some dao') :
    ∃ depth err, dao.phase t = .caught depth err ∧ dao' = dao.goTo t
      (if err = .locked ∧ dao.lockedDbRetryInTrxAmount < 3 then .transTimeout depth
        else .transEnded err) := by
  simp only [Dao.step] at h
  split at h
  · rename_i depth err hphase
    exact ⟨depth, err, hphase, (Option.some.inj h).symm⟩
  · cases h

theorem returnTrans_eq {dao dao' : Dao} {t : ℕ} (h : dao.step (.returnTrans t) = some dao') :
    ∃ depth, dao.phase t = .afterTrans depth ∧ dao' = { dao.goTo t (.transEnded .ok) with
      lockedDbRetryInTrxAmount := if 1 < depth then 0 else dao.lockedDbRetryInTrxAmount } := by
  simp only [Dao.step] at h
  split at h
  · rename_i depth hphase
    exact ⟨depth, hphase, (Option.some.inj h).symm⟩
  · cases h

@[grind =] theorem lockedDbRetryInTrxAmount_goTo (dao : Dao) (c : ℕ) (p : CallPhase) :
    (dao.goTo c p).lockedDbRetryInTrxAmount = dao.lockedDbRetryInTrxAmount := rfl

@[grind =] theorem lockedDbRetryInTrxAmount_query (dao : Dao) :
    dao.query.lockedDbRetryInTrxAmount = dao.lockedDbRetryInTrxAmount := rfl

@[grind =] theorem lockedDbRetryInTrxAmount_beginTrans (dao : Dao) :
    dao.beginTrans.lockedDbRetryInTrxAmount = dao.lockedDbRetryInTrxAmount := rfl

@[grind =] theorem lockedDbRetryInTrxAmount_manageTransaction (dao : Dao) (t : ℕ) :
    (dao.manageTransaction t).lockedDbRetryInTrxAmount = dao.lockedDbRetryInTrxAmount := rfl

@[grind =] theorem lockedDbRetryInTrxAmount_catchTrans (dao : Dao) (t depth : ℕ)
    (isTransBegun : Bool) (err : Outcome) :
    (dao.catchTrans t depth isTransBegun err).lockedDbRetryInTrxAmount =
      dao.lockedDbRetryInTrxAmount := by
  unfold Dao.catchTrans
  split_ifs <;> rfl

/-- At most one transaction is inside. -/
theorem eq_of_depth {dao : Dao} (hdao : dao.CallInv) {t u d e : ℕ}
    (ht : (dao.phase t).depth? = some d) (hu : (dao.phase u).depth? = some e) : t = u := by
  have hinside : ∀ {p : CallPhase} {d : ℕ}, p.depth? = some d → p.place = .inside := by
    intro p d hp
    cases p <;> simp_all [CallPhase.depth?, CallPhase.place]
  exact hdao.eq_of_inside (hinside ht) (hinside hu)

theorem step_dao {a : DaoAction} (h : s.step a = some s') : s.dao.step a = some s'.dao := by
  obtain ⟨dao', hdao, rfl⟩ := Option.map_eq_some_iff.mp h
  rw [hdao]
  cases a <;> rfl

theorem trxRetries_step {a : DaoAction} (h : s.step a = some s') (c : ℕ) :
    s'.trxRetries c = if a = .retryTrans c then s.trxRetries c + 1 else s.trxRetries c := by
  obtain ⟨dao', hdao, rfl⟩ := Option.map_eq_some_iff.mp h
  cases a <;> simp only [reduceCtorEq, if_false, DaoAction.retryTrans.injEq, eq_comm]

theorem TransInv.inside_step (hs : s.TransInv) {a : DaoAction} (h : s.step a = some s')
    (hinv : s.dao.CallInv) (hinv' : s'.dao.CallInv) :
    s'.TransSpent ∨ ∀ t d, (s'.dao.phase t).depth? = some d →
      s'.dao.lockedDbRetryInTrxAmount = s'.trxRetries t ∧
        s'.dao.lockedDbRetryInTrxAmount ≤ 3 ∧
        (s'.dao.phase t = .transTimeout d → s'.dao.lockedDbRetryInTrxAmount < 3) := by
  by_cases hspent : s.TransSpent
  · exact .inl (hspent.step h hinv)
  right
  have hinside := hs.inside.resolve_left hspent
  have houtside := fun hnone => (hs.outside hnone).resolve_left hspent
  intro t d ht
  have hunique : ∀ u e, (s'.dao.phase u).depth? = some e → u = t :=
    fun _ _ hu => eq_of_depth hinv' hu ht
  have hdao := step_dao h
  have htrx := trxRetries_step h t
  cases a with
  | rethrow c =>
      obtain ⟨depth, err, hphase, heq⟩ := rethrow_eq hdao
      have hc := hinside c depth (by rw [hphase]; rfl)
      rw [heq] at ht ⊢
      grind [CallPhase.depth?]
  | returnTrans c =>
      obtain ⟨depth, hphase, heq⟩ := returnTrans_eq hdao
      have hc : (s.dao.phase c).depth? = some depth := by rw [hphase]; rfl
      have hunique' : ∀ u e, (s.dao.phase u).depth? = some e → u = c :=
        fun _ _ hu => eq_of_depth hinv hu hc
      rw [heq] at ht ⊢
      grind [CallPhase.depth?]
  | retryTrans c =>
      generalize s'.dao = dao' at *
      cases Dao.moves_of_step hdao with
      | @retryTrans _ depth hphase =>
          have hc := hinside c depth (by rw [hphase]; rfl)
          have htc := hunique c (depth + 1)
          grind [CallPhase.depth?]
  | proccesTrans c =>
      generalize s'.dao = dao' at *
      cases Dao.moves_of_step hdao with
      | proccesTrans hphase _ =>
          have htc := hunique c 1 (by rw [Dao.phase_goTo, if_pos rfl]; rfl)
          have hnone : ∀ u, (s.dao.phase u).depth? = none := by
            intro u
            by_contra hu
            obtain ⟨e, he⟩ := Option.ne_none_iff_exists'.mp hu
            have hne : u ≠ c := by
              rintro rfl
              rw [hphase] at he
              cases he
            exact hne ((hunique u e (by rwa [Dao.phase_goTo, if_neg hne])).trans htc.symm)
          have hzero := houtside hnone
          have hqueued := hs.queued (t := c) (by rw [hphase]; rfl)
          grind [CallPhase.depth?]
  | _ =>
      generalize s'.dao = dao' at *
      cases Dao.moves_of_step hdao <;> grind [CallPhase.depth?]

theorem TransInv.outside_step (hs : s.TransInv) {a : DaoAction} (h : s.step a = some s')
    (hinv : s.dao.CallInv) (hnone : ∀ t, (s'.dao.phase t).depth? = none) :
    s'.TransSpent ∨ s'.dao.lockedDbRetryInTrxAmount = 0 := by
  by_cases hspent : s.TransSpent
  · exact .inl (hspent.step h hinv)
  have hinside := hs.inside.resolve_left hspent
  have houtside := fun hnone => (hs.outside hnone).resolve_left hspent
  have hdao := step_dao h
  cases a with
  | rethrow c =>
      obtain ⟨depth, err, hphase, heq⟩ := rethrow_eq hdao
      have hc := hinside c depth (by rw [hphase]; rfl)
      have herr := hs.caught hphase
      have htrx := trxRetries_step h c
      have hcnone := hnone c
      by_cases hzero : s.trxRetries c = 0
      · right
        rw [heq]
        grind
      · left
        refine ⟨c, by grind, ?_⟩
        rw [heq] at hcnone ⊢
        grind [CallPhase.depth?, CallPhase.isRejected]
  | returnTrans c =>
      right
      obtain ⟨depth, hphase, heq⟩ := returnTrans_eq hdao
      have hc := hinside c depth (by rw [hphase]; rfl)
      have hdepth := hs.depth (t := c) (d := depth) (by rw [hphase]; rfl)
      rw [heq]
      grind [CallPhase.depth?]
  | _ =>
      right
      generalize s'.dao = dao' at *
      -- nobody leaves by these steps
      have hold : ∀ t, (s.dao.phase t).depth? = none := by
        intro t
        have ht := hnone t
        have hcalled := hinv.called (c := t)
        cases Dao.moves_of_step hdao <;> grind [CallPhase.depth?]
      have hzero := houtside hold
      cases Dao.moves_of_step hdao <;> grind [CallPhase.depth?]

theorem TransInv.step (hs : s.TransInv) {a : DaoAction} (h : s.step a = some s')
    (hinv : s.dao.CallInv) (hinv' : s'.dao.CallInv) : s'.TransInv where
  depth := hs.depth_step h
  queued := hs.queued_step h hinv
  caught := hs.caught_step h
  inside := hs.inside_step h hinv hinv'
  outside := hs.outside_step h hinv

theorem transInv_init : init.TransInv where
  depth h := absurd h nofun
  queued _ := rfl
  caught h := absurd h nofun
  inside := .inr fun _ _ h => absurd h nofun
  outside _ := .inr rfl

end Transactions

/-- What holds between two steps of an undisturbed run. -/
structure Inv (s : RetriedDao) : Prop where
  dao : s.dao.CallInv
  pool : RetryBudget.Inv 3 s.pool
  trans : s.TransInv

theorem inv_init : Inv init where
  dao := Dao.callInv_init
  pool := RetryBudget.inv_init 3 0
  trans := transInv_init

variable {s s' : RetriedDao}

theorem Inv.step (hs : s.Inv) {a : DaoAction} (ha : s.Undisturbed a) (h : s.step a = some s') :
    s'.Inv := by
  have hdao := hs.dao.step (step_dao h)
  refine ⟨hdao, ?_, hs.trans.step h hs.dao hdao⟩
  rcases pool_step hs.dao hs.pool ha h with hstep | hstay
  · exact hs.pool.step hstep
  · rw [hstay]
    exact hs.pool

theorem Inv.of_reachable (h : machine.Reachable Undisturbed s) : s.Inv := by
  apply h.invariant
  · rintro _ rfl
    exact inv_init
  · intro s a s' hs ha h
    exact hs.step ha h

theorem Inv.fullBudget_settleQuery (hs : s.Inv) {q : ℕ} (ha : s.Undisturbed (.settleQuery q)) :
    s.FullBudget (.settleQuery q) := by
  intro hphase s' h
  have hcall : s.pool.call q = .running := by simp [RetriedDao.pool, hphase, CallPhase.retryCall]
  have hturned := hs.pool.turned_away_iff hcall (undisturbed_pool hs.pool (ha hphase))
  obtain ⟨res, hres, heq⟩ := settleQuery_eq (step_dao h)
  rw [hphase] at hres
  cases hres
  have hnext : s'.dao.phase q = if s.dao.lockedDbRetryAmount < 3 then .queryTimeout
      else .queryReturned .locked := by
    rw [heq]
    simp [Dao.goTo]
  have hbudget : ¬ s.dao.lockedDbRetryAmount < 3 ↔ s.retries q = 3 := hturned
  rw [hnext, ← hbudget]
  split_ifs with hlt
  · simp [hlt]
  · simp [hlt]

theorem TransUndisturbed.not_spent (h : s.TransUndisturbed) (hs : s.dao.CallInv) :
    ¬ s.TransSpent := by
  rintro ⟨c, hpos, hrejected⟩
  have hcalled : s.dao.phase c ≠ .uncalled := by
    intro huncalled
    rw [huncalled] at hrejected
    cases hrejected
  rcases h c (hs.called hcalled) with hzero | hnot
  · omega
  · rw [hrejected] at hnot
    cases hnot

theorem Inv.fullBudget_rethrow (hs : s.Inv) {t : ℕ} (ha : s.Undisturbed (.rethrow t)) :
    s.FullBudget (.rethrow t) := by
  intro depth hphase s' h
  have hundisturbed := ha (by simp [hphase, CallPhase.isCaughtLocked])
  have hspent := hundisturbed.not_spent hs.dao
  have ht := hs.trans.inside.resolve_left hspent t depth (by rw [hphase]; rfl)
  obtain ⟨_, err, herr, heq⟩ := rethrow_eq (step_dao h)
  rw [hphase] at herr
  cases herr
  have hnext : s'.dao.phase t = if s.dao.lockedDbRetryInTrxAmount < 3 then .transTimeout depth
      else .transEnded .locked := by
    rw [heq]
    simp [Dao.goTo]
  rw [hnext]
  split_ifs with hlt
  · simp only [false_iff]
    omega
  · simp only [true_iff]
    omega

/-- As long as whoever meets a lock is undisturbed, everybody has three retries. -/
theorem full_budget_of_undisturbed (hs : machine.Reachable Undisturbed s) (a : DaoAction)
    (ha : s.Undisturbed a) : s.FullBudget a := by
  have hinv := Inv.of_reachable hs
  cases a with
  | settleQuery q => exact hinv.fullBudget_settleQuery ha
  | rethrow t => exact hinv.fullBudget_rethrow ha
  | _ => trivial

instance (s : RetriedDao) (q : ℕ) : Decidable (s.QueryUndisturbed q) :=
  inferInstanceAs (Decidable (∀ c < s.dao.next, s.root c ≠ s.root q → _))

instance (s : RetriedDao) : Decidable s.TransUndisturbed :=
  inferInstanceAs (Decidable (∀ c < s.dao.next, _))

instance (s : RetriedDao) (a : DaoAction) : Decidable (s.Undisturbed a) :=
  match a with
  | .settleQuery q => inferInstanceAs (Decidable (_ → s.QueryUndisturbed q))
  | .rethrow _ => inferInstanceAs (Decidable (_ → s.TransUndisturbed))
  | .query | .direct _ _ | .runQuery _ _ _ | .retryQuery _ | .finishRetry _ | .beginTrans
  | .manageTransaction _ | .proccesTrans _ | .begin _ | .commit _ | .throw _ _ | .retryTrans _
  | .returnTrans _ | .deleteTransactionPromise _ | .settleTrans _ | .deleteTransQuery _ =>
      inferInstanceAs (Decidable True)

namespace RetryWitness

/-- The steps of a query `q` that meets a lock and is retried as `again`. -/
def lockedQuery (q again : ℕ) : List DaoAction :=
  [.runQuery q .locked false, .settleQuery q, .retryQuery q, .runQuery again .ok false,
    .settleQuery again, .finishRetry q]

/-- Query 0 succeeds at its first retry, query 2 after all three. -/
def patient : List DaoAction :=
  .query :: lockedQuery 0 1 ++
    [.query, .runQuery 2 .locked false, .settleQuery 2, .retryQuery 2,
      .runQuery 3 .locked false, .settleQuery 3, .retryQuery 3,
      .runQuery 4 .locked false, .settleQuery 4, .retryQuery 4, .runQuery 5 .locked false]

def waited : RetriedDao := (machine.run Undisturbed init patient).get (by decide)

theorem reachable_waited : machine.Reachable Undisturbed waited :=
  (Machine.Reachable.init rfl).run (Option.some_get _).symm

theorem full_budget_waited : waited.retries 5 = 3 ∧ waited.FullBudget (.settleQuery 5) :=
  ⟨by decide, full_budget_of_undisturbed reachable_waited _ (by decide)⟩

/-- Query 0 is locked through all its retries, then comes query 4. -/
def starving : List DaoAction :=
  [.query, .runQuery 0 .locked false, .settleQuery 0, .retryQuery 0,
    .runQuery 1 .locked false, .settleQuery 1, .retryQuery 1,
    .runQuery 2 .locked false, .settleQuery 2, .retryQuery 2,
    .runQuery 3 .locked false, .settleQuery 3, .finishRetry 2, .finishRetry 1, .finishRetry 0,
    .query, .runQuery 4 .locked false]

def starved : RetriedDao :=
  (machine.run (fun s a => s.dao.Queued a) init starving).get (by decide)

/-- Query 4 is rejected at its first lock, without a retry. -/
theorem starved_query :
    ¬ ∀ s, machine.Reachable (fun s a => s.dao.Queued a) s →
      ∀ a, s.dao.Queued a → s.FullBudget a := by
  intro h
  have hreachable : machine.Reachable (fun s a => s.dao.Queued a) starved :=
    (Machine.Reachable.init rfl).run (Option.some_get _).symm
  have hfull := h starved hreachable (.settleQuery 4) trivial (by decide)
    ((starved.step (.settleQuery 4)).get (by decide)) (Option.some_get _).symm
  exact absurd (hfull.mp (by decide)) (by decide)

end RetryWitness

end RetriedDao

end ReportsFramework
