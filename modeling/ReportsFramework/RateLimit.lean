/-
The rate limit of the API methods: a call over the limit waits for a cool-down and is made
after it without another look at the limit.
-/
import Mathlib.Data.Int.Order.Basic
import Mathlib.Data.List.TakeWhile
import Mathlib.Logic.Function.Basic
import Mathlib.Tactic.SplitIfs
import ReportsFramework.Machine

namespace ReportsFramework

namespace BfxApiRouter

section Checker

structure RateLimitChecker where
  rateLimit : ℕ
  msPeriod : ℤ
  calls : List ℤ
deriving DecidableEq

namespace RateLimitChecker

/-- `null` and a missing limit give the default one. -/
def new (rateLimit : Option ℕ) : RateLimitChecker := ⟨rateLimit.getD 10, 60000, []⟩

def clearOldCalls (checker : RateLimitChecker) (mts : ℤ) : RateLimitChecker :=
  { checker with calls := checker.calls.dropWhile fun call =>
    call ≠ 0 && call < mts - checker.msPeriod }

def add (checker : RateLimitChecker) (now : ℤ) : RateLimitChecker :=
  { checker with calls := (checker.clearOldCalls now).calls ++ [now] }

/-- Whether the limit is reached, after old calls are cleared. -/
def check (checker : RateLimitChecker) (now : ℤ) : Bool :=
  (checker.clearOldCalls now).rateLimit ≤ (checker.clearOldCalls now).calls.length

end RateLimitChecker

/-- The requests within a period from some time on. -/
def requestsIn (requests : List ℤ) (start msPeriod : ℤ) : ℕ :=
  requests.countP fun mts => start ≤ mts && mts ≤ start + msPeriod

/-- What a checker knows of the requests: those it forgot are older than its period. -/
def RateLimitChecker.Covers (checker : RateLimitChecker) (now : ℤ) (requests : List ℤ) : Prop :=
  ∃ old, requests = old ++ checker.calls ∧ ∀ mts ∈ old, mts < now - checker.msPeriod

namespace RateLimitChecker

variable {checker : RateLimitChecker} {now now' : ℤ} {requests : List ℤ}

theorem covers_new (rateLimit : Option ℕ) : (new rateLimit).Covers now [] :=
  ⟨[], rfl, by simp⟩

theorem Covers.later (h : checker.Covers now requests) (hle : now ≤ now') :
    checker.Covers now' requests := by
  rcases h with ⟨old, heq, hold⟩
  refine ⟨old, heq, ?_⟩
  intro mts hmts
  have := hold mts hmts
  omega

theorem Covers.clearOldCalls (h : checker.Covers now requests) :
    (checker.clearOldCalls now).Covers now requests := by
  rcases h with ⟨old, heq, hold⟩
  refine ⟨old ++ checker.calls.takeWhile fun call =>
    call ≠ 0 && call < now - checker.msPeriod, ?_, ?_⟩
  · rw [List.append_assoc, RateLimitChecker.clearOldCalls, List.takeWhile_append_dropWhile]
    exact heq
  · intro mts hmts
    rcases List.mem_append.mp hmts with hmts | hmts
    · exact hold mts hmts
    · have := List.mem_takeWhile_imp hmts
      simp only [Bool.and_eq_true, decide_eq_true_eq] at this
      exact this.2

theorem Covers.add (h : checker.Covers now requests) :
    (checker.add now).Covers now (requests ++ [now]) := by
  rcases h.clearOldCalls with ⟨old, heq, hold⟩
  refine ⟨old, ?_, hold⟩
  rw [heq, List.append_assoc]
  rfl

/-- A request that the checker lets through keeps the limit. -/
theorem Covers.requestsIn_le {start : ℤ} (h : checker.Covers now requests)
    (hcheck : checker.check now = false) (hle : now ≤ now')
    (hlimit : requestsIn requests start checker.msPeriod ≤ checker.rateLimit) :
    requestsIn (requests ++ [now']) start checker.msPeriod ≤ checker.rateLimit := by
  unfold requestsIn at hlimit ⊢
  rw [List.countP_append, List.countP_singleton]
  by_cases hin : start ≤ now' ∧ now' ≤ start + checker.msPeriod
  · rcases h.clearOldCalls with ⟨old, heq, hold⟩
    have hlength : (checker.clearOldCalls now).calls.length < checker.rateLimit := by
      simpa [check, RateLimitChecker.clearOldCalls] using hcheck
    have hnone : old.countP (fun mts => start ≤ mts && mts ≤ start + checker.msPeriod) = 0 := by
      apply List.countP_eq_zero.mpr
      intro mts hmts
      have : mts < now - checker.msPeriod := hold mts hmts
      simp only [Bool.and_eq_true, decide_eq_true_eq]
      omega
    have hcalls := List.countP_le_length (l := (checker.clearOldCalls now).calls)
      (p := fun mts => start ≤ mts && mts ≤ start + checker.msPeriod)
    rw [heq, List.countP_append, hnone, if_pos (by simpa using hin)]
    omega
  · rw [if_neg (by simpa using hin)]
    exact hlimit

end RateLimitChecker

end Checker

section Router

/-- A call that waits for its cool-down. -/
structure Delayed where
  methodName : String
  due : ℤ
  hasInterrupter : Bool
deriving DecidableEq

/-- The checkers by method, the calls that wait, and the requests that were made. -/
structure Router where
  now : ℤ
  rateLimitCheckers : String → Option RateLimitChecker
  delayed : List Delayed
  requests : String → List ℤ

def rateLimitForMethodName : List (String × Option ℕ) :=
  [("generateToken", none), ("invalidateAuthToken", none), ("userInfo", some 90),
    ("symbols", some 90), ("futures", some 90), ("currencies", some 90),
    ("inactiveSymbols", some 90), ("conf", some 90), ("positionsSnapshot", some 90),
    ("getSettings", some 90), ("updateSettings", some 90), ("tickersHistory", some 30),
    ("positionsHistory", some 90), ("positions", some 90), ("positionsAudit", some 90),
    ("wallets", some 90), ("ledgers", some 90), ("accountTrades", some 90),
    ("fundingTrades", some 90), ("trades", some 10), ("statusMessages", some 90),
    ("candles", some 20), ("orderTrades", some 90), ("orderHistory", some 90),
    ("activeOrders", some 90), ("movements", some 90), ("movementInfo", some 90),
    ("fundingOfferHistory", some 90), ("fundingLoanHistory", some 90),
    ("fundingCreditHistory", some 90), ("accountSummary", some 90), ("logins", some 90),
    ("changeLogs", some 90), ("status", some 30)]

/-- The checker a method starts with. -/
def newChecker (methodName : String) : RateLimitChecker :=
  .new ((rateLimitForMethodName.lookup methodName).bind id)

/-- Calls without a name or with a private one are not limited. -/
def isLimited (methodName : String) : Bool :=
  methodName ≠ "" && methodName.toList.head? ≠ some '_'

namespace Router

variable (s : Router)

def checkerOf (methodName : String) : RateLimitChecker :=
  (s.rateLimitCheckers methodName).getD (newChecker methodName)

/-- The request is made. -/
def request (methodName : String) : Router :=
  { s with requests := Function.update s.requests methodName (s.requests methodName ++ [s.now]) }

def setChecker (methodName : String) (checker : RateLimitChecker) : Router :=
  { s with rateLimitCheckers := Function.update s.rateLimitCheckers methodName (some checker) }

/-- `rateLimitChecker.add()` and the method. -/
def addAndRequest (methodName : String) : Router :=
  (s.setChecker methodName ((s.checkerOf methodName).add s.now)).request methodName

/-- The clock between two steps. -/
def wait (ms : ℕ) : Router := { s with now := s.now + ms }

/-- A call: `check` clears the old calls, and `add` comes some time after it. -/
def route (coolDownDelayMs : ℤ) (methodName : String) (hasInterrupter : Bool) (ms : ℕ) : Router :=
  if !isLimited methodName then s.request methodName
  else
    let checked := s.setChecker methodName ((s.checkerOf methodName).clearOldCalls s.now)
    if (s.checkerOf methodName).check s.now then
      { checked with delayed := s.delayed ++
        [⟨methodName, s.now + coolDownDelayMs, hasInterrupter⟩] }
    else (checked.wait ms).addAndRequest methodName

/-- A delayed call goes on. -/
def resume (i : ℕ) (call : Delayed) : Router :=
  { s.addAndRequest call.methodName with delayed := s.delayed.eraseIdx i }

end Router

inductive Action
  | wait (ms : ℕ)
  | route (methodName : String) (hasInterrupter : Bool) (ms : ℕ)
  | timeout (i : ℕ)
  | interrupt (i : ℕ)
deriving DecidableEq

/-- The calls of the API, the timers of the cool-downs and the interruptions. -/
def machine (coolDownDelayMs : ℤ) : Machine Router Action where
  init s := s.rateLimitCheckers = (fun _ => none) ∧ s.delayed = [] ∧ s.requests = fun _ => []
  step s
    | .wait ms => some (s.wait ms)
    | .route methodName hasInterrupter ms =>
        some (s.route coolDownDelayMs methodName hasInterrupter ms)
    | .timeout i => (s.delayed[i]?).bind fun call =>
        if call.due ≤ s.now then some (s.resume i call) else none
    | .interrupt i => (s.delayed[i]?).bind fun call =>
        if call.hasInterrupter then some (s.resume i call) else none

/-- A delayed call goes on only while the limit of its method is not reached. -/
def resumesBelowLimit (s : Router) : Action → Bool
  | .timeout i | .interrupt i => (s.delayed[i]?).all fun call =>
      !(s.checkerOf call.methodName).check s.now
  | _ => true

/-- What is known of a limited method. -/
structure Router.Limited (s : Router) (methodName : String) : Prop where
  covers : (s.checkerOf methodName).Covers s.now (s.requests methodName)
  rateLimit : (s.checkerOf methodName).rateLimit = (newChecker methodName).rateLimit
  msPeriod : (s.checkerOf methodName).msPeriod = (newChecker methodName).msPeriod
  bound : ∀ start, requestsIn (s.requests methodName) start (newChecker methodName).msPeriod ≤
    (newChecker methodName).rateLimit

def Router.Inv (s : Router) : Prop :=
  (∀ methodName, isLimited methodName → s.Limited methodName) ∧
    ∀ call ∈ s.delayed, isLimited call.methodName

end Router

section Steps

variable {s : Router} {methodName methodName' : String}

theorem Router.Limited.wait (h : s.Limited methodName) (ms : ℕ) :
    (s.wait ms).Limited methodName := by
  refine ⟨h.covers.later ?_, h.rateLimit, h.msPeriod, h.bound⟩
  show s.now ≤ s.now + ms
  omega

theorem Router.checkerOf_setChecker (checker : RateLimitChecker) :
    (s.setChecker methodName checker).checkerOf methodName = checker := by
  simp [Router.setChecker, Router.checkerOf]

theorem Router.checkerOf_setChecker_of_ne (checker : RateLimitChecker)
    (hne : methodName' ≠ methodName) :
    (s.setChecker methodName checker).checkerOf methodName' = s.checkerOf methodName' := by
  simp [Router.setChecker, Router.checkerOf, hne]

theorem Router.Limited.clearOldCalls (h : s.Limited methodName') (methodName : String) :
    (s.setChecker methodName ((s.checkerOf methodName).clearOldCalls s.now)).Limited
      methodName' := by
  by_cases heq : methodName' = methodName
  · subst heq
    constructor
    · rw [Router.checkerOf_setChecker]
      exact h.covers.clearOldCalls
    · rw [Router.checkerOf_setChecker]
      exact h.rateLimit
    · rw [Router.checkerOf_setChecker]
      exact h.msPeriod
    · exact h.bound
  · constructor
    · rw [Router.checkerOf_setChecker_of_ne _ heq]
      exact h.covers
    · rw [Router.checkerOf_setChecker_of_ne _ heq]
      exact h.rateLimit
    · rw [Router.checkerOf_setChecker_of_ne _ heq]
      exact h.msPeriod
    · exact h.bound

/-- A request that is counted keeps what is known of the other methods, and of its own if
it keeps the limit. -/
theorem Router.Limited.addAndRequest (h : s.Limited methodName') (methodName : String)
    (hbound : methodName' = methodName → ∀ start,
      requestsIn (s.requests methodName ++ [s.now]) start (newChecker methodName).msPeriod ≤
        (newChecker methodName).rateLimit) :
    (s.addAndRequest methodName).Limited methodName' := by
  have hchecker : ∀ m, (s.addAndRequest methodName).checkerOf m =
      (s.setChecker methodName ((s.checkerOf methodName).add s.now)).checkerOf m := fun _ => rfl
  by_cases heq : methodName' = methodName
  · subst heq
    have hrequests : (s.addAndRequest methodName').requests methodName' =
        s.requests methodName' ++ [s.now] := by
      simp [Router.addAndRequest, Router.request, Router.setChecker]
    constructor
    · rw [hchecker, Router.checkerOf_setChecker, hrequests]
      exact h.covers.add
    · rw [hchecker, Router.checkerOf_setChecker]
      exact h.rateLimit
    · rw [hchecker, Router.checkerOf_setChecker]
      exact h.msPeriod
    · rw [hrequests]
      exact hbound rfl
  · have hrequests : (s.addAndRequest methodName).requests methodName' =
        s.requests methodName' := by
      simp [Router.addAndRequest, Router.request, Router.setChecker, heq]
    constructor
    · rw [hchecker, Router.checkerOf_setChecker_of_ne _ heq, hrequests]
      exact h.covers
    · rw [hchecker, Router.checkerOf_setChecker_of_ne _ heq]
      exact h.rateLimit
    · rw [hchecker, Router.checkerOf_setChecker_of_ne _ heq]
      exact h.msPeriod
    · rw [hrequests]
      exact h.bound

/-- A checker that lets a request through, at once or later, keeps the limit. -/
theorem Router.Limited.requestsIn_le (h : s.Limited methodName)
    (hcheck : (s.checkerOf methodName).check s.now = false) (ms : ℕ) (start : ℤ) :
    requestsIn (s.requests methodName ++ [s.now + ms]) start (newChecker methodName).msPeriod ≤
      (newChecker methodName).rateLimit := by
  have hbound := h.bound start
  rw [← h.msPeriod, ← h.rateLimit] at hbound ⊢
  exact h.covers.requestsIn_le hcheck (by omega) hbound

theorem inv_route (coolDownDelayMs : ℤ) (h : s.Inv) (methodName : String)
    (hasInterrupter : Bool) (ms : ℕ) :
    (s.route coolDownDelayMs methodName hasInterrupter ms).Inv := by
  unfold Router.route
  by_cases hlimited : isLimited methodName = true
  · rw [if_neg (by simpa using hlimited)]
    by_cases hcheck : (s.checkerOf methodName).check s.now = true
    · simp only [hcheck, if_true]
      constructor
      · intro methodName' hlimited'
        have hkept := (h.1 methodName' hlimited').clearOldCalls methodName
        exact ⟨hkept.covers, hkept.rateLimit, hkept.msPeriod, hkept.bound⟩
      · intro call hcall
        rcases List.mem_append.mp hcall with hcall | hcall
        · exact h.2 call hcall
        · rw [List.mem_singleton.mp hcall]
          exact hlimited
    · simp only [hcheck]
      constructor
      · intro methodName' hlimited'
        apply (((h.1 methodName' hlimited').clearOldCalls methodName).wait ms).addAndRequest
        intro _ start
        exact (h.1 methodName hlimited).requestsIn_le (by simpa using hcheck) ms start
      · exact h.2
  · rw [if_pos (by simpa using hlimited)]
    constructor
    · intro methodName' hlimited'
      have hne : methodName' ≠ methodName := fun heq => hlimited (heq ▸ hlimited')
      have hkept := h.1 methodName' hlimited'
      have hrequests : (s.request methodName).requests methodName' = s.requests methodName' := by
        simp [Router.request, hne]
      refine ⟨?_, hkept.rateLimit, hkept.msPeriod, ?_⟩
      · rw [hrequests]
        exact hkept.covers
      · rw [hrequests]
        exact hkept.bound
    · exact h.2

theorem inv_resume (h : s.Inv) {i : ℕ} {call : Delayed} (hcall : s.delayed[i]? = some call)
    (hcheck : (s.checkerOf call.methodName).check s.now = false) : (s.resume i call).Inv := by
  have hlimited := h.2 call (List.mem_of_getElem? hcall)
  constructor
  · intro methodName hlimited'
    have hkept := (h.1 methodName hlimited').addAndRequest call.methodName (by
      intro _ start
      have := (h.1 call.methodName hlimited).requestsIn_le hcheck 0 start
      simpa using this)
    exact ⟨hkept.covers, hkept.rateLimit, hkept.msPeriod, hkept.bound⟩
  · intro call' hcall'
    exact h.2 call' (List.mem_of_mem_eraseIdx hcall')

theorem inv_of_reachable {coolDownDelayMs : ℤ}
    (h : (machine coolDownDelayMs).Reachable (resumesBelowLimit · ·) s) : s.Inv := by
  apply h.invariant
  · rintro s ⟨hcheckers, hdelayed, hrequests⟩
    constructor
    · intro methodName _
      have hchecker : s.checkerOf methodName = newChecker methodName := by
        rw [Router.checkerOf, hcheckers]
        rfl
      refine ⟨?_, congrArg _ hchecker, congrArg _ hchecker, ?_⟩
      · rw [hchecker, hrequests]
        exact RateLimitChecker.covers_new _
      · intro start
        rw [hrequests]
        exact Nat.zero_le _
    · simp [hdelayed]
  · intro s a s' hinv hcondition hstep
    cases a with
    | wait ms =>
      obtain rfl := Option.some.inj hstep
      exact ⟨fun methodName hlimited => (hinv.1 methodName hlimited).wait ms, hinv.2⟩
    | route methodName hasInterrupter ms =>
      obtain rfl := Option.some.inj hstep
      exact inv_route coolDownDelayMs hinv methodName hasInterrupter ms
    | timeout i =>
      rcases Option.bind_eq_some_iff.mp hstep with ⟨call, hcall, hdue⟩
      simp only [resumesBelowLimit, hcall, Option.all_some, Bool.not_eq_true'] at hcondition
      obtain rfl := Option.some.inj (Option.ite_none_right_eq_some.mp hdue).2
      exact inv_resume hinv hcall hcondition
    | interrupt i =>
      rcases Option.bind_eq_some_iff.mp hstep with ⟨call, hcall, hinterrupted⟩
      simp only [resumesBelowLimit, hcall, Option.all_some, Bool.not_eq_true'] at hcondition
      obtain rfl := Option.some.inj (Option.ite_none_right_eq_some.mp hinterrupted).2
      exact inv_resume hinv hcall hcondition

/-- In every run whose delayed calls go on below the limit, no period holds more requests of
a limited method than its limit. -/
theorem requests_limited {coolDownDelayMs : ℤ}
    (h : (machine coolDownDelayMs).Reachable (resumesBelowLimit · ·) s)
    (hlimited : isLimited methodName) (start : ℤ) :
    requestsIn (s.requests methodName) start (newChecker methodName).msPeriod ≤
      (newChecker methodName).rateLimit :=
  ((inv_of_reachable h).1 methodName hlimited).bound start

end Steps

namespace TradesWitness

/-- A process that has just started. -/
def start : Router := ⟨1, fun _ => none, [], fun _ => []⟩

def call : Action := .route "trades" false 0

theorem reachable_start (p : Router → Action → Prop) : (machine 60000).Reachable p start :=
  .init ⟨rfl, rfl, rfl⟩

/-- Eleven calls at once, the last of which goes on after its cool-down. -/
def lateCall : List Action := List.replicate 11 call ++ [.wait 60001, .timeout 0]

theorem requests_limited_of_lateCall :
    ∃ s, (machine 60000).Reachable (resumesBelowLimit · ·) s ∧
      (s.requests "trades").length = 11 ∧
        requestsIn (s.requests "trades") 1 (newChecker "trades").msPeriod ≤
          (newChecker "trades").rateLimit := by
  have hrun : ((machine 60000).run (resumesBelowLimit · ·) start lateCall).any
      (fun s => (s.requests "trades").length = 11) = true := by decide +kernel
  obtain ⟨s, hs, hlength⟩ := (Option.any_eq_true _ _).mp hrun
  have hreachable := (reachable_start (resumesBelowLimit · ·)).run hs
  exact ⟨s, hreachable, of_decide_eq_true hlength, requests_limited hreachable (by decide) 1⟩

/-- Ten calls are made at once, and eleven more go on together a minute later. -/
def burst : List Action :=
  List.replicate 21 call ++ .wait 60000 :: List.replicate 11 (.timeout 0)

theorem delayed_calls_over_limit :
    ∃ s, (machine 60000).Reachable Machine.free s ∧
      ¬ ∀ start, requestsIn (s.requests "trades") start (newChecker "trades").msPeriod ≤
        (newChecker "trades").rateLimit := by
  have hrun : ((machine 60000).run Machine.free start burst).any
      (fun s => (newChecker "trades").rateLimit <
        requestsIn (s.requests "trades") 60001 (newChecker "trades").msPeriod) = true := by
    decide +kernel
  obtain ⟨s, hs, hover⟩ := (Option.any_eq_true _ _).mp hrun
  refine ⟨s, (reachable_start Machine.free).run hs, ?_⟩
  intro hall
  exact absurd (of_decide_eq_true hover) (not_lt_of_ge (hall 60001))

end TradesWitness

end BfxApiRouter

end ReportsFramework
