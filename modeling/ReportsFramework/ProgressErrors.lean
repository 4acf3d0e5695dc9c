/-
`setProgress` over a run: what it records, and what the pattern that error texts are tested with
keeps from one call to the next.
-/
import Mathlib.Data.Rat.Defs
import Mathlib.Algebra.Order.Ring.Rat
import Mathlib.Tactic.SplitIfs
import ReportsFramework.JsString

namespace ReportsFramework

namespace ProgressErrors

/-- What `setProgress` is called with; a number is `none` where it is not finite. -/
inductive ProgressArg
  | num (x : Option ℚ)
  | str (s : String)
  | error (statusMessage : Option String) (text : String)
  | other
deriving DecidableEq, Repr

section Pattern

def lowerUnit (unit : ℕ) : ℕ := if 65 ≤ unit ∧ unit ≤ 90 then unit + 32 else unit

/-- The length of the match of `/(error)|(ERR_)/i` that begins a text. -/
def matchLength (units : List ℕ) : Option ℕ :=
  if (units.map lowerUnit).take 5 = Js.utf16 "error" then some 5
  else if (units.map lowerUnit).take 4 = Js.utf16 "err_" then some 4
  else none

/-- Where the first match ends; `i` is the position of the units. -/
def findMatch : List ℕ → ℕ → Option ℕ
  | [], _ => none
  | unit :: units, i =>
      match matchLength (unit :: units) with
      | some length => some (i + length)
      | none => findMatch units (i + 1)

/-- `errorRegExp.test`: with the flag `g` it begins at `lastIndex`, and leaves there where the match
ends. -/
def errorRegExpTest (lastIndex : ℕ) (s : String) : Bool × ℕ :=
  match findMatch ((Js.utf16 s).drop lastIndex) lastIndex with
  | some lastIndex => (true, lastIndex)
  | none => (false, 0)

end Pattern

section Progress

def initialProgress : String := "SYNCHRONIZATION_HAS_NOT_BEEN_STARTED_YET"

def activeProgress : String := "SYNCHRONIZATION_IS_STARTED"

def finishedProgress : String := "SYNCHRONIZATION_IS_FINISHED"

def interruptedProgress : String := "SYNCHRONIZATION_HAS_BEEN_INTERRUPTED"

def availableSyncProgressStates : List String :=
  [initialProgress, activeProgress, finishedProgress, interruptedProgress]

/-- What is sent to the parent process. -/
inductive SyncMessage
  | errorSync
  | readySync (isFinished isInterrupted : Bool)
deriving DecidableEq, Repr

/-- What a call records. -/
structure ProgressRecord where
  value : Option ℚ
  error : Option String
  state : Option String
deriving DecidableEq, Repr

structure ProgressState extends ProgressRecord where
  hasNotProgressChanged : Bool
  sent : List SyncMessage
  /-- Of the pattern, which all calls share. -/
  lastIndex : ℕ
deriving DecidableEq, Repr

def ProgressState.init : ProgressState :=
  { value := none, error := none, state := none, hasNotProgressChanged := true, sent := [],
    lastIndex := 0 }

/-- `_isError`, with what is left at the pattern. -/
def isError (lastIndex : ℕ) : ProgressArg → Bool × ℕ
  | .error _ _ => (true, lastIndex)
  | .str s => errorRegExpTest lastIndex s
  | _ => (false, lastIndex)

/-- `_isState` -/
def isState : ProgressArg → Bool
  | .str s => availableSyncProgressStates.contains s
  | _ => false

/-- `progress.statusMessage ?? progress.toString()`, which only errors come to. -/
def errorText : ProgressArg → Option String
  | .error statusMessage text => some (statusMessage.getD text)
  | .str s => some s
  | _ => none

def finite : ProgressArg → Option ℚ
  | .num x => x
  | _ => none

/-- `_getSyncProgressState` -/
def getSyncProgressState (progress : ProgressArg) (isState isError : Bool) : Option String :=
  if isState then
    match progress with
    | .str s => some s
    | _ => none
  else if isError then none
  else if (finite progress).any (100 ≤ ·) then some finishedProgress
  else some activeProgress

/-- `_sendSyncCompletionStateByIPC` -/
def syncCompletionMessages (isError : Bool) (state : Option String) : List SyncMessage :=
  let isFinished := decide (state = some finishedProgress)
  let isInterrupted := decide (state = some interruptedProgress)
  if isError then [.errorSync]
  else if !isFinished && !isInterrupted then []
  else [.readySync isFinished isInterrupted]

def recordOf (progress : ProgressArg) (isError : Bool) : ProgressRecord where
  value := finite progress
  error := if isError then errorText progress else none
  state := getSyncProgressState progress (isState progress) isError

def setProgress (s : ProgressState) (progress : ProgressArg) : ProgressState :=
  let tested := isError s.lastIndex progress
  let record := recordOf progress tested.1
  { toProgressRecord := record
    hasNotProgressChanged :=
      tested.1 && s.error ≠ record.error ||
        (finite progress).isSome && s.value ≠ record.value ||
        isState progress && s.state ≠ record.state
    sent := s.sent ++ syncCompletionMessages tested.1 record.state
    lastIndex := tested.2 }

def run (s : ProgressState) (calls : List ProgressArg) : ProgressState :=
  calls.foldl setProgress s

end Progress

/-- A text has an error word, but none from where the pattern begins. -/
def Misses (s : ProgressState) (progress : ProgressArg) : Prop :=
  (isError 0 progress).1 = true ∧ (isError s.lastIndex progress).1 = false

instance (s : ProgressState) (progress : ProgressArg) : Decidable (Misses s progress) :=
  inferInstanceAs (Decidable (_ ∧ _))

section Proof

variable {s : ProgressState} {progress : ProgressArg}

/-- A match in the rest of a text is one in the text. -/
theorem findMatch_of_drop {units : List ℕ} {n i : ℕ} (j : ℕ)
    (h : (findMatch (units.drop n) i).isSome = true) : (findMatch units j).isSome = true := by
  induction units generalizing n i j with
  | nil =>
    rw [List.drop_nil] at h
    cases h
  | cons unit units ih =>
    rw [findMatch]
    cases hlength : matchLength (unit :: units) with
    | some length => rfl
    | none =>
      cases n with
      | zero =>
        rw [List.drop_zero, findMatch, hlength] at h
        exact @ih 0 (i + 1) (j + 1) h
      | succ n => exact ih (j + 1) h

/-- An argument that is an error for the pattern as it stands is one for a fresh pattern. -/
theorem isError_zero_of_isError {lastIndex : ℕ} (h : (isError lastIndex progress).1 = true) :
    (isError 0 progress).1 = true := by
  cases progress with
  | str s =>
    simp only [isError, errorRegExpTest] at h ⊢
    have hsome : (findMatch ((Js.utf16 s).drop lastIndex) lastIndex).isSome = true := by
      cases hmatch : findMatch ((Js.utf16 s).drop lastIndex) lastIndex with
      | some length => rfl
      | none =>
        rw [hmatch] at h
        cases h
    obtain ⟨length, hlength⟩ := Option.isSome_iff_exists.mp (findMatch_of_drop 0 hsome)
    rw [List.drop_zero, hlength]
  | error statusMessage text => rfl
  | num x => cases h
  | other => cases h

theorem isError_eq (s : ProgressState) (progress : ProgressArg) :
    (isError s.lastIndex progress).1 =
      (decide (¬ Misses s progress) && (isError 0 progress).1) := by
  by_cases h : Misses s progress
  · simp [h, h.2]
  · rw [decide_eq_true h, Bool.true_and]
    cases hnow : (isError s.lastIndex progress).1 with
    | true => rw [isError_zero_of_isError hnow]
    | false =>
      cases hfresh : (isError 0 progress).1 with
      | true => exact absurd ⟨hfresh, hnow⟩ h
      | false => rfl

/-- What a call records. -/
theorem setProgress_record (s : ProgressState) (progress : ProgressArg) :
    (setProgress s progress).toProgressRecord =
      recordOf progress (decide (¬ Misses s progress) && (isError 0 progress).1) := by
  rw [← isError_eq]
  rfl

/-- An error that is recorded as one is not what is recorded otherwise. -/
theorem recordOf_ne (h : (isError 0 progress).1 = true) :
    recordOf progress true ≠ recordOf progress false := by
  intro heq
  have herror := congrArg ProgressRecord.error heq
  cases progress with
  | str s => cases herror
  | error statusMessage text => cases herror
  | num x => cases h
  | other => cases h

theorem run_concat (calls : List ProgressArg) :
    run .init (calls ++ [progress]) = setProgress (run .init calls) progress := by
  rw [run, List.foldl_append]
  rfl

/-- Behind any two histories the same call records the same if and only if the pattern misses an
error word of its argument in both or in none.  In a run without a miss every call records what its
argument says. -/
theorem setProgress_history (calls : List ProgressArg) :
    (∀ (calls' : List ProgressArg) (progress : ProgressArg),
      (run .init (calls ++ [progress])).toProgressRecord =
          (run .init (calls' ++ [progress])).toProgressRecord ↔
        (Misses (run .init calls) progress ↔ Misses (run .init calls') progress)) ∧
      ((∀ before progress after, calls = before ++ progress :: after →
          ¬ Misses (run .init before) progress) →
        ∀ before progress after, calls = before ++ progress :: after →
          (run .init (before ++ [progress])).toProgressRecord =
            recordOf progress (isError 0 progress).1) := by
  constructor
  · intro calls' progress
    rw [run_concat, run_concat, setProgress_record, setProgress_record]
    by_cases h : Misses (run .init calls) progress
    · by_cases h' : Misses (run .init calls') progress
      · simp [h, h']
      · have hne := recordOf_ne h.1
        simp [h, h', h.1, hne.symm]
    · by_cases h' : Misses (run .init calls') progress
      · have hne := recordOf_ne h'.1
        simp [h, h', h'.1, hne]
      · simp [h, h']
  · intro hmiss before progress after hcalls
    rw [run_concat, setProgress_record]
    simp [hmiss before progress after hcalls]

end Proof

namespace ProgressWitness

/-- The code that an unauthorised synchronisation ends with. -/
def unauth : ProgressArg := .str "ERR_AUTH_UNAUTHORIZED"

/-- After the code and a number, and after the number alone, the progress is the same, but the code
is recorded as an error behind the second history only. -/
theorem unauth_forgotten :
    (run .init ([unauth, .num (some 7)] ++ [unauth])).toProgressRecord =
        ⟨none, none, some activeProgress⟩ ∧
      (run .init ([.num (some 7)] ++ [unauth])).toProgressRecord =
        ⟨none, some "ERR_AUTH_UNAUTHORIZED", none⟩ ∧
      ¬ ∀ (calls calls' : List ProgressArg) (progress : ProgressArg),
        (run .init calls).toProgressRecord = (run .init calls').toProgressRecord →
        (run .init calls).hasNotProgressChanged = (run .init calls').hasNotProgressChanged →
        (run .init (calls ++ [progress])).toProgressRecord =
          (run .init (calls' ++ [progress])).toProgressRecord := by
  have hforgotten : (run .init ([unauth, .num (some 7)] ++ [unauth])).toProgressRecord =
      ⟨none, none, some activeProgress⟩ := by decide +kernel
  have hrecorded : (run .init ([.num (some 7)] ++ [unauth])).toProgressRecord =
      ⟨none, some "ERR_AUTH_UNAUTHORIZED", none⟩ := by decide +kernel
  refine ⟨hforgotten, hrecorded, fun hall => ?_⟩
  have hsame := hall [unauth, .num (some 7)] [.num (some 7)] unauth (by decide +kernel)
    (by decide +kernel)
  rw [hforgotten, hrecorded] at hsame
  cases hsame

/-- A number, an error text, and a number. -/
theorem recorded_without_miss :
    (run .init ([.num (some 7)] ++ [unauth])).toProgressRecord =
      recordOf unauth (isError 0 unauth).1 := by
  apply (setProgress_history [.num (some 7), unauth, .num (some 8)]).2 _ [.num (some 7)] unauth
    [.num (some 8)] rfl
  intro before progress after hcalls
  rcases before with _ | ⟨first, _ | ⟨second, _ | ⟨third, before⟩⟩⟩
  · cases hcalls
    decide +kernel
  · cases hcalls
    decide +kernel
  · cases hcalls
    decide +kernel
  · have hlength := congrArg List.length hcalls
    simp only [List.length_append, List.length_cons, List.length_nil] at hlength
    omega

end ProgressWitness

end ProgressErrors

end ReportsFramework
