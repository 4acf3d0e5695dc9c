/-
The jobs that wait for messages of the parent process: they stand in one queue a state, each
with the place it had when it was pushed, and the queue is spliced while it is walked.
-/
import Mathlib.Data.List.Nodup
import Mathlib.Logic.Function.Basic
import ReportsFramework.Machine

namespace ReportsFramework

namespace ProcessMessageManager

/-- `PROCESS_STATES`. -/
inductive ProcessState
  | clearAllTables
  | removeAllTables
  | restoreDb
  | backupDb
  | prepareDb
  | responseMigrationHasFailedWhatShouldBeDone
  | requestGetBackupFilesMetadata
  | requestUpdateUsersSyncOnStartupRequiredState
  | responsePdfCreation
deriving DecidableEq

variable {ε δ : Type}

/-- A check handler, or none; it gets the error and the data of a message. -/
abbrev CheckHandler (ε δ : Type) := Option (Option ε → Option δ → Bool)

def CheckHandler.accepts (checkHandler : CheckHandler ε δ) (err : Option ε) (data : Option δ) :
    Bool :=
  checkHandler.all fun check => check err data

/-- An error rejects the promise of a job, data resolve it. -/
abbrev Outcome (ε δ : Type) := Except ε (Option δ)

def outcomeOf (err : Option ε) (data : Option δ) : Outcome ε δ :=
  err.elim (.ok data) .error

/-- A job, with the calls of its `resolve` and `reject` so far. -/
structure Job (ε δ : Type) where
  state : ProcessState
  checkHandler : CheckHandler ε δ
  index : Option ℕ
  hasTriggered : Bool
  hasClosed : Bool
  settled : List (Outcome ε δ)

/-- A message whose handler runs, with the error that the handler threw before. -/
structure Message (ε δ : Type) where
  state : ProcessState
  err : Option ε
  data : Option δ

/-- The jobs in the order of their registration, and the queues of those that wait. -/
structure Manager (ε δ : Type) where
  jobs : List (Job ε δ)
  queues : ProcessState → List ℕ
  handling : List (Message ε δ)

namespace Manager

variable (s : Manager ε δ)

def addStateToWait (state : ProcessState) (checkHandler : CheckHandler ε δ) : Manager ε δ :=
  { s with
    jobs := s.jobs ++ [⟨state, checkHandler, some (s.queues state).length, false, false, []⟩]
    queues := Function.update s.queues state (s.queues state ++ [s.jobs.length]) }

/-- A job is closed once; it is spliced from the place it remembers. -/
def close (id : ℕ) (err : Option ε) (data : Option δ) : Manager ε δ :=
  match s.jobs[id]? with
  | none => s
  | some job =>
      if job.hasClosed || !job.checkHandler.accepts err data then s
      else
        { s with
          jobs := s.jobs.modify id fun job => { job with
            index := none
            hasClosed := true
            settled := job.settled ++ [outcomeOf err data] }
          queues := Function.update s.queues job.state
            (job.index.elim (s.queues job.state) (s.queues job.state).eraseIdx) }

/-- The walk over the queue, which may lose elements on the way. -/
def closeFrom (state : ProcessState) (err : Option ε) (data : Option δ) :
    ℕ → ℕ → Manager ε δ → Manager ε δ
  | 0, _, s => s
  | left + 1, i, s =>
      match (s.queues state)[i]? with
      | none => s
      | some id => closeFrom state err data left (i + 1) (s.close id err data)

/-- `close(err)`, or `close(null, data)`. -/
def processQueuePromises (state : ProcessState) (err : Option ε) (data : Option δ) :
    Manager ε δ :=
  closeFrom state err (if err.isSome then none else data) (s.queues state).length 0 s

/-- The handler of a message starts. -/
def trigger (state : ProcessState) : Manager ε δ :=
  { s with
    jobs := (s.queues state).foldl
      (fun jobs id => jobs.modify id fun job => { job with hasTriggered := true }) s.jobs }

end Manager

inductive Action (ε δ : Type)
  | addStateToWait (state : ProcessState) (checkHandler : CheckHandler ε δ)
  | message (state : ProcessState) (data : Option δ)
  | handled (i : ℕ) (thrown : Option ε)
  | close (id : ℕ) (err : Option ε) (data : Option δ)

/-- What a message leads to once its handler is done: the jobs are closed; an error of the
handler is handled like a message of its own, and one of that handling ends it. -/
def Manager.handled (s : Manager ε δ) (i : ℕ) (mess : Message ε δ) (thrown : Option ε) :
    Manager ε δ :=
  match thrown with
  | none =>
      { s.processQueuePromises mess.state mess.err mess.data with
        handling := s.handling.eraseIdx i }
  | some err =>
      if mess.err.isSome then { s with handling := s.handling.eraseIdx i }
      else { s.trigger mess.state with handling := s.handling.set i { mess with err := some err } }

/-- The registrations, the messages and the owners that close their jobs, in any order. -/
def machine (ε δ : Type) : Machine (Manager ε δ) (Action ε δ) where
  init s := s = ⟨[], fun _ => [], []⟩
  step s
    | .addStateToWait state checkHandler => some (s.addStateToWait state checkHandler)
    | .message state data =>
        some { s.trigger state with handling := s.handling ++ [⟨state, none, data⟩] }
    | .handled i thrown => s.handling[i]?.map fun mess => s.handled i mess thrown
    | .close id err data => some (s.close id err data)

section Spec

/-- A registration, and how it was settled. -/
structure Wait (ε δ : Type) where
  state : ProcessState
  checkHandler : CheckHandler ε δ
  settled : Option (Outcome ε δ)

/-- It waits for the state, and accepts the message. -/
def Wait.awaits (wait : Wait ε δ) (err : Option ε) (data : Option δ) : Bool :=
  wait.settled.isNone && wait.checkHandler.accepts err data

def Wait.settle (err : Option ε) (data : Option δ) (wait : Wait ε δ) : Wait ε δ :=
  if wait.awaits err data then { wait with settled := some (outcomeOf err data) } else wait

/-- What the manager is for: registrations that are settled by the first message of their
state that they accept. -/
structure Waits (ε δ : Type) where
  waits : List (Wait ε δ)
  handling : List (Message ε δ)

/-- A message settles every registration of its state that waits and accepts it. -/
def Waits.handled (t : Waits ε δ) (i : ℕ) (mess : Message ε δ) (thrown : Option ε) : Waits ε δ :=
  match thrown with
  | none =>
      { waits := t.waits.map fun wait => if wait.state = mess.state then
          wait.settle mess.err (if mess.err.isSome then none else mess.data) else wait
        handling := t.handling.eraseIdx i }
  | some err =>
      if mess.err.isSome then { t with handling := t.handling.eraseIdx i }
      else { t with handling := t.handling.set i { mess with err := some err } }

def Waits.step (t : Waits ε δ) : Action ε δ → Option (Waits ε δ)
  | .addStateToWait state checkHandler =>
      some { t with waits := t.waits ++ [⟨state, checkHandler, none⟩] }
  | .message state data => some { t with handling := t.handling ++ [⟨state, none, data⟩] }
  | .handled i thrown => t.handling[i]?.map fun mess => t.handled i mess thrown
  | .close id err data => some { t with waits := t.waits.modify id (Wait.settle err data) }

def spec (ε δ : Type) : Machine (Waits ε δ) (Action ε δ) where
  init t := t = ⟨[], []⟩
  step := Waits.step

/-- The registrations that still wait for a state. -/
def pendingIds (waits : List (Wait ε δ)) (state : ProcessState) : List ℕ :=
  (List.range waits.length).filter fun id =>
    waits[id]?.any fun wait => wait.state = state && wait.settled.isNone

/-- A job stands for a registration: it was settled as often and in the same way. -/
def Job.Is (job : Job ε δ) (wait : Wait ε δ) : Prop :=
  job.state = wait.state ∧ job.checkHandler = wait.checkHandler ∧
    job.settled = wait.settled.toList ∧ job.hasClosed = wait.settled.isSome

/-- Every job was settled as its registration, and the queues hold just those that wait. -/
structure Refines (s : Manager ε δ) (t : Waits ε δ) : Prop where
  length : s.jobs.length = t.waits.length
  jobs : ∀ (id : ℕ) (job : Job ε δ) (wait : Wait ε δ), s.jobs[id]? = some job →
    t.waits[id]? = some wait → job.Is wait
  queues : ∀ state, s.queues state = pendingIds t.waits state
  handling : s.handling = t.handling

end Spec

section Condition

/-- A job that is in the place it remembers. -/
def Manager.isInPlace (s : Manager ε δ) (id : ℕ) : Bool :=
  s.jobs[id]?.any fun job => (job.index.bind ((s.queues job.state)[·]?)) = some id

/-- A job that a message or its owner would close. -/
def Manager.accepts (s : Manager ε δ) (err : Option ε) (data : Option δ) (id : ℕ) : Bool :=
  s.jobs[id]?.any fun job => !job.hasClosed && job.checkHandler.accepts err data

/-- At most one job is closed at once, and that one is in the place it remembers. -/
def closesInPlace (s : Manager ε δ) : Action ε δ → Bool
  | .handled i none => s.handling[i]?.all fun mess =>
      let accepting := (s.queues mess.state).filter
        (s.accepts mess.err (if mess.err.isSome then none else mess.data))
      accepting.length ≤ 1 && accepting.all s.isInPlace
  | .close id err data => !s.accepts err data id || s.isInPlace id
  | _ => true

end Condition

section Pending

variable {waits : List (Wait ε δ)} {state : ProcessState} {id : ℕ}

theorem mem_pendingIds : id ∈ pendingIds waits state ↔
    ∃ wait, waits[id]? = some wait ∧ wait.state = state ∧ wait.settled = none := by
  simp only [pendingIds, List.mem_filter, List.mem_range, Option.any_eq_true, Bool.and_eq_true,
    decide_eq_true_eq, Option.isNone_iff_eq_none]
  constructor
  · exact fun h => h.2
  · rintro ⟨wait, hwait, h⟩
    exact ⟨(List.getElem?_eq_some_iff.mp hwait).1, wait, hwait, h⟩

theorem nodup_pendingIds : (pendingIds waits state).Nodup :=
  List.nodup_range.filter _

theorem pendingIds_append (wait : Wait ε δ) : pendingIds (waits ++ [wait]) state =
    pendingIds waits state ++
      if wait.state = state ∧ wait.settled = none then [waits.length] else [] := by
  unfold pendingIds
  rw [List.length_append, List.length_singleton, List.range_succ, List.filter_append]
  congr 1
  · apply List.filter_congr
    intro id hid
    rw [List.getElem?_append_left (List.mem_range.mp hid)]
  · rw [List.filter_singleton, List.getElem?_concat_length]
    simp

theorem pendingIds_modify {err : Option ε} {data : Option δ} {wait : Wait ε δ}
    (hwait : waits[id]? = some wait) (hawaits : wait.awaits err data = true) :
    pendingIds (waits.modify id (Wait.settle err data)) state =
      (pendingIds waits state).filter (· ≠ id) := by
  unfold pendingIds
  rw [List.length_modify, List.filter_filter]
  apply List.filter_congr
  intro id' _
  rw [List.getElem?_modify]
  by_cases heq : id = id'
  · subst heq
    simp [hwait, Wait.settle, hawaits]
  · simp [heq, Ne.symm heq]

/-- What is spliced from its own place is what is filtered. -/
theorem eraseIdx_eq_filter {l : List ℕ} (hnodup : l.Nodup) {k : ℕ} (hk : l[k]? = some id) :
    l.eraseIdx k = l.filter (· ≠ id) := by
  induction l generalizing k with
  | nil => simp at hk
  | cons a l ih =>
    rw [List.nodup_cons] at hnodup
    cases k with
    | zero =>
      obtain rfl : a = id := by simpa using hk
      rw [List.eraseIdx_cons_zero, List.filter_cons_of_neg (by simp)]
      symm
      apply List.filter_eq_self.mpr
      intro b hb
      have hne : b ≠ a := fun heq => hnodup.1 (heq ▸ hb)
      simpa using hne
    | succ k =>
      have hk' : l[k]? = some id := by simpa using hk
      have hne : a ≠ id := fun heq => hnodup.1 (heq ▸ List.mem_of_getElem? hk')
      rw [List.eraseIdx_cons_succ, ih hnodup.2 hk', List.filter_cons_of_pos (by simpa using hne)]

end Pending

section Close

variable {s : Manager ε δ} {t : Waits ε δ} {err : Option ε} {data : Option δ} {id : ℕ}

theorem Manager.close_of_not_accepts (h : s.accepts err data id = false) :
    s.close id err data = s := by
  unfold Manager.close
  unfold Manager.accepts at h
  cases hjob : s.jobs[id]? with
  | none => rfl
  | some job =>
    rw [hjob, Option.any_some] at h
    apply if_pos
    cases hclosed : job.hasClosed with
    | true => rfl
    | false => simpa [hclosed] using h

theorem Manager.close_of_accepts {job : Job ε δ} (hjob : s.jobs[id]? = some job)
    (h : s.accepts err data id = true) :
    s.close id err data =
      { s with
        jobs := s.jobs.modify id fun job => { job with
          index := none
          hasClosed := true
          settled := job.settled ++ [outcomeOf err data] }
        queues := Function.update s.queues job.state
          (job.index.elim (s.queues job.state) (s.queues job.state).eraseIdx) } := by
  unfold Manager.close
  unfold Manager.accepts at h
  rw [hjob, Option.any_some, Bool.and_eq_true, Bool.not_eq_true'] at h
  rw [hjob]
  apply if_neg
  simp [h.1, h.2]

/-- Once closed, a job accepts nothing more; the others are as before. -/
theorem Manager.accepts_close (hid : s.accepts err data id = true) {id' : ℕ}
    (h : (s.close id err data).accepts err data id' = true) :
    id' ≠ id ∧ s.accepts err data id' = true := by
  obtain ⟨job, hjob, -⟩ := (Option.any_eq_true _ _).mp hid
  rw [Manager.close_of_accepts hjob hid] at h
  unfold Manager.accepts at h ⊢
  simp only [List.getElem?_modify] at h
  by_cases heq : id = id'
  · subst heq
    simp [hjob] at h
  · refine ⟨Ne.symm heq, ?_⟩
    simpa [heq] using h

theorem Manager.queues_close_subset (s : Manager ε δ) (id : ℕ) (err : Option ε)
    (data : Option δ) (state : ProcessState) :
    (s.close id err data).queues state ⊆ s.queues state := by
  cases haccepts : s.accepts err data id with
  | false => rw [close_of_not_accepts haccepts]; exact List.Subset.refl _
  | true =>
    obtain ⟨job, hjob, -⟩ := (Option.any_eq_true _ _).mp haccepts
    rw [close_of_accepts hjob haccepts]
    by_cases hstate : state = job.state
    · subst hstate
      simp only [Function.update_self]
      cases job.index with
      | none => exact List.Subset.refl _
      | some k => exact (List.eraseIdx_sublist _ k).subset
    · simp only [Function.update_of_ne hstate]
      exact List.Subset.refl _

theorem Refines.exists_wait (h : Refines s t) {job : Job ε δ} (hjob : s.jobs[id]? = some job) :
    ∃ wait, t.waits[id]? = some wait ∧ job.Is wait := by
  have hlt := (List.getElem?_eq_some_iff.mp hjob).1
  rw [h.length] at hlt
  have hwait := List.getElem?_eq_getElem hlt
  exact ⟨_, hwait, h.jobs id job _ hjob hwait⟩

theorem Job.Is.awaits_eq {job : Job ε δ} {wait : Wait ε δ} (h : job.Is wait) :
    wait.awaits err data = (!job.hasClosed && job.checkHandler.accepts err data) := by
  obtain ⟨-, hcheck, -, hclosed⟩ := h
  rw [Wait.awaits, hclosed, hcheck]
  cases wait.settled <;> rfl

/-- A job that is closed in its place is one registration that is settled. -/
theorem Refines.close (h : Refines s t) (hplace : s.accepts err data id = true →
    s.isInPlace id = true) :
    Refines (s.close id err data) { t with waits := t.waits.modify id (Wait.settle err data) } := by
  cases haccepts : s.accepts err data id with
  | false =>
    rw [Manager.close_of_not_accepts haccepts]
    have hwaits : t.waits.modify id (Wait.settle err data) = t.waits := by
      apply List.ext_getElem?
      intro id'
      rw [List.getElem?_modify]
      by_cases heq : id = id'
      · subst heq
        cases hwait : t.waits[id]? with
        | none => rfl
        | some wait =>
          have hlt := (List.getElem?_eq_some_iff.mp hwait).1
          rw [← h.length] at hlt
          have hjob := List.getElem?_eq_getElem hlt
          rw [Manager.accepts, hjob, Option.any_some] at haccepts
          have hawaits : wait.awaits err data = false :=
            (h.jobs id _ wait hjob hwait).awaits_eq.trans haccepts
          simp [Wait.settle, hawaits]
      · simp [heq]
    rw [hwaits]
    exact h
  | true =>
    obtain ⟨job, hjob, hopen⟩ := (Option.any_eq_true _ _).mp haccepts
    obtain ⟨wait, hwait, his⟩ := h.exists_wait hjob
    have hawaits : wait.awaits err data = true := his.awaits_eq.trans hopen
    have hin := hplace haccepts
    rw [Manager.isInPlace, hjob, Option.any_some, decide_eq_true_eq] at hin
    obtain ⟨k, hindex, hk⟩ := Option.bind_eq_some_iff.mp hin
    rw [Manager.close_of_accepts hjob haccepts]
    have hsettled : wait.settled = none := by
      simp only [Wait.awaits, Bool.and_eq_true, Option.isNone_iff_eq_none] at hawaits
      exact hawaits.1
    constructor
    · simp [h.length]
    · intro id' job' wait' hjob' hwait'
      simp only [List.getElem?_modify] at hjob' hwait'
      by_cases heq : id = id'
      · subst heq
        rw [hjob] at hjob'
        rw [hwait] at hwait'
        obtain rfl : _ = job' := by simpa using hjob'
        obtain rfl : _ = wait' := by simpa using hwait'
        obtain ⟨hstate, hcheck, hsame, -⟩ := his
        rw [hsettled] at hsame
        refine ⟨?_, ?_, ?_, ?_⟩ <;> simp [Wait.settle, hawaits, hstate, hcheck, hsame]
      · exact h.jobs id' job' wait' (by simpa [heq] using hjob') (by simpa [heq] using hwait')
    · intro state
      rw [pendingIds_modify hwait hawaits, ← h.queues]
      by_cases hstate : state = job.state
      · subst hstate
        simp only [Function.update_self, hindex, Option.elim_some]
        exact eraseIdx_eq_filter (h.queues job.state ▸ nodup_pendingIds) hk
      · simp only [Function.update_of_ne hstate]
        symm
        apply List.filter_eq_self.mpr
        intro id' hid'
        simp only [decide_eq_true_eq]
        rintro rfl
        rw [h.queues] at hid'
        obtain ⟨wait', hwait', hstate', -⟩ := mem_pendingIds.mp hid'
        rw [hwait] at hwait'
        obtain rfl := Option.some_inj.mp hwait'
        exact hstate (hstate'.symm.trans his.1.symm)
    · exact h.handling

end Close

section Walk

variable {s : Manager ε δ} {t : Waits ε δ} {state : ProcessState} {err : Option ε}
variable {data : Option δ} {id : ℕ}

open Manager

/-- A walk over jobs that accept nothing changes nothing. -/
theorem closeFrom_eq_self (h : ∀ id ∈ s.queues state, s.accepts err data id = false)
    (left i : ℕ) : closeFrom state err data left i s = s := by
  induction left generalizing i with
  | zero => rfl
  | succ left ih =>
    rw [closeFrom]
    cases hid : (s.queues state)[i]? with
    | none => rfl
    | some id =>
      simp only [close_of_not_accepts (h id (List.mem_of_getElem? hid))]
      exact ih (i + 1)

/-- A walk over jobs of which one accepts closes that one. -/
theorem closeFrom_eq_close {k : ℕ} (hk : (s.queues state)[k]? = some id)
    (hid : s.accepts err data id = true)
    (hother : ∀ id' ∈ s.queues state, s.accepts err data id' = true → id' = id)
    (hqueue : (s.close id err data).queues state ⊆ s.queues state) (left i : ℕ) (hi : i ≤ k)
    (hleft : k < i + left) : closeFrom state err data left i s = s.close id err data := by
  induction left generalizing i with
  | zero => omega
  | succ left ih =>
    rw [closeFrom]
    have hlt : i < (s.queues state).length := by
      have := (List.getElem?_eq_some_iff.mp hk).1
      omega
    rw [List.getElem?_eq_getElem hlt]
    by_cases heq : (s.queues state)[i] = id
    · simp only [heq]
      apply closeFrom_eq_self
      intro id' hid'
      cases haccepts : (s.close id err data).accepts err data id' with
      | false => rfl
      | true =>
        obtain ⟨hne, hbefore⟩ := accepts_close hid haccepts
        exact absurd (hother id' (hqueue hid') hbefore) hne
    · have hnot : s.accepts err data (s.queues state)[i] = false := by
        cases haccepts : s.accepts err data (s.queues state)[i] with
        | false => rfl
        | true => exact absurd (hother _ (List.getElem_mem hlt) haccepts) heq
      simp only [close_of_not_accepts hnot]
      have hne : i ≠ k := by
        rintro rfl
        rw [List.getElem?_eq_getElem hlt] at hk
        exact heq (Option.some_inj.mp hk)
      exact ih (i + 1) (by omega) (by omega)

/-- A registration that awaits the message is a job in the queue that accepts it. -/
theorem Refines.mem_accepting (h : Refines s t) {wait : Wait ε δ}
    (hwait : t.waits[id]? = some wait) (hstate : wait.state = state)
    (hawaits : wait.awaits err data = true) :
    id ∈ (s.queues state).filter (s.accepts err data) := by
  have hlt := (List.getElem?_eq_some_iff.mp hwait).1
  rw [← h.length] at hlt
  have hjob := List.getElem?_eq_getElem hlt
  have his := h.jobs id _ wait hjob hwait
  have hsettled : wait.settled = none := by
    simp only [Wait.awaits, Bool.and_eq_true, Option.isNone_iff_eq_none] at hawaits
    exact hawaits.1
  apply List.mem_filter.mpr
  constructor
  · rw [h.queues]
    exact mem_pendingIds.mpr ⟨wait, hwait, hstate, hsettled⟩
  · rw [Manager.accepts, hjob, Option.any_some, ← his.awaits_eq]
    exact hawaits

theorem Wait.settle_of_not_awaits {wait : Wait ε δ} (h : wait.awaits err data = false) :
    wait.settle err data = wait := by
  simp [Wait.settle, h]

theorem Refines.processQueuePromises (h : Refines s t)
    (hlength : ((s.queues state).filter (s.accepts err data)).length ≤ 1)
    (hplace : ((s.queues state).filter (s.accepts err data)).all s.isInPlace = true) :
    Refines (closeFrom state err data (s.queues state).length 0 s)
      { t with
        waits := t.waits.map fun wait =>
          if wait.state = state then wait.settle err data else wait } := by
  have haccepting : ∀ (id : ℕ) (wait : Wait ε δ), t.waits[id]? = some wait →
      wait.state = state → wait.awaits err data = true →
      id ∈ (s.queues state).filter (s.accepts err data) := fun _ _ => h.mem_accepting
  cases hids : (s.queues state).filter (s.accepts err data) with
  | nil =>
    have hnone : ∀ id ∈ s.queues state, s.accepts err data id = false := by
      intro id hid
      have := List.filter_eq_nil_iff.mp hids id hid
      simpa using this
    have hwaits : (t.waits.map fun wait =>
        if wait.state = state then wait.settle err data else wait) = t.waits := by
      apply List.ext_getElem?
      intro id
      rw [List.getElem?_map]
      cases hwait : t.waits[id]? with
      | none => rfl
      | some wait =>
        rw [Option.map_some]
        congr 1
        split_ifs with hstate
        · apply Wait.settle_of_not_awaits
          cases hawaits : wait.awaits err data with
          | false => rfl
          | true =>
            have := haccepting id wait hwait hstate hawaits
            rw [hids] at this
            simp at this
        · rfl
    rw [closeFrom_eq_self hnone, hwaits]
    exact h
  | cons id rest =>
    rw [hids] at hlength hplace
    have hrest : rest = [] := by
      cases rest with
      | nil => rfl
      | cons _ _ => simp at hlength
    subst hrest
    have hmem : id ∈ (s.queues state).filter (s.accepts err data) := by simp [hids]
    obtain ⟨hqueue, haccepts⟩ := List.mem_filter.mp hmem
    obtain ⟨k, hk⟩ := List.mem_iff_getElem?.mp hqueue
    have hclose : Refines (s.close id err data)
        { t with waits := t.waits.modify id (Wait.settle err data) } :=
      h.close fun _ => by simpa using hplace
    have hother : ∀ id' ∈ s.queues state, s.accepts err data id' = true → id' = id := by
      intro id' hid' haccepts'
      have : id' ∈ (s.queues state).filter (s.accepts err data) :=
        List.mem_filter.mpr ⟨hid', haccepts'⟩
      rw [hids] at this
      simpa using this
    have hlt := (List.getElem?_eq_some_iff.mp hk).1
    rw [closeFrom_eq_close hk haccepts hother (queues_close_subset s id err data state) _ 0
      (by omega) (by omega)]
    have hwaits : (t.waits.map fun wait =>
        if wait.state = state then wait.settle err data else wait) =
          t.waits.modify id (Wait.settle err data) := by
      apply List.ext_getElem?
      intro id'
      rw [List.getElem?_map, List.getElem?_modify]
      cases hwait : t.waits[id']? with
      | none => rfl
      | some wait =>
        simp only [Option.map_some]
        congr 1
        beta_reduce
        by_cases heq : id = id'
        · subst heq
          rw [h.queues] at hqueue
          obtain ⟨wait', hwait', hstate, -⟩ := mem_pendingIds.mp hqueue
          obtain rfl := Option.some_inj.mp (hwait'.symm.trans hwait)
          rw [if_pos hstate, if_pos rfl]
        · rw [if_neg heq]
          split_ifs with hstate
          · apply Wait.settle_of_not_awaits
            cases hawaits : wait.awaits err data with
            | false => rfl
            | true =>
              have := haccepting id' wait hwait hstate hawaits
              rw [hids, List.mem_singleton] at this
              exact absurd this.symm heq
          · rfl
    rw [hwaits]
    exact hclose

end Walk

section Steps

variable {s s' : Manager ε δ} {t t' : Waits ε δ}

theorem Refines.addStateToWait (h : Refines s t) (state : ProcessState)
    (checkHandler : CheckHandler ε δ) : Refines (s.addStateToWait state checkHandler)
      { t with waits := t.waits ++ [⟨state, checkHandler, none⟩] } := by
  constructor
  · simp [Manager.addStateToWait, h.length]
  · intro id job wait hjob hwait
    rcases Nat.lt_trichotomy id s.jobs.length with hlt | rfl | hgt
    · rw [Manager.addStateToWait, List.getElem?_append_left hlt] at hjob
      rw [List.getElem?_append_left (h.length ▸ hlt)] at hwait
      exact h.jobs id job wait hjob hwait
    · rw [Manager.addStateToWait, List.getElem?_concat_length] at hjob
      rw [h.length, List.getElem?_concat_length] at hwait
      obtain rfl := Option.some_inj.mp hjob
      obtain rfl := Option.some_inj.mp hwait
      exact ⟨rfl, rfl, rfl, rfl⟩
    · rw [Manager.addStateToWait, List.getElem?_eq_none (by simp; omega)] at hjob
      cases hjob
  · intro state'
    rw [pendingIds_append, ← h.queues, ← h.length]
    by_cases hstate : state' = state
    · subst hstate
      simp [Manager.addStateToWait]
    · simp [Manager.addStateToWait, hstate, Ne.symm hstate]
  · exact h.handling

/-- The flag of a handler that started is not one of the registrations. -/
theorem Refines.trigger (h : Refines s t) (state : ProcessState) : Refines (s.trigger state) t := by
  have hfold : ∀ (ids : List ℕ) (jobs : List (Job ε δ)), jobs.length = t.waits.length →
      (∀ (id : ℕ) (job : Job ε δ) (wait : Wait ε δ), jobs[id]? = some job →
        t.waits[id]? = some wait → job.Is wait) →
      (ids.foldl (fun jobs id => jobs.modify id fun job => { job with hasTriggered := true })
        jobs).length = t.waits.length ∧
      ∀ (id : ℕ) (job : Job ε δ) (wait : Wait ε δ),
        (ids.foldl (fun jobs id => jobs.modify id fun job => { job with hasTriggered := true })
          jobs)[id]? = some job → t.waits[id]? = some wait → job.Is wait := by
    intro ids
    induction ids with
    | nil => exact fun jobs hlength hjobs => ⟨hlength, hjobs⟩
    | cons id rest ih =>
      intro jobs hlength hjobs
      apply ih
      · rw [List.length_modify]
        exact hlength
      · intro id' job wait hjob hwait
        rw [List.getElem?_modify] at hjob
        cases hold : jobs[id']? with
        | none => simp [hold] at hjob
        | some old =>
          have his := hjobs id' old wait hold hwait
          rw [hold] at hjob
          obtain rfl := Option.some_inj.mp hjob
          split_ifs
          · exact his
          · exact his
  obtain ⟨hlength, hjobs⟩ := hfold (s.queues state) s.jobs h.length h.jobs
  exact ⟨hlength, hjobs, h.queues, h.handling⟩

/-- A step that closes in place is a step of the registrations. -/
theorem Refines.step (h : Refines s t) {a : Action ε δ} (ha : closesInPlace s a = true)
    (hstep : (machine ε δ).step s a = some s') : ∃ t', t.step a = some t' ∧ Refines s' t' := by
  cases a with
  | addStateToWait state checkHandler =>
    obtain rfl := Option.some.inj hstep
    exact ⟨_, rfl, h.addStateToWait state checkHandler⟩
  | message state data =>
    obtain rfl := Option.some.inj hstep
    have htriggered := h.trigger state
    refine ⟨_, rfl, htriggered.length, htriggered.jobs, htriggered.queues, ?_⟩
    show s.handling ++ _ = t.handling ++ _
    rw [h.handling]
  | close id err data =>
    obtain rfl := Option.some.inj hstep
    refine ⟨_, rfl, h.close ?_⟩
    intro haccepts
    simpa [closesInPlace, haccepts] using ha
  | handled i thrown =>
    obtain ⟨mess, hmess, rfl⟩ := Option.map_eq_some_iff.mp hstep
    refine ⟨t.handled i mess thrown, ?_, ?_⟩
    · show t.handling[i]?.map _ = _
      rw [← h.handling, hmess]
      rfl
    · cases thrown with
      | none =>
        simp only [closesInPlace, hmess, Option.all_some, Bool.and_eq_true,
          decide_eq_true_eq] at ha
        have hprocessed := h.processQueuePromises ha.1 ha.2
        refine ⟨hprocessed.length, hprocessed.jobs, hprocessed.queues, ?_⟩
        show s.handling.eraseIdx i = t.handling.eraseIdx i
        rw [h.handling]
      | some err =>
        unfold Manager.handled Waits.handled
        simp only
        split_ifs
        · exact ⟨h.length, h.jobs, h.queues, congrArg (·.eraseIdx i) h.handling⟩
        · have htriggered := h.trigger mess.state
          refine ⟨htriggered.length, htriggered.jobs, htriggered.queues, ?_⟩
          show s.handling.set i _ = t.handling.set i _
          rw [h.handling]

/-- Before any registration. -/
def start (ε δ : Type) : Manager ε δ := ⟨[], fun _ => [], []⟩

theorem refines_start : Refines (start ε δ) ⟨[], []⟩ :=
  ⟨rfl, fun _ _ _ hjob => by simp [start] at hjob, fun _ => rfl, rfl⟩

/-- In every run that closes jobs in their places, every job is settled by the first message
of its state that it accepts and by no other, and the queues hold the jobs not settled. -/
theorem jobs_settled_once {actions : List (Action ε δ)}
    (hrun : (machine ε δ).run (closesInPlace · ·) (start ε δ) actions = some s) :
    ∃ t, (spec ε δ).run Machine.free ⟨[], []⟩ actions = some t ∧ Refines s t :=
  Machine.simulate Refines (fun _ _ _ _ h ha hstep => h.step ha hstep) refines_start hrun

end Steps

namespace PrepareDbWitness

/-- A job for the prepared database, its message, and another job for the next message. -/
def inTurn : List (Action String Unit) :=
  [.addStateToWait .prepareDb none, .message .prepareDb none, .handled 0 none,
    .addStateToWait .prepareDb none]

theorem jobs_settled_once_inTurn :
    ∃ s, (machine String Unit).run (closesInPlace · ·) (start String Unit) inTurn = some s ∧
      s.queues .prepareDb = [1] ∧
      ∃ t, (spec String Unit).run Machine.free ⟨[], []⟩ inTurn = some t ∧ Refines s t :=
  ⟨_, rfl, rfl, jobs_settled_once rfl⟩

/-- Two jobs for one message. -/
def atOnce : List (Action String Unit) :=
  [.addStateToWait .prepareDb none, .addStateToWait .prepareDb none, .message .prepareDb none,
    .handled 0 none]

/-- The second job moves to the place the walk has left. -/
theorem second_job_skipped :
    ¬ ∀ (actions : List (Action String Unit)) (s : Manager String Unit),
      (machine String Unit).run Machine.free (start String Unit) actions = some s →
        ∃ t, (spec String Unit).run Machine.free ⟨[], []⟩ actions = some t ∧ Refines s t := by
  intro h
  obtain ⟨t, ht, hrefines⟩ := h atOnce _ rfl
  obtain rfl := Option.some.inj ht
  exact absurd (hrefines.queues .prepareDb) (by decide)

end PrepareDbWitness

end ProcessMessageManager

end ReportsFramework
