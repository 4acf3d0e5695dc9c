/-
The progress of one sync job: the data inserter tells its handlers how far it is, after each
collection of each user and after each public collection.
-/
import Mathlib.Algebra.Order.Round
import Mathlib.Data.Int.ConditionallyCompleteOrder
import Mathlib.Data.Rat.Floor

namespace ReportsFramework

/-- `Math.round`: a half goes up. -/
def mathRound (x : ℚ) : ℤ := ⌊x + 1 / 2⌋

/-- What the handlers are called with: a number of per cent, or `MESS_ERR_UNAUTH`. -/
inductive DataProgress
  | value (progress : ℤ)
  | unauth
deriving DecidableEq

def DataProgress.value? : DataProgress → Option ℤ
  | value progress => some progress
  | unauth => none

/-- A user without keys and token, or the number of their collections with new data. -/
inductive UserColls
  | unauth
  | colls (count : ℕ)
deriving DecidableEq

def UserColls.count : UserColls → ℕ
  | unauth => 0
  | colls count => count

/-- What a job finds: the size of its own map of collections, its users in their order, and
the number of public collections with new data. -/
structure JobColls where
  size : ℕ
  users : List UserColls
  pub : ℕ
  count_le : ∀ user ∈ users, user.count ≤ size

namespace DataInserter

/-- `_setProgress`, which only numbers below 100 come to while collections are inserted. -/
def setProgress (progress : ℤ) : Option DataProgress :=
  if progress < 100 then some (.value progress) else none

/-- The progress behind `count` collections of a user. -/
def userProgressAt (size authSize : ℕ) (userProgress : ℚ) (count : ℕ) : ℤ :=
  mathRound ((count / size * 100) / authSize + userProgress)

/-- The calls of the handlers for one user, and the progress that is returned. -/
def insertNewDataToDb (size authSize : ℕ) (userProgress : ℚ) :
    UserColls → List DataProgress × ℚ
  | .unauth => ([.unauth], userProgress)
  | .colls n =>
      (((List.range n).map fun i =>
          userProgressAt size authSize userProgress (i + 1)).filterMap setProgress,
        if n = 0 then 0 else userProgressAt size authSize userProgress n)

/-- The loop over the users behind the first `count`. -/
def insertUsers (size authSize : ℕ) : ℕ → ℚ → List UserColls → List DataProgress × ℚ
  | _, progress, [] => ([], progress)
  | count, _, user :: rest =>
      let curr := insertNewDataToDb size authSize (count / authSize * 100) user
      let later := insertUsers size authSize (count + 1) curr.2 rest
      (curr.1 ++ later.1, later.2)

def publicProgressAt (prevProgress : ℚ) (size count : ℕ) : ℤ :=
  mathRound (prevProgress + count / size * 100 * ((100 - prevProgress) / 100))

def insertNewPublicDataToDb (prevProgress : ℚ) (size : ℕ) : List DataProgress :=
  ((List.range size).map fun i =>
    publicProgressAt prevProgress size (i + 1)).filterMap setProgress

/-- All calls of the handlers, unless the job is interrupted or throws. -/
def insertNewDataToDbMultiUser (job : JobColls) : List DataProgress :=
  if job.users = [] then [.unauth]
  else
    let users := insertUsers job.size job.users.length 0 0 job.users
    users.1 ++ insertNewPublicDataToDb users.2 job.pub ++ [.value 100]

end DataInserter

/-- The last user has no new data where an earlier one had some and public collections come
behind: their progress starts from 0 again. -/
def JobColls.restarts (job : JobColls) : Prop :=
  job.pub ≠ 0 ∧ job.users.getLast? = some (.colls 0) ∧
    ∃ user ∈ job.users, user ≠ .unauth ∧ user ≠ .colls 0

instance (job : JobColls) : Decidable job.restarts := inferInstanceAs (Decidable (_ ∧ _ ∧ _))

theorem mathRound_mono {x y : ℚ} (h : x ≤ y) : mathRound x ≤ mathRound y := by
  apply Int.floor_le_floor
  linarith

@[simp]
theorem mathRound_intCast (n : ℤ) : mathRound n = n := by
  unfold mathRound
  rw [Int.floor_eq_iff]
  constructor
  · linarith
  · linarith

theorem mathRound_nonneg {x : ℚ} (h : 0 ≤ x) : 0 ≤ mathRound x := by
  apply Int.floor_nonneg.mpr
  linarith

theorem mathRound_le_of_le {x : ℚ} {n : ℤ} (h : x ≤ n) : mathRound x ≤ n := by
  calc mathRound x ≤ mathRound n := mathRound_mono h
    _ = n := mathRound_intCast n

theorem mathRound_lt {x : ℚ} {n : ℤ} (h : x < n - 1 / 2) : mathRound x < n := by
  apply Int.floor_lt.mpr
  linarith

/-- Numbers that do not fall, between two bounds. -/
structure Climbs (low high : ℤ) (xs : List ℤ) : Prop where
  sorted : xs.Pairwise (· ≤ ·)
  low_le : ∀ x ∈ xs, low ≤ x
  le_high : ∀ x ∈ xs, x ≤ high

namespace Climbs

variable {low low' mid high high' : ℤ} {xs ys : List ℤ}

theorem nil : Climbs low high [] := by
  constructor
  · exact List.Pairwise.nil
  · simp
  · simp

theorem singleton {x : ℤ} (hlow : low ≤ x) (hhigh : x ≤ high) : Climbs low high [x] := by
  constructor
  · simp
  · simpa using hlow
  · simpa using hhigh

theorem mono (h : Climbs low high xs) (hlow : low' ≤ low) (hhigh : high ≤ high') :
    Climbs low' high' xs := by
  constructor
  · exact h.sorted
  · intro x hx
    exact hlow.trans (h.low_le x hx)
  · intro x hx
    exact (h.le_high x hx).trans hhigh

theorem filter (h : Climbs low high xs) (p : ℤ → Bool) : Climbs low high (xs.filter p) := by
  constructor
  · exact h.sorted.filter p
  · intro x hx
    exact h.low_le x (List.mem_of_mem_filter hx)
  · intro x hx
    exact h.le_high x (List.mem_of_mem_filter hx)

theorem append (hxs : Climbs low mid xs) (hys : Climbs mid high ys)
    (hlow : low ≤ mid) (hhigh : mid ≤ high) : Climbs low high (xs ++ ys) := by
  constructor
  · apply List.pairwise_append.mpr
    refine ⟨hxs.sorted, hys.sorted, ?_⟩
    intro x hx y hy
    exact (hxs.le_high x hx).trans (hys.low_le y hy)
  · intro x hx
    rcases List.mem_append.mp hx with hx | hx
    · exact hxs.low_le x hx
    · exact hlow.trans (hys.low_le x hx)
  · intro x hx
    rcases List.mem_append.mp hx with hx | hx
    · exact (hxs.le_high x hx).trans hhigh
    · exact hys.le_high x hx

/-- The values of a monotone function at 1, …, `n`. -/
theorem range {f : ℕ → ℤ} (hf : Monotone f) (n : ℕ) :
    Climbs (f 0) (f n) ((List.range n).map fun i => f (i + 1)) := by
  induction n with
  | zero => exact nil
  | succ n ih =>
      rw [List.range_succ, List.map_append]
      apply ih.append
      · exact singleton (hf (Nat.le_succ n)) le_rfl
      · exact hf (Nat.zero_le n)
      · exact hf (Nat.le_succ n)

end Climbs

namespace DataInserter

/-- The numbers among the calls of the handlers. -/
def values (events : List DataProgress) : List ℤ :=
  events.filterMap DataProgress.value?

@[simp]
theorem values_append (events events' : List DataProgress) :
    values (events ++ events') = values events ++ values events' :=
  List.filterMap_append

/-- Of the numbers along a loop those below 100 come to the handlers. -/
theorem values_filterMap (xs : List ℤ) :
    values (xs.filterMap setProgress) = xs.filter (· < 100) := by
  induction xs with
  | nil => rfl
  | cons x xs ih =>
      by_cases h : x < 100
      · have hset : setProgress x = some (.value x) := if_pos h
        rw [List.filterMap_cons_some hset, List.filter_cons_of_pos (by simpa using h), ← ih]
        rfl
      · have hset : setProgress x = none := if_neg h
        rw [List.filterMap_cons_none hset, List.filter_cons_of_neg (by simpa using h), ih]

theorem climbs_values {f : ℕ → ℤ} (hf : Monotone f) (n : ℕ) :
    Climbs (f 0) (f n)
      (values (((List.range n).map fun i => f (i + 1)).filterMap setProgress)) := by
  rw [values_filterMap]
  exact (Climbs.range hf n).filter _

section Users

variable {size authSize : ℕ} {userProgress : ℚ}

theorem monotone_userProgressAt (size authSize : ℕ) (userProgress : ℚ) :
    Monotone (userProgressAt size authSize userProgress) := by
  intro i j hij
  apply mathRound_mono
  have hcast : (i : ℚ) ≤ j := by exact_mod_cast hij
  gcongr

theorem userProgressAt_zero (size authSize : ℕ) (userProgress : ℚ) :
    userProgressAt size authSize userProgress 0 = mathRound userProgress := by
  simp [userProgressAt]

/-- A user has the part of one among all. -/
theorem userProgressAt_le {count n : ℕ} (hn : n ≤ size) :
    userProgressAt size authSize (count / authSize * 100) n ≤
      mathRound ((count + 1 : ℕ) / authSize * 100) := by
  apply mathRound_mono
  have hpart : (n / size : ℚ) ≤ 1 := by
    apply div_le_one_of_le₀
    · exact_mod_cast hn
    · positivity
  calc (n / size * 100 / authSize + count / authSize * 100 : ℚ)
      ≤ 1 * 100 / authSize + count / authSize * 100 := by gcongr
    _ = ((count + 1 : ℕ) / authSize * 100 : ℚ) := by
      push_cast
      ring

theorem climbs_insertNewDataToDb {count : ℕ} {user : UserColls}
    (huser : user.count ≤ size) :
    Climbs (mathRound (count / authSize * 100)) (mathRound ((count + 1 : ℕ) / authSize * 100))
      (values (insertNewDataToDb size authSize (count / authSize * 100) user).1) := by
  cases user with
  | unauth => exact Climbs.nil
  | colls n =>
      have hclimbs := climbs_values
        (monotone_userProgressAt size authSize (count / authSize * 100)) n
      rw [userProgressAt_zero] at hclimbs
      exact hclimbs.mono le_rfl (userProgressAt_le huser)

/-- The users together go from the part of those before them up to the part with them. -/
theorem climbs_insertUsers {count : ℕ} {progress : ℚ} {users : List UserColls}
    (husers : ∀ user ∈ users, user.count ≤ size) :
    Climbs (mathRound (count / authSize * 100))
      (mathRound ((count + users.length : ℕ) / authSize * 100))
      (values (insertUsers size authSize count progress users).1) := by
  induction users generalizing count progress with
  | nil => exact Climbs.nil
  | cons user rest ih =>
      have hmono : ∀ i j : ℕ, i ≤ j →
          mathRound (i / authSize * 100) ≤ mathRound (j / authSize * 100) := by
        intro i j hij
        have hcast : (i : ℚ) ≤ j := by exact_mod_cast hij
        apply mathRound_mono
        gcongr
      have hcurr : Climbs (mathRound (count / authSize * 100))
          (mathRound ((count + 1 : ℕ) / authSize * 100))
          (values (insertNewDataToDb size authSize (count / authSize * 100) user).1) :=
        climbs_insertNewDataToDb (husers user List.mem_cons_self)
      have hrest := @ih (count + 1)
        (insertNewDataToDb size authSize (count / authSize * 100) user).2
        fun user' h => husers user' (List.mem_cons_of_mem user h)
      have hlength : count + 1 + rest.length = count + (user :: rest).length := by
        simp only [List.length_cons]
        omega
      rw [hlength] at hrest
      rw [insertUsers, values_append]
      apply hcurr.append hrest
      · exact hmono _ _ (Nat.le_succ count)
      · apply hmono
        rw [← hlength]
        exact Nat.le_add_right _ _

theorem insertUsers_append {count : ℕ} {progress : ℚ} (users users' : List UserColls) :
    insertUsers size authSize count progress (users ++ users') =
      ((insertUsers size authSize count progress users).1 ++
        (insertUsers size authSize (count + users.length)
          (insertUsers size authSize count progress users).2 users').1,
      (insertUsers size authSize (count + users.length)
        (insertUsers size authSize count progress users).2 users').2) := by
  induction users generalizing count progress with
  | nil => rfl
  | cons user rest ih =>
      have hlength : count + 1 + rest.length = count + (user :: rest).length := by
        simp only [List.length_cons]
        omega
      simp only [List.cons_append, insertUsers, ih, hlength, List.append_assoc]

/-- The progress returned for a user is between 0 and 100, whatever they had. -/
theorem progress_mem_insertNewDataToDb {user : UserColls} (hlow : 0 ≤ userProgress)
    (hhigh : userProgress + 100 / authSize ≤ 100) (huser : user.count ≤ size) :
    0 ≤ (insertNewDataToDb size authSize userProgress user).2 ∧
      (insertNewDataToDb size authSize userProgress user).2 ≤ 100 := by
  have hauth : (0 : ℚ) ≤ 100 / authSize := by positivity
  cases user with
  | unauth =>
      constructor
      · exact hlow
      · simp only [insertNewDataToDb]
        linarith
  | colls n =>
      simp only [insertNewDataToDb]
      split_ifs with hn
      · simp
      · have hpart : (n / size : ℚ) ≤ 1 := by
          apply div_le_one_of_le₀
          · exact_mod_cast huser
          · positivity
        have hle : userProgressAt size authSize userProgress n ≤ 100 := by
          apply mathRound_le_of_le (n := 100)
          calc (n / size * 100 / authSize + userProgress : ℚ)
              ≤ 1 * 100 / authSize + userProgress := by gcongr
            _ ≤ ((100 : ℤ) : ℚ) := by
              push_cast
              linarith
        constructor
        · exact_mod_cast mathRound_nonneg (by positivity)
        · exact_mod_cast hle

/-- What is told for a user lies between the progress before and the one returned, unless
a user without new data returns 0. -/
theorem climbs_last (size authSize : ℕ) (userProgress : ℚ) {user : UserColls}
    (hlast : user ≠ .colls 0) :
    Climbs (mathRound userProgress)
      (mathRound (insertNewDataToDb size authSize userProgress user).2)
      (values (insertNewDataToDb size authSize userProgress user).1) ∧
    mathRound userProgress ≤ mathRound (insertNewDataToDb size authSize userProgress user).2 := by
  cases user with
  | unauth =>
      constructor
      · exact Climbs.nil
      · exact le_rfl
  | colls n =>
      cases n with
      | zero => exact absurd rfl hlast
      | succ n =>
          have hmono := monotone_userProgressAt size authSize userProgress
          have hclimbs := climbs_values hmono (n + 1)
          have hle := hmono (Nat.zero_le (n + 1))
          rw [userProgressAt_zero] at hclimbs hle
          simp only [insertNewDataToDb, Nat.succ_ne_zero, if_false, mathRound_intCast]
          exact ⟨hclimbs, hle⟩

theorem values_insertUsers_of_idle {count : ℕ} {progress : ℚ} {users : List UserColls}
    (hidle : ∀ user ∈ users, user = .unauth ∨ user = .colls 0) :
    values (insertUsers size authSize count progress users).1 = [] := by
  induction users generalizing count progress with
  | nil => rfl
  | cons user rest ih =>
      rw [insertUsers, values_append, ih fun user' h => hidle user' (List.mem_cons_of_mem user h)]
      rcases hidle user List.mem_cons_self with rfl | rfl
      · rfl
      · rfl

end Users

theorem climbs_insertNewPublicDataToDb {prevProgress : ℚ} (hhigh : prevProgress ≤ 100)
    (size : ℕ) :
    Climbs (mathRound prevProgress) 100 (values (insertNewPublicDataToDb prevProgress size)) := by
  have hleft : 0 ≤ (100 - prevProgress) / 100 := by
    apply div_nonneg
    · linarith
    · norm_num
  have hmono : Monotone (publicProgressAt prevProgress size) := by
    intro i j hij
    have hcast : (i : ℚ) ≤ j := by exact_mod_cast hij
    apply mathRound_mono
    gcongr
  have hzero : publicProgressAt prevProgress size 0 = mathRound prevProgress := by
    simp [publicProgressAt]
  have hend : publicProgressAt prevProgress size size ≤ 100 := by
    apply mathRound_le_of_le
    calc prevProgress + size / size * 100 * ((100 - prevProgress) / 100)
        ≤ prevProgress + 1 * 100 * ((100 - prevProgress) / 100) := by
          gcongr
          exact div_self_le_one _
      _ = ((100 : ℤ) : ℚ) := by
          push_cast
          ring
  have hclimbs := climbs_values hmono size
  rw [hzero] at hclimbs
  exact hclimbs.mono le_rfl hend

section Job

variable {job : JobColls} {init : List UserColls} {last : UserColls}

/-- The users before the last one, the last one, the public collections and the end. -/
theorem values_insertNewDataToDbMultiUser (hinit : job.users = init ++ [last]) :
    ∃ progress, values (insertNewDataToDbMultiUser job) =
      values (insertUsers job.size job.users.length 0 0 init).1 ++
        values (insertNewDataToDb job.size job.users.length
          (init.length / job.users.length * 100) last).1 ++
        values (insertNewPublicDataToDb progress job.pub) ++ [100] ∧
      progress = (insertNewDataToDb job.size job.users.length
        (init.length / job.users.length * 100) last).2 := by
  have hne : job.users ≠ [] := by simp [hinit]
  refine ⟨_, ?_, rfl⟩
  unfold insertNewDataToDbMultiUser
  rw [if_neg hne]
  generalize job.users.length = authSize
  rw [hinit, insertUsers_append]
  simp only [insertUsers, values_append, List.append_nil, Nat.zero_add, List.append_assoc]
  rfl

/-- The part of the users before the last one, and the part of the last one. -/
theorem part_add (hinit : job.users = init ++ [last]) :
    (init.length / job.users.length * 100 + 100 / job.users.length : ℚ) = 100 := by
  have hlength : (job.users.length : ℚ) = init.length + 1 := by simp [hinit]
  have hne : (init.length + 1 : ℚ) ≠ 0 := by positivity
  rw [hlength]
  field_simp

theorem climbs_before (hinit : job.users = init ++ [last]) :
    Climbs 0 (mathRound (init.length / job.users.length * 100))
      (values (insertUsers job.size job.users.length 0 0 init).1) := by
  have hclimbs := @climbs_insertUsers job.size job.users.length 0 0 init fun user h =>
    job.count_le user (by simp [hinit, h])
  rw [Nat.zero_add, Nat.cast_zero, zero_div, zero_mul] at hclimbs
  exact hclimbs.mono (mathRound_nonneg le_rfl) le_rfl

/-- Unless it starts again, the progress of a job climbs to 100. -/
theorem climbs_insertNewDataToDbMultiUser (h : ¬ job.restarts) :
    Climbs 0 100 (values (insertNewDataToDbMultiUser job)) := by
  by_cases hnil : job.users = []
  · rw [insertNewDataToDbMultiUser, if_pos hnil]
    exact Climbs.nil
  obtain ⟨init, last, hinit⟩ : ∃ init last, job.users = init ++ [last] :=
    ⟨_, _, (List.dropLast_append_getLast hnil).symm⟩
  obtain ⟨progress, hvalues, hprogress⟩ := values_insertNewDataToDbMultiUser hinit
  have hsum := part_add hinit
  have hlow : (0 : ℚ) ≤ init.length / job.users.length * 100 := by positivity
  have hpart : (0 : ℚ) ≤ 100 / job.users.length := by positivity
  have hbefore := climbs_before hinit
  have hmem := progress_mem_insertNewDataToDb hlow hsum.le (job.count_le last (by simp [hinit]))
  rw [← hprogress] at hmem
  have hpublic := climbs_insertNewPublicDataToDb hmem.2 job.pub
  have hround : mathRound progress ≤ 100 := mathRound_le_of_le (by exact_mod_cast hmem.2)
  have hend : Climbs 100 100 [(100 : ℤ)] := Climbs.singleton le_rfl le_rfl
  rw [hvalues]
  by_cases hlast : last = .colls 0
  · subst hlast
    have hnone : values (insertNewDataToDb job.size job.users.length
        (init.length / job.users.length * 100) (.colls 0)).1 = [] := rfl
    rw [hnone, List.append_nil]
    by_cases hpub : job.pub = 0
    · have hnothing : values (insertNewPublicDataToDb progress job.pub) = [] := by
        rw [hpub]
        rfl
      have hle : mathRound (init.length / job.users.length * 100) ≤ 100 :=
        mathRound_le_of_le (by push_cast; linarith)
      rw [hnothing, List.append_nil]
      exact (hbefore.mono le_rfl hle).append hend (by norm_num) le_rfl
    · have hidle : ∀ user ∈ init, user = .unauth ∨ user = .colls 0 := by
        intro user huser
        by_contra hbusy
        apply h
        refine ⟨hpub, by simp [hinit], user, by simp [hinit, huser], ?_⟩
        exact not_or.mp hbusy
      have hzero : progress = 0 := by simp [hprogress, insertNewDataToDb]
      rw [values_insertUsers_of_idle hidle, List.nil_append]
      rw [hzero] at hpublic ⊢
      exact (hpublic.mono (mathRound_nonneg le_rfl) le_rfl).append hend (by norm_num) le_rfl
  · obtain ⟨hcurr, hle⟩ := climbs_last job.size job.users.length
      (init.length / job.users.length * 100) hlast
    rw [← hprogress] at hcurr hle
    have husers := hbefore.append hcurr (mathRound_nonneg hlow) hle
    have hall := husers.append hpublic (mathRound_nonneg hmem.1) hround
    exact hall.append hend (by norm_num) le_rfl

end Job

end DataInserter

end ReportsFramework
