/-
Calls that retry on a budget counted in one place.  A call that meets a lock waits and
is made again, as a call of its own, as long as the counter is below the limit; the
counter goes up with every retry, and back to zero when a retried call returns.  Who
else counts meanwhile is what decides whether a call gets the whole budget.
-/
import Mathlib.Logic.Function.Basic
import Mathlib.Order.Nat
import Mathlib.Tactic.ByContra

namespace RetryBudget

/-- Where a call stands. -/
inductive Call
  | away
  | running
  | waiting
  | retried (again : ℕ)
  | returned (isOk : Bool)
deriving DecidableEq

/-- `root` is the call that a chain of retries started with, `retries` how many of
them led to a call. -/
structure Pool where
  next : ℕ
  call : ℕ → Call
  amount : ℕ
  root : ℕ → ℕ
  retries : ℕ → ℕ

def Call.isRetrying : Call → Bool
  | .waiting | .retried _ => true
  | _ => false

/-- The call does not count and has left nothing counted: it is not about to retry,
and if it was a retry itself it has succeeded. -/
def Pool.Quiet (s : Pool) (c : ℕ) : Prop :=
  (s.call c).isRetrying = false ∧ (s.retries c = 0 ∨ s.call c = .returned true)

/-- The calls of all other chains are quiet. -/
def Pool.Undisturbed (s : Pool) (q : ℕ) : Prop :=
  ∀ c, s.root c ≠ s.root q → s.Quiet c

variable {limit : ℕ}

/-- The steps of a pool in which no call meets a lock while it is disturbed. -/
inductive Step (limit : ℕ) (s : Pool) : Pool → Prop
  /-- A number is given to something else. -/
  | skip : Step limit s { s with next := s.next + 1 }
  | start :
      Step limit s { s with
        next := s.next + 1
        call := Function.update s.call s.next .running }
  | settle {q} (isOk : Bool) (hcall : s.call q = .running) :
      Step limit s { s with call := Function.update s.call q (.returned isOk) }
  | lock {q} (hcall : s.call q = .running) (hundisturbed : s.Undisturbed q) :
      Step limit s { s with
        call := Function.update s.call q
          (if s.amount < limit then .waiting else .returned false) }
  | retry {q} (hcall : s.call q = .waiting) :
      Step limit s
        { next := s.next + 1
          call := Function.update (Function.update s.call q (.retried s.next)) s.next .running
          amount := s.amount + 1
          root := Function.update s.root s.next (s.root q)
          retries := Function.update s.retries s.next (s.retries q + 1) }
  | finish {q again} (isOk : Bool) (hcall : s.call q = .retried again)
      (hagain : s.call again = .returned isOk) :
      Step limit s { s with
        call := Function.update s.call q (.returned isOk)
        amount := if isOk then 0 else s.amount }

/-- A call of the chain that is neither under way nor waiting. -/
def Call.isBehind : Call → Bool
  | .retried _ | .returned _ => true
  | _ => false

/-- What the counter counts.  Without retries it is zero; while one call climbs it is
the number of its retries; a chain that is done climbing but not quiet leaves it open. -/
inductive Counts (limit : ℕ) (s : Pool) : Prop
  | clean (hquiet : ∀ c, s.Quiet c) (hamount : s.amount = 0)
  | climbing (leaf : ℕ) (hundisturbed : s.Undisturbed leaf)
      (hchain : ∀ c, s.root c = s.root leaf → c ≠ leaf → ∃ again, s.call c = .retried again)
      (hamount : s.amount = s.retries leaf) (hle : s.amount ≤ limit)
      (hleaf : s.call leaf = .waiting ∧ s.amount < limit ∨
        s.call leaf = .running ∧ 1 ≤ s.retries leaf)
  | spent (c : ℕ) (hundisturbed : s.Undisturbed c) (hnot : ¬ s.Quiet c)
      (hchain : ∀ d, s.root d = s.root c → (s.call d).isBehind = true)

structure Inv (limit : ℕ) (s : Pool) : Prop where
  fresh {c} : s.next ≤ c → s.call c = .away ∧ s.root c = c ∧ s.retries c = 0
  first {c} : s.retries c = 0 → s.root c = c
  rooted {c} : 1 ≤ s.retries c →
    s.root c < c ∧ s.retries (s.root c) = 0 ∧ (s.call (s.root c)).isBehind = true
  retried {q again} : s.call q = .retried again →
    s.root again = s.root q ∧ s.retries again = s.retries q + 1
  counts : Counts limit s

variable {s s' : Pool}

/-- Where an undisturbed call that is under way stands: it has not retried and nobody
counts, or it is the one that climbs. -/
theorem Inv.standing (hs : Inv limit s) {q : ℕ} (hcall : s.call q = .running)
    (hundisturbed : s.Undisturbed q) :
    (∀ c, s.Quiet c) ∧ s.amount = 0 ∧ s.retries q = 0 ∨
      (∀ c, s.root c = s.root q → c ≠ q → ∃ again, s.call c = .retried again) ∧
        s.amount = s.retries q ∧ s.amount ≤ limit ∧ 1 ≤ s.retries q := by
  cases hs.counts with
  | clean hquiet hamount =>
      left
      refine ⟨hquiet, hamount, ?_⟩
      rcases (hquiet q).2 with hzero | hreturned
      · exact hzero
      · rw [hcall] at hreturned
        cases hreturned
  | climbing leaf _ hchain hamount hle hleaf =>
      right
      by_cases hroot : s.root leaf = s.root q
      · by_cases hq : q = leaf
        · subst hq
          rcases hleaf with ⟨hwaiting, _⟩ | ⟨_, hpos⟩
          · rw [hcall] at hwaiting
            cases hwaiting
          · exact ⟨hchain, hamount, hle, hpos⟩
        · obtain ⟨again, hretried⟩ := hchain q hroot.symm hq
          rw [hcall] at hretried
          cases hretried
      · -- the leaf of another chain is not quiet
        have hquiet := hundisturbed leaf hroot
        rcases hleaf with ⟨hwaiting, _⟩ | ⟨hrunning, hpos⟩
        · simp [Pool.Quiet, hwaiting, Call.isRetrying] at hquiet
        · simp [Pool.Quiet, hrunning, Call.isRetrying] at hquiet
          omega
  | spent c _ hnot hchain =>
      by_cases hroot : s.root c = s.root q
      · have hbehind := hchain q hroot.symm
        rw [hcall] at hbehind
        cases hbehind
      · exact absurd (hundisturbed c hroot) hnot

/-- A call that meets a lock undisturbed is turned away exactly if it has had all its
retries. -/
theorem Inv.turned_away_iff (hs : Inv limit s) {q : ℕ} (hcall : s.call q = .running)
    (hundisturbed : s.Undisturbed q) : ¬ s.amount < limit ↔ s.retries q = limit := by
  rcases hs.standing hcall hundisturbed with ⟨_, hamount, hzero⟩ | ⟨_, hamount, hle, _⟩
  · omega
  · omega

theorem Inv.lt_next (hs : Inv limit s) {c : ℕ} (hcall : s.call c ≠ .away) : c < s.next := by
  by_contra hle
  exact hcall (hs.fresh (Nat.le_of_not_lt hle)).1

theorem Inv.lt_next_of_retries (hs : Inv limit s) {c : ℕ} (h : 1 ≤ s.retries c) :
    c < s.next := by
  by_contra hle
  have hzero := (hs.fresh (Nat.le_of_not_lt hle)).2.2
  omega

theorem Inv.root_le (hs : Inv limit s) (c : ℕ) : s.root c ≤ c := by
  rcases Nat.eq_zero_or_pos (s.retries c) with hzero | hpos
  · exact (hs.first hzero).le
  · exact (hs.rooted hpos).1.le

/-- A call without retries whose own retry is not made yet is its whole chain. -/
theorem Inv.eq_of_root (hs : Inv limit s) {q c : ℕ} (hzero : s.retries q = 0)
    (hcall : (s.call q).isBehind = false) (hroot : s.root c = s.root q) : c = q := by
  have hq := hs.first hzero
  rcases Nat.eq_zero_or_pos (s.retries c) with hc | hpos
  · rw [← hs.first hc, hroot, hq]
  · have hbehind := (hs.rooted hpos).2.2
    rw [hroot, hq, hcall] at hbehind
    cases hbehind

section Kept

theorem Inv.fresh_step (hs : Inv limit s) (h : Step limit s s') {c : ℕ} (hc : s'.next ≤ c) :
    s'.call c = .away ∧ s'.root c = c ∧ s'.retries c = 0 := by
  have hold := hs.fresh (c := c)
  have hlt := hs.lt_next (c := c)
  cases h <;> grind

theorem Inv.first_step (hs : Inv limit s) (h : Step limit s s') {c : ℕ}
    (hc : s'.retries c = 0) : s'.root c = c := by
  have hold := hs.first (c := c)
  cases h <;> grind

theorem Inv.retried_step (hs : Inv limit s) (h : Step limit s s') {q again : ℕ}
    (hq : s'.call q = .retried again) :
    s'.root again = s'.root q ∧ s'.retries again = s'.retries q + 1 := by
  have hold : s.call q = .retried again →
      s.root again = s.root q ∧ s.retries again = s.retries q + 1 := hs.retried
  have hagain := hs.lt_next_of_retries (c := again)
  have hlt := hs.lt_next (c := q)
  cases h <;> grind

theorem Inv.rooted_step (hs : Inv limit s) (h : Step limit s s') {c : ℕ}
    (hc : 1 ≤ s'.retries c) :
    s'.root c < c ∧ s'.retries (s'.root c) = 0 ∧ (s'.call (s'.root c)).isBehind = true := by
  have hold := hs.rooted (c := c)
  have hlt := hs.lt_next_of_retries (c := c)
  cases h with
  | @retry q hcall =>
      have hq := hs.lt_next (c := q) (by simp [hcall])
      have hroot := hs.root_le q
      have hfirst := hs.first (c := q)
      have hrooted := hs.rooted (c := q)
      grind [Call.isBehind]
  | _ => grind [Call.isBehind]

theorem Pool.Quiet.retries_eq_zero {c : ℕ} (h : s.Quiet c)
    (hcall : (s.call c).isBehind = false) : s.retries c = 0 := by
  rcases h.2 with hzero | hreturned
  · exact hzero
  · rw [hreturned] at hcall
    cases hcall

theorem Pool.not_quiet_of_retried {c again : ℕ} (h : s.call c = .retried again) :
    ¬ s.Quiet c := by
  rintro ⟨hretrying, _⟩
  rw [h] at hretrying
  cases hretrying

/-- The first call of a chain that has been retried has its retry made. -/
theorem Inv.root_retried (hs : Inv limit s) {leaf : ℕ} (hpos : 1 ≤ s.retries leaf)
    (hchain : ∀ c, s.root c = s.root leaf → c ≠ leaf → ∃ again, s.call c = .retried again) :
    s.root (s.root leaf) = s.root leaf ∧ s.root leaf ≠ leaf ∧
      ∃ again, s.call (s.root leaf) = .retried again := by
  obtain ⟨hlt, hzero, _⟩ := hs.rooted hpos
  have hroot := hs.first hzero
  exact ⟨hroot, hlt.ne, hchain _ hroot hlt.ne⟩

/-- The climbing call is done, one way or the other. -/
theorem Inv.counts_of_leaf_returned (hs : Inv limit s) {leaf : ℕ} (isOk : Bool)
    (hundisturbed : s.Undisturbed leaf)
    (hchain : ∀ c, s.root c = s.root leaf → c ≠ leaf → ∃ again, s.call c = .retried again)
    (hpos : 1 ≤ s.retries leaf) :
    Counts limit { s with call := Function.update s.call leaf (.returned isOk) } := by
  obtain ⟨hroot, hne, again, hretried⟩ := hs.root_retried hpos hchain
  apply Counts.spent (s.root leaf)
  · intro c hc
    have hquiet := hundisturbed c (by rwa [← hroot])
    have hcleaf : c ≠ leaf := by
      rintro rfl
      exact hc hroot.symm
    simpa [Pool.Quiet, hcleaf] using hquiet
  · have hroot' : Function.update s.call leaf (.returned isOk) (s.root leaf) =
        .retried again := by simpa [hne] using hretried
    exact Pool.not_quiet_of_retried hroot'
  · intro d hd
    by_cases hdleaf : d = leaf
    · simp [hdleaf, Call.isBehind]
    · obtain ⟨again', hd'⟩ := hchain d (hd.trans hroot) hdleaf
      simp [hdleaf, hd', Call.isBehind]

theorem Inv.counts_start (hs : Inv limit s) :
    Counts limit { s with
      next := s.next + 1
      call := Function.update s.call s.next .running } := by
  obtain ⟨_, hroot, hzero⟩ := hs.fresh (le_refl s.next)
  have hquiet : ∀ c, s.Quiet c → Pool.Quiet { s with
      next := s.next + 1
      call := Function.update s.call s.next .running } c := by
    intro c hc
    by_cases hnext : c = s.next
    · subst hnext
      simp [Pool.Quiet, Call.isRetrying, hzero]
    · simpa [Pool.Quiet, hnext] using hc
  have hother : ∀ c, c < s.next → s.root s.next ≠ s.root c := by
    intro c hc
    have hle := hs.root_le c
    omega
  cases hs.counts with
  | clean hall hamount => exact .clean (fun c => hquiet c (hall c)) hamount
  | climbing leaf hundisturbed hchain hamount hle hleaf =>
      have hlt : leaf < s.next := by
        apply hs.lt_next
        rcases hleaf with ⟨h, _⟩ | ⟨h, _⟩ <;> simp [h]
      have hcall : Function.update s.call s.next .running leaf = s.call leaf :=
        Function.update_of_ne hlt.ne _ _
      apply Counts.climbing leaf
      · intro c hc
        exact hquiet c (hundisturbed c hc)
      · intro c hc hne
        obtain ⟨again, hretried⟩ := hchain c hc hne
        have hnext : c ≠ s.next := by
          rintro rfl
          exact hother leaf hlt hc
        exact ⟨again, by simpa [hnext] using hretried⟩
      · exact hamount
      · exact hle
      · simpa [hcall] using hleaf
  | spent c hundisturbed hnot hchain =>
      have hlt : c < s.next := by
        by_contra hle
        obtain ⟨haway, _, hzero⟩ := hs.fresh (Nat.le_of_not_lt hle)
        exact hnot (by simp [Pool.Quiet, haway, hzero, Call.isRetrying])
      apply Counts.spent c
      · intro d hd
        exact hquiet d (hundisturbed d hd)
      · simpa [Pool.Quiet, hlt.ne] using hnot
      · intro d hd
        have hnext : d ≠ s.next := by
          rintro rfl
          exact hother c hlt hd
        simpa [hnext] using hchain d hd

/-- A call without retries that is under way may come to any quiet end. -/
theorem Inv.counts_of_quiet (hs : Inv limit s) {q : ℕ} {call : Call} (hquiet : s.Quiet q)
    (hcall : s.call q = .running) (hend : call.isRetrying = false) :
    Counts limit { s with call := Function.update s.call q call } := by
  have hzero := hquiet.retries_eq_zero (by rw [hcall]; rfl)
  have hkept : ∀ c, s.Quiet c →
      Pool.Quiet { s with call := Function.update s.call q call } c := by
    intro c hc
    by_cases hq : c = q
    · subst hq
      simp [Pool.Quiet, hend, hzero]
    · simpa [Pool.Quiet, hq] using hc
  cases hs.counts with
  | clean hall hamount => exact .clean (fun c => hkept c (hall c)) hamount
  | climbing leaf hundisturbed hchain hamount hle hleaf =>
      have hne : leaf ≠ q := by
        rintro rfl
        rcases hleaf with ⟨h, _⟩ | ⟨_, hpos⟩
        · rw [hcall] at h
          cases h
        · omega
      apply Counts.climbing leaf
      · intro c hc
        exact hkept c (hundisturbed c hc)
      · intro c hc hcleaf
        obtain ⟨again, hretried⟩ := hchain c hc hcleaf
        have hq : c ≠ q := by
          rintro rfl
          rw [hcall] at hretried
          cases hretried
        exact ⟨again, by simpa [hq] using hretried⟩
      · exact hamount
      · exact hle
      · simpa [hne] using hleaf
  | spent c hundisturbed hnot hchain =>
      have hne : c ≠ q := by
        rintro rfl
        exact hnot hquiet
      apply Counts.spent c
      · intro d hd
        exact hkept d (hundisturbed d hd)
      · simpa [Pool.Quiet, hne] using hnot
      · intro d hd
        have hq : d ≠ q := by
          rintro rfl
          have hbehind := hchain d hd
          rw [hcall] at hbehind
          cases hbehind
        simpa [hq] using hchain d hd

theorem Inv.counts_settle (hs : Inv limit s) {q : ℕ} (isOk : Bool)
    (hcall : s.call q = .running) :
    Counts limit { s with call := Function.update s.call q (.returned isOk) } := by
  by_cases hquiet : s.Quiet q
  · exact hs.counts_of_quiet hquiet hcall rfl
  · cases hs.counts with
    | clean hall _ => exact absurd (hall q) hquiet
    | climbing leaf hundisturbed hchain _ _ hleaf =>
        by_cases hq : q = leaf
        · subst hq
          rcases hleaf with ⟨h, _⟩ | ⟨_, hpos⟩
          · rw [hcall] at h
            cases h
          · exact hs.counts_of_leaf_returned isOk hundisturbed hchain hpos
        · by_cases hroot : s.root q = s.root leaf
          · obtain ⟨again, hretried⟩ := hchain q hroot hq
            rw [hcall] at hretried
            cases hretried
          · exact absurd (hundisturbed q hroot) hquiet
    | spent c hundisturbed _ hchain =>
        by_cases hroot : s.root q = s.root c
        · have hbehind := hchain q hroot
          rw [hcall] at hbehind
          cases hbehind
        · exact absurd (hundisturbed q hroot) hquiet

theorem Inv.counts_lock (hs : Inv limit s) {q : ℕ} (hcall : s.call q = .running)
    (hundisturbed : s.Undisturbed q) :
    Counts limit { s with
      call := Function.update s.call q
        (if s.amount < limit then .waiting else .returned false) } := by
  by_cases hlt : s.amount < limit
  · rw [if_pos hlt]
    have hothers : ∀ c, s.root c ≠ s.root q →
        Pool.Quiet { s with call := Function.update s.call q .waiting } c := by
      intro c hc
      have hne : c ≠ q := by
        rintro rfl
        exact hc rfl
      simpa [Pool.Quiet, hne] using hundisturbed c hc
    have hleaf : Function.update s.call q Call.waiting q = .waiting := by simp
    rcases hs.standing hcall hundisturbed with ⟨_, hamount, hzero⟩ | ⟨hchain, hamount, hle, _⟩
    · refine .climbing q hothers ?_ (hamount.trans hzero.symm) hlt.le (.inl ⟨hleaf, hlt⟩)
      intro c hc hne
      exact absurd (hs.eq_of_root hzero (by rw [hcall]; rfl) hc) hne
    · refine .climbing q hothers ?_ hamount hle (.inl ⟨hleaf, hlt⟩)
      intro c hc hne
      obtain ⟨again, hretried⟩ := hchain c hc hne
      exact ⟨again, by simpa [hne] using hretried⟩
  · rw [if_neg hlt]
    exact hs.counts_settle false hcall

theorem Inv.counts_retry (hs : Inv limit s) {q : ℕ} (hcall : s.call q = .waiting) :
    Counts limit
      { next := s.next + 1
        call := Function.update (Function.update s.call q (.retried s.next)) s.next .running
        amount := s.amount + 1
        root := Function.update s.root s.next (s.root q)
        retries := Function.update s.retries s.next (s.retries q + 1) } := by
  have hnot : ¬ s.Quiet q := by
    rintro ⟨hretrying, _⟩
    rw [hcall] at hretrying
    cases hretrying
  have hlt : q < s.next := hs.lt_next (by simp [hcall])
  cases hs.counts with
  | clean hall _ => exact absurd (hall q) hnot
  | climbing leaf hundisturbed hchain hamount hle hleaf =>
      have hroot : s.root q = s.root leaf := by
        by_contra hne
        exact hnot (hundisturbed q hne)
      have hq : q = leaf := by
        by_contra hne
        obtain ⟨again, hretried⟩ := hchain q hroot hne
        rw [hcall] at hretried
        cases hretried
      subst hq
      have hbound : s.amount < limit := by
        rcases hleaf with ⟨_, hbound⟩ | ⟨hrunning, _⟩
        · exact hbound
        · rw [hcall] at hrunning
          cases hrunning
      apply Counts.climbing s.next
      · intro c hc
        have hnext : c ≠ s.next := by
          rintro rfl
          exact hc rfl
        simp only [Function.update_self, Function.update_of_ne hnext] at hc
        have hcq : c ≠ q := by
          rintro rfl
          exact hc rfl
        simpa [Pool.Quiet, hnext, hcq] using hundisturbed c hc
      · intro c hc hnext
        simp only [Function.update_self, Function.update_of_ne hnext] at hc
        by_cases hcq : c = q
        · exact ⟨s.next, by simp [hcq, hlt.ne]⟩
        · obtain ⟨again, hretried⟩ := hchain c hc hcq
          exact ⟨again, by simpa [hnext, hcq] using hretried⟩
      · simp [hamount]
      · exact hbound
      · right
        simp
  | spent c hundisturbed _ hchain =>
      by_cases hroot : s.root q = s.root c
      · have hbehind := hchain q hroot
        rw [hcall] at hbehind
        cases hbehind
      · exact absurd (hundisturbed q hroot) hnot

theorem Inv.counts_finish (hs : Inv limit s) {q again : ℕ} (isOk : Bool)
    (hcall : s.call q = .retried again) (hagain : s.call again = .returned isOk) :
    Counts limit { s with
      call := Function.update s.call q (.returned isOk)
      amount := if isOk then 0 else s.amount } := by
  have hnot := Pool.not_quiet_of_retried hcall
  obtain ⟨hroot, hretries⟩ := hs.retried hcall
  cases hs.counts with
  | clean hall _ => exact absurd (hall q) hnot
  | climbing leaf hundisturbed hchain _ _ hleaf =>
      -- the call it waits for would be the leaf, or have its retry made
      have hq : s.root q = s.root leaf := by
        by_contra hne
        exact hnot (hundisturbed q hne)
      by_cases hleafAgain : again = leaf
      · subst hleafAgain
        rcases hleaf with ⟨h, _⟩ | ⟨h, _⟩ <;> rw [hagain] at h <;> cases h
      · obtain ⟨later, hretried⟩ := hchain again (hroot.trans hq) hleafAgain
        rw [hagain] at hretried
        cases hretried
  | spent c hundisturbed _ hchain =>
      have hq : s.root q = s.root c := by
        by_contra hne
        exact hnot (hundisturbed q hne)
      have hothers : ∀ d, s.root d ≠ s.root c → Pool.Quiet { s with
          call := Function.update s.call q (.returned isOk)
          amount := if isOk then 0 else s.amount } d := by
        intro d hd
        have hne : d ≠ q := by
          rintro rfl
          exact hd hq
        simpa [Pool.Quiet, hne] using hundisturbed d hd
      have hbehind : ∀ d, s.root d = s.root c →
          (Function.update s.call q (.returned isOk) d).isBehind = true := by
        intro d hd
        by_cases hdq : d = q
        · simp [hdq, Call.isBehind]
        · simpa [hdq] using hchain d hd
      by_cases hleft : ∃ d, s.root d = s.root c ∧ ¬ Pool.Quiet { s with
          call := Function.update s.call q (.returned isOk)
          amount := if isOk then 0 else s.amount } d
      · obtain ⟨d, hd, hdnot⟩ := hleft
        apply Counts.spent d _ hdnot
        · intro e he
          exact hbehind e (he.trans hd)
        · intro e he
          exact hothers e (by rwa [← hd])
      · -- a failed retry is not quiet, so this one succeeded
        have hall : ∀ d, Pool.Quiet { s with
            call := Function.update s.call q (.returned isOk)
            amount := if isOk then 0 else s.amount } d := by
          intro d
          by_cases hd : s.root d = s.root c
          · by_contra hdnot
            exact hleft ⟨d, hd, hdnot⟩
          · exact hothers d hd
        have hok : isOk = true := by
          have hne : again ≠ q := by
            rintro rfl
            rw [hcall] at hagain
            cases hagain
          rcases (hall again).2 with hzero | hreturned
          · simp only at hzero
            omega
          · simpa [hne, hagain] using hreturned
        exact .clean hall (by simp [hok])

theorem Inv.step (hs : Inv limit s) (h : Step limit s s') : Inv limit s' where
  fresh := hs.fresh_step h
  first := hs.first_step h
  rooted := hs.rooted_step h
  retried := hs.retried_step h
  counts := by
    cases h with
    | skip =>
        cases hs.counts with
        | clean hquiet hamount => exact .clean hquiet hamount
        | climbing leaf hundisturbed hchain hamount hle hleaf =>
            exact .climbing leaf hundisturbed hchain hamount hle hleaf
        | spent c hundisturbed hnot hchain => exact .spent c hundisturbed hnot hchain
    | start => exact hs.counts_start
    | settle isOk hcall => exact hs.counts_settle isOk hcall
    | lock hcall hundisturbed => exact hs.counts_lock hcall hundisturbed
    | retry hcall => exact hs.counts_retry hcall
    | finish isOk hcall hagain => exact hs.counts_finish isOk hcall hagain

end Kept

theorem inv_init (limit n : ℕ) : Inv limit ⟨n, fun _ => .away, 0, id, fun _ => 0⟩ where
  fresh _ := ⟨rfl, rfl, rfl⟩
  first _ := rfl
  rooted h := absurd h (Nat.not_succ_le_zero 0)
  retried h := nomatch h
  counts := .clean (fun _ => ⟨rfl, .inl rfl⟩) rfl

end RetryBudget
