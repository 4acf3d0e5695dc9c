/-
Machines that take one action after another.  A run may be held to a condition
on its steps; what every step keeps, every run keeps.
-/
import Mathlib.Data.Option.Basic
import Mathlib.Tactic.SplitIfs

variable {σ α : Type*}

/-- `step s a` is `none` if the action cannot happen in the state. -/
structure Machine (σ α : Type*) where
  init : σ → Prop
  step : σ → α → Option σ

namespace Machine

/-- The states reached by steps that meet the condition. -/
inductive Reachable (M : Machine σ α) (p : σ → α → Prop) : σ → Prop
  | init {s} (hs : M.init s) : Reachable M p s
  | step {s s' a} (hs : Reachable M p s) (ha : p s a) (h : M.step s a = some s') :
      Reachable M p s'

/-- Any step may be taken. -/
def free (_ : σ) (_ : α) : Prop := True

instance (s : σ) (a : α) : Decidable (free s a) := inferInstanceAs (Decidable True)

variable {M : Machine σ α} {p : σ → α → Prop} {s s' : σ}

theorem Reachable.invariant {I : σ → Prop} (hs : M.Reachable p s)
    (hinit : ∀ s, M.init s → I s)
    (hstep : ∀ s a s', I s → p s a → M.step s a = some s' → I s') : I s := by
  induction hs with
  | init hs => exact hinit _ hs
  | step _ ha h ih => exact hstep _ _ _ ih ha h

/-- Take the actions in order, as long as they meet the condition. -/
def run (M : Machine σ α) (p : σ → α → Prop) [∀ s a, Decidable (p s a)] (s : σ) :
    List α → Option σ
  | [] => some s
  | a :: rest => if p s a then (M.step s a).bind fun s' => M.run p s' rest else none

theorem Reachable.run [∀ s a, Decidable (p s a)] (hs : M.Reachable p s)
    {actions : List α} (h : M.run p s actions = some s') : M.Reachable p s' := by
  induction actions generalizing s with
  | nil =>
      obtain rfl := Option.some.inj h
      exact hs
  | cons a rest ih =>
      rw [Machine.run] at h
      split_ifs at h with ha
      obtain ⟨next, hnext, hrest⟩ := Option.bind_eq_some_iff.mp h
      exact ih (hs.step ha hnext) hrest

/-- What every step by one of the actions keeps, the run from a state by them keeps. -/
theorem run_invariant_of_mem [∀ s a, Decidable (p s a)] {I : σ → Prop} {actions : List α}
    (hstep : ∀ s, ∀ a ∈ actions, ∀ s', I s → p s a → M.step s a = some s' → I s') (h : I s)
    (hrun : M.run p s actions = some s') : I s' := by
  induction actions generalizing s with
  | nil =>
      obtain rfl := Option.some.inj hrun
      exact h
  | cons a rest ih =>
      rw [Machine.run] at hrun
      split_ifs at hrun with ha
      obtain ⟨next, hnext, hrest⟩ := Option.bind_eq_some_iff.mp hrun
      apply ih _ (hstep s a List.mem_cons_self next h ha hnext) hrest
      exact fun s' a' ha' => hstep s' a' (List.mem_cons_of_mem a ha')

/-- What every step keeps, every run from a state keeps. -/
theorem run_invariant [∀ s a, Decidable (p s a)] {I : σ → Prop}
    (hstep : ∀ s a s', I s → p s a → M.step s a = some s' → I s') (h : I s) {actions : List α}
    (hrun : M.run p s actions = some s') : I s' :=
  run_invariant_of_mem (fun s a _ s' => hstep s a s') h hrun

/-- A run that can be computed shows that a state is reached. -/
theorem exists_of_run [∀ s a, Decidable (p s a)] (hs : M.init s) {actions : List α}
    {P : σ → Prop} [DecidablePred P]
    (h : (M.run p s actions).any (fun s' => decide (P s')) = true) :
    ∃ s', M.Reachable p s' ∧ P s' := by
  cases hrun : M.run p s actions with
  | none =>
      rw [hrun] at h
      cases h
  | some s' =>
      rw [hrun] at h
      exact ⟨s', (Reachable.init hs).run hrun, of_decide_eq_true h⟩

/-- If every step of one machine is a step of another, every run is one. -/
theorem simulate {τ : Type*} {N : Machine τ α} [∀ s a, Decidable (p s a)] (R : σ → τ → Prop)
    (hstep : ∀ s t a s', R s t → p s a → M.step s a = some s' →
      ∃ t', N.step t a = some t' ∧ R s' t')
    {t : τ} (h : R s t) {actions : List α} (hrun : M.run p s actions = some s') :
    ∃ t', N.run free t actions = some t' ∧ R s' t' := by
  induction actions generalizing s t with
  | nil =>
      obtain rfl := Option.some.inj hrun
      exact ⟨t, rfl, h⟩
  | cons a rest ih =>
      rw [Machine.run] at hrun
      split_ifs at hrun with ha
      obtain ⟨next, hnext, hrest⟩ := Option.bind_eq_some_iff.mp hrun
      obtain ⟨t₁, ht₁, h₁⟩ := hstep s t a next h ha hnext
      obtain ⟨t', ht', hfinal⟩ := ih h₁ hrest
      refine ⟨t', ?_, hfinal⟩
      have hfree : free t a := trivial
      rw [Machine.run, if_pos hfree]
      exact Option.bind_eq_some_iff.mpr ⟨t₁, ht₁, ht'⟩

end Machine
