/-
Computations that change a state and may throw.  What has been changed by then stays
changed, unless it is rolled back.
-/
import Mathlib.Logic.Basic
import Mathlib.Tactic.SplitIfs

/-- The outcome and the state it leaves. -/
def Attempt (σ ε α : Type) := σ → Except ε α × σ

namespace Attempt

variable {σ ε α β : Type}

instance : Monad (Attempt σ ε) where
  pure a := fun s => (.ok a, s)
  bind x f := fun s =>
    match x s with
    | (.ok a, s') => f a s'
    | (.error e, s') => (.error e, s')

/-- `throw`. -/
def fail (e : ε) : Attempt σ ε α := fun s => (.error e, s)

/-- An error if the condition holds. -/
def failIf (c : Bool) (e : ε) : Attempt σ ε Unit := if c then fail e else pure ()

/-- Nothing is done if the condition holds. -/
def skipIf (c : Bool) (x : Attempt σ ε Unit) : Attempt σ ε Unit := if c then pure () else x

def read : Attempt σ ε σ := fun s => (.ok s, s)

def write (f : σ → σ) : Attempt σ ε Unit := fun s => (.ok (), f s)

/-- A value that may be missing. -/
def orFail (e : ε) : Option α → Attempt σ ε α
  | some a => pure a
  | none => fail e

/-- An error restores a part of the state. -/
def orRestore (restore : σ → σ → σ) (x : Attempt σ ε α) : Attempt σ ε α := fun s =>
  match x s with
  | (.ok a, s') => (.ok a, s')
  | (.error e, s') => (.error e, restore s s')

/-- Another attempt after some of the errors. -/
def orRetry (p : ε → σ → Bool) (retry : Attempt σ ε α) (x : Attempt σ ε α) : Attempt σ ε α :=
  fun s =>
    match x s with
    | (.ok a, s') => (.ok a, s')
    | (.error e, s') => if p e s' then retry s' else (.error e, s')

/-- `try … catch`. -/
def orHandle (handler : ε → Attempt σ ε α) (x : Attempt σ ε α) : Attempt σ ε α := fun s =>
  match x s with
  | (.ok a, s') => (.ok a, s')
  | (.error e, s') => handler e s'

/-- From the state, `Q` holds of a result and `E` of the state an error leaves. -/
def wp (x : Attempt σ ε α) (Q : α → σ → Prop) (E : σ → Prop) (s : σ) : Prop :=
  match x s with
  | (.ok a, s') => Q a s'
  | (.error _, s') => E s'

section Rules

variable {Q : α → σ → Prop} {E : σ → Prop} {s : σ}

@[simp] theorem wp_pure (a : α) : wp (pure a : Attempt σ ε α) Q E s ↔ Q a s := Iff.rfl

@[simp] theorem wp_fail (e : ε) : wp (fail e : Attempt σ ε α) Q E s ↔ E s := Iff.rfl

@[simp] theorem wp_read {Q : σ → σ → Prop} : wp (read : Attempt σ ε σ) Q E s ↔ Q s s := Iff.rfl

@[simp] theorem wp_write {Q : Unit → σ → Prop} (f : σ → σ) :
    wp (write f : Attempt σ ε Unit) Q E s ↔ Q () (f s) := Iff.rfl

@[simp] theorem wp_bind {Q : β → σ → Prop} (x : Attempt σ ε α) (f : α → Attempt σ ε β) :
    wp (x >>= f) Q E s ↔ wp x (fun a s' => wp (f a) Q E s') E s := by
  unfold wp
  show (match (match x s with
    | (.ok a, s') => f a s'
    | (.error e, s') => (.error e, s') : Except ε β × σ) with
    | (.ok a, s') => Q a s'
    | (.error _, s') => E s') ↔ _
  cases hx : x s with
  | mk res s' => cases res <;> rfl

theorem wp_ite {c : Prop} [Decidable c] {x y : Attempt σ ε α} :
    wp (if c then x else y) Q E s ↔ (c → wp x Q E s) ∧ (¬ c → wp y Q E s) := by
  split_ifs with h <;> simp [h]

theorem wp_failIf {Q : Unit → σ → Prop} (c : Bool) (e : ε) :
    wp (failIf c e : Attempt σ ε Unit) Q E s ↔ (c = true → E s) ∧ (c = false → Q () s) := by
  cases c <;> simp [failIf]

theorem wp_skipIf {Q : Unit → σ → Prop} (c : Bool) (x : Attempt σ ε Unit) :
    wp (skipIf c x) Q E s ↔ (c = true → Q () s) ∧ (c = false → wp x Q E s) := by
  cases c <;> simp [skipIf]

theorem wp_orFail (e : ε) (a? : Option α) :
    wp (orFail e a? : Attempt σ ε α) Q E s ↔ (∀ a, a? = some a → Q a s) ∧ (a? = none → E s) := by
  cases a? <;> simp [orFail]

theorem wp_mono {x : Attempt σ ε α} {Q' : α → σ → Prop} {E' : σ → Prop} (h : wp x Q E s)
    (hQ : ∀ a s', Q a s' → Q' a s') (hE : ∀ s', E s' → E' s') : wp x Q' E' s := by
  unfold wp at h ⊢
  cases hx : x s with
  | mk res s' =>
    rw [hx] at h
    cases res with
    | ok a => exact hQ a s' h
    | error e => exact hE s' h

theorem wp_and {x : Attempt σ ε α} {Q' : α → σ → Prop} {E' : σ → Prop} (h : wp x Q E s)
    (h' : wp x Q' E' s) : wp x (fun a s' => Q a s' ∧ Q' a s') (fun s' => E s' ∧ E' s') s := by
  unfold wp at h h' ⊢
  cases hx : x s with
  | mk res s' =>
    rw [hx] at h h'
    cases res <;> exact ⟨h, h'⟩

theorem wp_orRestore {x : Attempt σ ε α} {restore : σ → σ → σ} :
    wp (orRestore restore x) Q E s ↔ wp x Q (fun s' => E (restore s s')) s := by
  unfold wp orRestore
  cases hx : x s with
  | mk res s' => cases res <;> rfl

/-- A retry is made in a state that an error has left. -/
theorem wp_orRetry {x retry : Attempt σ ε α} {p : ε → σ → Bool} {E' : σ → Prop}
    (h : wp x Q E' s) (hE : ∀ s', E' s' → E s') (hretry : ∀ s', E' s' → wp retry Q E s') :
    wp (orRetry p retry x) Q E s := by
  unfold wp orRetry at *
  cases hx : x s with
  | mk res s' =>
    rw [hx] at h
    cases res with
    | ok a => exact h
    | error e =>
      dsimp only
      cases p e s' with
      | true => exact hretry s' h
      | false => exact hE s' h

end Rules

section Keeps

variable {κ : Type} {f : σ → κ}

/-- A part of the state stays as it is, come what may. -/
def Keeps (f : σ → κ) (x : Attempt σ ε α) : Prop :=
  ∀ s, f (x s).2 = f s

theorem keeps_iff {x : Attempt σ ε α} :
    Keeps f x ↔ ∀ s, wp x (fun _ s' => f s' = f s) (fun s' => f s' = f s) s := by
  refine forall_congr' fun s => ?_
  unfold wp
  cases hx : x s with
  | mk res s' => cases res <;> rfl

@[simp] theorem keeps_pure (a : α) : Keeps f (pure a : Attempt σ ε α) := fun _ => rfl

@[simp] theorem keeps_fail (e : ε) : Keeps f (fail e : Attempt σ ε α) := fun _ => rfl

@[simp] theorem keeps_read : Keeps f (read : Attempt σ ε σ) := fun _ => rfl

@[simp] theorem keeps_orFail (e : ε) (a? : Option α) : Keeps f (orFail e a? : Attempt σ ε α) := by
  cases a? <;> exact fun _ => rfl

@[simp] theorem keeps_failIf (c : Bool) (e : ε) : Keeps f (failIf c e : Attempt σ ε Unit) := by
  cases c <;> exact fun _ => rfl

theorem keeps_write {g : σ → σ} (h : ∀ s, f (g s) = f s) :
    Keeps f (write g : Attempt σ ε Unit) := h

theorem Keeps.bind {x : Attempt σ ε α} {g : α → Attempt σ ε β} (hx : Keeps f x)
    (hg : ∀ a, Keeps f (g a)) : Keeps f (x >>= g) := by
  intro s
  have hfirst := hx s
  show f ((match x s with
    | (.ok a, s') => g a s'
    | (.error e, s') => (.error e, s') : Except ε β × σ).2) = f s
  cases hres : x s with
  | mk res s' =>
    rw [hres] at hfirst
    cases res with
    | ok a => exact (hg a s').trans hfirst
    | error e => exact hfirst

theorem Keeps.ite {c : Prop} [Decidable c] {x y : Attempt σ ε α} (hx : Keeps f x)
    (hy : Keeps f y) : Keeps f (if c then x else y) := by
  split_ifs
  · exact hx
  · exact hy

theorem Keeps.skipIf (c : Bool) {x : Attempt σ ε Unit} (hx : Keeps f x) :
    Keeps f (skipIf c x) := by
  cases c
  · exact hx
  · exact keeps_pure _

theorem Keeps.orRestore {restore : σ → σ → σ} {x : Attempt σ ε α} (hx : Keeps f x)
    (h : ∀ s s', f s' = f s → f (restore s s') = f s) : Keeps f (orRestore restore x) := by
  intro s
  have hfirst := hx s
  unfold Attempt.orRestore
  cases hres : x s with
  | mk res s' =>
    rw [hres] at hfirst
    cases res with
    | ok a => exact hfirst
    | error e => exact h s s' hfirst

theorem Keeps.orRetry (p : ε → σ → Bool) {retry x : Attempt σ ε α} (hretry : Keeps f retry)
    (hx : Keeps f x) : Keeps f (orRetry p retry x) := by
  intro s
  have hfirst := hx s
  unfold Attempt.orRetry
  cases hres : x s with
  | mk res s' =>
    rw [hres] at hfirst
    cases res with
    | ok a => exact hfirst
    | error e =>
      dsimp only
      split_ifs
      · exact (hretry s').trans hfirst
      · exact hfirst

end Keeps

section Run

/-- What an error leaves out. -/
theorem bind_of_error {x : Attempt σ ε α} {g : α → Attempt σ ε β} {s s' : σ} {e : ε}
    (h : x s = (.error e, s')) : (x >>= g) s = (.error e, s') := by
  show (match x s with
    | (.ok a, s') => g a s'
    | (.error e, s') => (.error e, s')) = _
  rw [h]

theorem bind_of_ok {x : Attempt σ ε α} {g : α → Attempt σ ε β} {s s' : σ} {a : α}
    (h : x s = (.ok a, s')) : (x >>= g) s = g a s' := by
  show (match x s with
    | (.ok a, s') => g a s'
    | (.error e, s') => (.error e, s')) = _
  rw [h]

theorem bind_apply (x : Attempt σ ε α) (g : α → Attempt σ ε β) (s : σ) :
    (x >>= g) s = match x s with
      | (.ok a, s') => g a s'
      | (.error e, s') => (.error e, s') := rfl

theorem bind_assoc {γ : Type} (x : Attempt σ ε α) (f : α → Attempt σ ε β)
    (g : β → Attempt σ ε γ) : x >>= f >>= g = x >>= fun a => f a >>= g := by
  funext s
  simp only [bind_apply]
  rcases x s with ⟨res, s'⟩
  cases res <;> rfl

theorem pure_apply (a : α) (s : σ) : (pure a : Attempt σ ε α) s = (.ok a, s) := rfl

theorem fail_apply (e : ε) (s : σ) : (fail e : Attempt σ ε α) s = (.error e, s) := rfl

theorem read_apply (s : σ) : (read : Attempt σ ε σ) s = (.ok s, s) := rfl

theorem write_apply (f : σ → σ) (s : σ) : (write f : Attempt σ ε Unit) s = (.ok (), f s) := rfl

theorem orHandle_of_ok {handler : ε → Attempt σ ε α} {x : Attempt σ ε α} {s s' : σ} {a : α}
    (h : x s = (.ok a, s')) : orHandle handler x s = (.ok a, s') := by
  rw [orHandle, h]

theorem orHandle_of_error {handler : ε → Attempt σ ε α} {x : Attempt σ ε α} {s s' : σ} {e : ε}
    (h : x s = (.error e, s')) : orHandle handler x s = handler e s' := by
  rw [orHandle, h]

theorem isOk_iff_wp {x : Attempt σ ε α} {s : σ} :
    (x s).1.isOk = true ↔ wp x (fun _ _ => True) (fun _ => False) s := by
  unfold wp
  cases hx : x s with
  | mk res s' => cases res <;> simp [Except.isOk, Except.toBool]

end Run

end Attempt
