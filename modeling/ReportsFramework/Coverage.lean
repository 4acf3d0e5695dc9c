/-
Collections that are filled window by window.  Of dated elements some are found and some
are missing; the elements found have no gap if no missing one is dated between two of
them.  A window that is filled from its end keeps it so if it meets the elements found.
-/
import Mathlib.Data.Set.Basic
import Mathlib.Order.Lattice

namespace Coverage

variable {ρ τ : Type*} [LinearOrder τ] {date : ρ → τ} {stop : τ}
variable {missing missing' found found' : Set ρ}

/-- What is missing after an element found is missing after all of them. -/
def Gapless (date : ρ → τ) (missing found : Set ρ) : Prop :=
  ∀ r ∈ missing, ∀ x ∈ found, ∀ y ∈ found, date x ≤ date r → date y < date r

/-- What is missing up to a date is missing before all elements found, and what is missing
after it after all of them. -/
def Splits (date : ρ → τ) (stop : τ) (missing found : Set ρ) : Prop :=
  ∀ r ∈ missing, ∀ x ∈ found,
    (date x ≤ date r → stop < date r) ∧ (stop < date r → date x < date r)

theorem Gapless.mono (h : Gapless date missing found) (hmissing : missing' ⊆ missing)
    (hfound : found' ⊆ found) : Gapless date missing' found' := by
  intro r hr x hx y hy hle
  exact h r (hmissing hr) x (hfound hx) y (hfound hy) hle

/-- What is missing before an element found is missing before all of them. -/
theorem Gapless.lt_of_le (h : Gapless date missing found) {r x y : ρ} (hr : r ∈ missing)
    (hx : x ∈ found) (hle : date r ≤ date x) (hy : y ∈ found) : date r < date y := by
  by_contra hge
  have hlt := h r hr y hy x hx (not_lt.mp hge)
  exact absurd hle (not_le.mpr hlt)

theorem Splits.gapless (h : Splits date stop missing found) : Gapless date missing found := by
  intro r hr x hx y hy hle
  exact (h r hr y hy).2 ((h r hr x hx).1 hle)

/-- A window that ends where the elements found begin, and that all that is missing before
them lies in. -/
theorem Gapless.splits (h : Gapless date missing found) (hstop : ∀ x ∈ found, stop ≤ date x)
    (hbefore : ∀ r ∈ missing, ∀ x ∈ found, date r ≤ date x → date r ≤ stop) :
    Splits date stop missing found := by
  intro r hr x hx
  constructor
  · intro hle
    exact (hstop x hx).trans_lt (h r hr x hx x hx hle)
  · intro hlt
    by_contra hge
    exact absurd hlt (not_lt.mpr (hbefore r hr x hx (not_lt.mp hge)))

/-- The window is filled from its end: what is missing after a new element is missing
behind the window. -/
theorem Splits.fill (h : Splits date stop missing found) (hmissing : missing' ⊆ missing)
    (hfound : ∀ x ∈ found', x ∈ found ∨
      date x ≤ stop ∧ ∀ r ∈ missing', date x ≤ date r → stop < date r) :
    Splits date stop missing' found' := by
  intro r hr x hx
  rcases hfound x hx with hold | ⟨hstop, hnew⟩
  · exact h r (hmissing hr) x hold
  · exact ⟨hnew r hr, fun hlt => hstop.trans_lt hlt⟩

end Coverage
