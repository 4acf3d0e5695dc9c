/-
A map with a second index by a key of its values, both kept by hand.  They are
inverse of each other as long as a value is stored under the token its key leads to,
or under a new token if its key leads nowhere.
-/
import Mathlib.Logic.Function.Basic
import Mathlib.Tactic.SplitIfs

variable {τ κ σ : Type*}

structure IndexedMap (key : σ → κ) (τ : Type*) where
  val : τ → Option σ
  index : κ → Option τ

namespace IndexedMap

variable {key : σ → κ} {m : IndexedMap key τ} {t t' : τ} {v v' : σ} {k : κ}

def empty : IndexedMap key τ := ⟨fun _ => none, fun _ => none⟩

/-- Every value is led to by its key, and every entry leads to a value with its key. -/
structure Inverse (m : IndexedMap key τ) : Prop where
  index_key : ∀ t v, m.val t = some v → m.index (key v) = some t
  val_index : ∀ k t, m.index k = some t → ∃ v, m.val t = some v ∧ key v = k

variable [DecidableEq τ] [DecidableEq κ]

def set (m : IndexedMap key τ) (t : τ) (v : σ) : IndexedMap key τ :=
  ⟨Function.update m.val t (some v), Function.update m.index (key v) (some t)⟩

/-- Delete a token and an entry of the index. -/
def erase (m : IndexedMap key τ) (t : τ) (k : κ) : IndexedMap key τ :=
  ⟨Function.update m.val t none, Function.update m.index k none⟩

/-- The key leads to the token, or neither is in use. -/
def Fits (m : IndexedMap key τ) (t : τ) (k : κ) : Prop :=
  m.index k = some t ∨ m.index k = none ∧ m.val t = none

omit [DecidableEq τ] [DecidableEq κ] in
theorem inverse_empty : (empty : IndexedMap key τ).Inverse where
  index_key _ _ h := by simp [empty] at h
  val_index _ _ h := by simp [empty] at h

theorem val_set (m : IndexedMap key τ) (t t' : τ) (v : σ) :
    (m.set t v).val t' = if t' = t then some v else m.val t' := by
  simp [set, Function.update_apply]

theorem index_set (m : IndexedMap key τ) (t : τ) (v : σ) (k : κ) :
    (m.set t v).index k = if k = key v then some t else m.index k := by
  simp [set, Function.update_apply]

theorem val_erase (m : IndexedMap key τ) (t t' : τ) (k : κ) :
    (m.erase t k).val t' = if t' = t then none else m.val t' := by
  simp [erase, Function.update_apply]

theorem index_erase (m : IndexedMap key τ) (t : τ) (k k' : κ) :
    (m.erase t k).index k' = if k' = k then none else m.index k' := by
  simp [erase, Function.update_apply]

omit [DecidableEq τ] [DecidableEq κ] in
/-- A token whose key leads to it had that key before. -/
theorem Inverse.key_eq (h : m.Inverse) (hfits : m.Fits t k) (hval : m.val t = some v) :
    key v = k := by
  rcases hfits with hindex | ⟨_, hnone⟩
  · obtain ⟨v', hv', hkey⟩ := h.val_index k t hindex
    obtain rfl := Option.some.inj (hval.symm.trans hv')
    exact hkey
  · rw [hval] at hnone
    cases hnone

theorem Inverse.set (h : m.Inverse) (hfits : m.Fits t (key v)) : (m.set t v).Inverse where
  index_key t' v' hv' := by
    rw [val_set] at hv'
    rw [index_set]
    by_cases ht : t' = t
    · rw [if_pos ht] at hv'
      obtain rfl := Option.some.inj hv'
      rw [if_pos rfl, ht]
    · rw [if_neg ht] at hv'
      have hindex := h.index_key t' v' hv'
      have hkey : key v' ≠ key v := by
        intro heq
        rw [heq] at hindex
        rcases hfits with hold | ⟨hnone, _⟩
        · exact ht (Option.some.inj (hindex.symm.trans hold))
        · rw [hnone] at hindex
          cases hindex
      rw [if_neg hkey]
      exact hindex
  val_index k t' hk := by
    rw [index_set] at hk
    by_cases hkey : k = key v
    · rw [if_pos hkey] at hk
      obtain rfl := Option.some.inj hk
      exact ⟨v, by rw [val_set, if_pos rfl], hkey.symm⟩
    · rw [if_neg hkey] at hk
      obtain ⟨v', hv', rfl⟩ := h.val_index k t' hk
      have ht : t' ≠ t := by
        rintro rfl
        exact hkey (h.key_eq hfits hv')
      exact ⟨v', by rw [val_set, if_neg ht]; exact hv', rfl⟩

/-- To delete a value, or nothing at all, together with the entry of its key. -/
theorem Inverse.erase (h : m.Inverse) (hval : ∀ v, m.val t = some v → key v = k)
    (hindex : ∀ t', m.index k = some t' → t' = t) : (m.erase t k).Inverse where
  index_key t' v hv := by
    rw [val_erase] at hv
    split_ifs at hv with ht
    have hold := h.index_key t' v hv
    rw [index_erase, if_neg]
    · exact hold
    · rintro rfl
      exact ht (hindex t' hold)
  val_index k' t' hk := by
    rw [index_erase] at hk
    split_ifs at hk with hkey
    obtain ⟨v, hv, rfl⟩ := h.val_index k' t' hk
    have ht : t' ≠ t := by
      rintro rfl
      exact hkey (hval v hv)
    exact ⟨v, by rw [val_erase, if_neg ht]; exact hv, rfl⟩

end IndexedMap
