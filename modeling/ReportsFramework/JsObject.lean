/-
JavaScript values as far as JSON needs them.  A plain object is the list of its entries in
the order of their insertion, with each key once.
-/
import Mathlib.Data.List.Basic
import Mathlib.Data.Rat.Defs
import Mathlib.Tactic.SplitIfs
import Mathlib.Tactic.Tauto

namespace Js

inductive Val
  | undefined
  | null
  | bool (b : Bool)
  | num (x : ℚ)
  | str (s : String)
  | arr (items : List Val)
  | obj (entries : List (String × Val))
deriving Inhabited

/-- The text, and an empty one for what is no text. -/
def Val.strD : Val → String
  | .str s => s
  | _ => ""

theorem Val.strD_str (s : String) : (Val.str s).strD = s := rfl

/-- The number, and zero for what is none. -/
def Val.numD : Val → ℚ
  | .num x => x
  | _ => 0

abbrev Obj := List (String × Val)

namespace Obj

/-- `o[key]`. -/
def get (o : Obj) (key : String) : Val :=
  (o.lookup key).getD .undefined

/-- `Object.keys`. -/
def keys (o : Obj) : List String :=
  o.map Prod.fst

/-- A key that is there keeps its place. -/
def set (o : Obj) (key : String) (val : Val) : Obj :=
  if key ∈ o.keys then o.map fun entry => if entry.1 = key then (key, val) else entry
  else o ++ [(key, val)]

/-- The object with the entries of another one spread over it. -/
def spread (o other : Obj) : Obj :=
  other.foldl (fun acc entry => acc.set entry.1 entry.2) o

/-- An object literal of spread objects. -/
def merge (objects : List Obj) : Obj :=
  objects.foldl spread []

/-- `omit` of the names. -/
def without (o : Obj) (names : List String) : Obj :=
  o.filter fun entry => entry.1 ∉ names

theorem get_cons (entry : String × Val) (o : Obj) (key : String) :
    get (entry :: o) key = if key = entry.1 then entry.2 else o.get key := by
  unfold get
  rw [List.lookup_cons]
  split_ifs with h
  · simp [h]
  · simp [beq_false_of_ne h]

theorem get_append (o other : Obj) (key : String) :
    get (o ++ other) key = if key ∈ o.keys then o.get key else other.get key := by
  induction o with
  | nil => rfl
  | cons entry o ih =>
    rw [List.cons_append, get_cons, get_cons, ih]
    by_cases h : key = entry.1
    · simp [keys, h]
    · rw [if_neg h, if_neg h]
      have hmem : key ∈ keys (entry :: o) ↔ key ∈ keys o := by simp [keys, h]
      simp only [hmem]

theorem get_of_not_mem {o : Obj} {key : String} (h : key ∉ o.keys) : o.get key = .undefined := by
  have happend := get_append o [] key
  rw [List.append_nil, if_neg h] at happend
  exact happend

theorem get_map_set (o : Obj) (key key' : String) (val : Val) :
    get (o.map fun entry => if entry.1 = key then (key, val) else entry) key' =
      if key' = key ∧ key ∈ o.keys then val else o.get key' := by
  induction o with
  | nil => simp [keys]
  | cons entry o ih =>
    rw [List.map_cons, get_cons, get_cons, ih]
    simp only [keys, List.map_cons, List.mem_cons]
    by_cases hentry : entry.1 = key
    · grind
    · grind

/-- Setting a key changes this key only. -/
theorem get_set (o : Obj) (key key' : String) (val : Val) :
    (o.set key val).get key' = if key' = key then val else o.get key' := by
  unfold set
  split_ifs with hmem hkey hkey
  · rw [get_map_set, if_pos ⟨hkey, hmem⟩]
  · rw [get_map_set, if_neg fun h => hkey h.1]
  · rw [get_append, hkey, if_neg hmem, get_cons, if_pos rfl]
  · rw [get_append, get_cons, if_neg hkey]
    split_ifs with hold
    · rfl
    · exact (get_of_not_mem hold).symm

theorem mem_keys_set {o : Obj} {key key' : String} {val : Val} :
    key' ∈ (o.set key val).keys ↔ key' = key ∨ key' ∈ o.keys := by
  unfold set
  split_ifs with hmem
  · have hmap : keys (o.map fun entry => if entry.1 = key then (key, val) else entry) = o.keys := by
      unfold keys
      rw [List.map_map]
      apply List.map_congr_left
      intro entry _
      by_cases h : entry.1 = key
      · simp [h]
      · simp [h]
    rw [hmap]
    constructor
    · exact .inr
    · rintro (rfl | h)
      · exact hmem
      · exact h
  · simp [keys, or_comm]

/-- What the other object does not have is kept. -/
theorem get_spread_of_not_mem {other : Obj} {key : String} (h : key ∉ other.keys) (o : Obj) :
    (o.spread other).get key = o.get key := by
  unfold spread
  induction other generalizing o with
  | nil => rfl
  | cons entry other ih =>
    simp only [keys, List.map_cons, List.mem_cons, not_or] at h
    rw [List.foldl_cons, ih h.2, get_set, if_neg h.1]

theorem mem_keys_spread {o other : Obj} {key : String} :
    key ∈ (o.spread other).keys ↔ key ∈ o.keys ∨ key ∈ other.keys := by
  unfold spread
  induction other generalizing o with
  | nil => simp [keys]
  | cons entry other ih =>
    rw [List.foldl_cons, ih, mem_keys_set]
    simp only [keys, List.map_cons, List.mem_cons]
    tauto

theorem mem_keys_merge {objects : List Obj} {key : String} :
    key ∈ (merge objects).keys ↔ ∃ o ∈ objects, key ∈ o.keys := by
  have hfold : ∀ acc : Obj,
      key ∈ keys (objects.foldl spread acc) ↔ key ∈ acc.keys ∨ ∃ o ∈ objects, key ∈ o.keys := by
    induction objects with
    | nil => simp
    | cons o objects ih =>
      intro acc
      rw [List.foldl_cons, ih, mem_keys_spread]
      simp only [List.mem_cons, exists_eq_or_imp]
      tauto
  rw [merge, hfold]
  simp [keys]

/-- A key that has one value wherever it is set. -/
theorem get_merge {objects : List Obj} {key : String} {val : Val}
    (hall : ∀ o ∈ objects, key ∈ o.keys → o = [(key, val)])
    (hmem : ∃ o ∈ objects, key ∈ o.keys) : (merge objects).get key = val := by
  have hfold : ∀ acc : Obj, (acc.get key = val ∨ ∃ o ∈ objects, key ∈ o.keys) →
      get (objects.foldl spread acc) key = val := by
    clear hmem
    induction objects with
    | nil => simp
    | cons o objects ih =>
      obtain ⟨hhead, hrest⟩ := List.forall_mem_cons.mp hall
      intro acc hacc
      rw [List.foldl_cons]
      apply ih hrest
      by_cases hkey : key ∈ o.keys
      · left
        rw [hhead hkey, spread, List.foldl_cons, List.foldl_nil, get_set, if_pos rfl]
      · rcases hacc with hacc | ⟨o', ho', hkey'⟩
        · left
          rw [get_spread_of_not_mem hkey, hacc]
        · rcases List.mem_cons.mp ho' with rfl | ho'
          · exact absurd hkey' hkey
          · exact .inr ⟨o', ho', hkey'⟩
  exact hfold [] (.inr hmem)

theorem mem_of_mem_keys {o : Obj} {key : String} (h : key ∈ o.keys) : (key, o.get key) ∈ o := by
  induction o with
  | nil => cases h
  | cons entry o ih =>
    rw [get_cons]
    split_ifs with hkey
    · rw [hkey]
      exact List.mem_cons_self
    · rcases List.mem_cons.mp h with hfirst | hrest
      · exact absurd hfirst hkey
      · exact List.mem_cons_of_mem _ (ih hrest)

theorem mem_of_mem_set {o : Obj} {key : String} {val : Val} {entry : String × Val}
    (h : entry ∈ o.set key val) : entry = (key, val) ∨ entry ∈ o := by
  unfold set at h
  split_ifs at h
  · obtain ⟨entry', hentry', rfl⟩ := List.mem_map.mp h
    split_ifs
    · exact .inl rfl
    · exact .inr hentry'
  · rcases List.mem_append.mp h with h | h
    · exact .inr h
    · exact .inl (List.mem_singleton.mp h)

/-- An entry of merged objects is one of them. -/
theorem mem_of_mem_merge {objects : List Obj} {entry : String × Val} (h : entry ∈ merge objects) :
    ∃ o ∈ objects, entry ∈ o := by
  have hspread : ∀ (other o : Obj), entry ∈ o.spread other → entry ∈ o ∨ entry ∈ other := by
    intro other
    induction other with
    | nil => exact fun o h => .inl h
    | cons first other ih =>
      intro o h
      rcases ih _ h with h | h
      · rcases mem_of_mem_set h with rfl | h
        · exact .inr List.mem_cons_self
        · exact .inl h
      · exact .inr (List.mem_cons_of_mem first h)
  have hfold : ∀ (objects : List Obj) (acc : Obj), entry ∈ objects.foldl spread acc →
      entry ∈ acc ∨ ∃ o ∈ objects, entry ∈ o := by
    intro objects
    induction objects with
    | nil => exact fun acc h => .inl h
    | cons o objects ih =>
      intro acc h
      rcases ih _ h with h | ⟨o', ho', h⟩
      · rcases hspread o acc h with h | h
        · exact .inl h
        · exact .inr ⟨o, List.mem_cons_self, h⟩
      · exact .inr ⟨o', List.mem_cons_of_mem o ho', h⟩
  exact (hfold objects [] h).resolve_left List.not_mem_nil

theorem mem_keys_without {o : Obj} {names : List String} {key : String} :
    key ∈ (o.without names).keys ↔ key ∈ o.keys ∧ key ∉ names := by
  simp only [keys, without, List.mem_map, List.mem_filter, decide_eq_true_eq]
  constructor
  · rintro ⟨entry, ⟨hmem, hnot⟩, rfl⟩
    exact ⟨⟨entry, hmem, rfl⟩, hnot⟩
  · rintro ⟨⟨entry, hmem, rfl⟩, hnot⟩
    exact ⟨entry, ⟨hmem, hnot⟩, rfl⟩

end Obj

namespace Val

/-- The entries of a spread value. -/
def entries : Val → Obj
  | obj entries => entries
  | arr items => items.zipIdx.map fun (item, i) => (toString i, item)
  | str s => s.toList.zipIdx.map fun (c, i) => (toString i, str (String.singleton c))
  | _ => []

/-- A truthy value of the type `object`. -/
def isObject : Val → Bool
  | arr _ | obj _ => true
  | _ => false

/-- `Array.isArray`. -/
def isArray : Val → Bool
  | arr _ => true
  | _ => false

end Val

end Js
