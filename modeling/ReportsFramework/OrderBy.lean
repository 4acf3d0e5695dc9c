/-
`orderBy`: the order of a collection by several keys, each with a direction.
-/
import Mathlib.Algebra.Order.Ring.Rat
import Mathlib.Data.List.Lex
import Mathlib.Tactic.Order
import ReportsFramework.Comparator
import ReportsFramework.JsObject
import ReportsFramework.JsString

namespace ReportsFramework

open Js

namespace OrderBy

/-- `obj?.[key]`. -/
def prop : Js.Val → String → Js.Val
  | .obj entries, key => Obj.get entries key
  | .arr items, key =>
      if key = "length" then .num items.length else Obj.get (Js.Val.arr items).entries key
  | .str s, key =>
      if key = "length" then .num (utf16 s).length else Obj.get (Js.Val.str s).entries key
  | _, _ => .undefined

def isNullish : Js.Val → Bool
  | .undefined | .null => true
  | _ => false

/-- A key of another type than a text is not split. -/
inductive Iteratee
  | fn (f : Js.Val → Js.Val)
  | path (keys : String)
  | key (k : String)

/-- `_getValue`. -/
def getValue (obj : Js.Val) (keys : List String) : Js.Val :=
  if isNullish obj then obj else keys.foldl prop obj

def Iteratee.value (obj : Js.Val) : Iteratee → Js.Val
  | fn f => f obj
  | path keys => getValue obj ((keys.toList.splitOn '.').map String.ofList)
  | key k => getValue obj [k]

/-- `===`; no two objects are the same. -/
def strictEq : Js.Val → Js.Val → Bool
  | .undefined, .undefined | .null, .null => true
  | .bool b, .bool b' => b == b'
  | .num x, .num y => x == y
  | .str s, .str t => s == t
  | _, _ => false

/-- `<` of two numbers or two texts. -/
def lessThan : Js.Val → Js.Val → Bool
  | .num x, .num y => x < y
  | .str s, .str t => utf16 s < utf16 t
  | _, _ => false

/-- What one key returns; `none` is `continue`. -/
def keyOrder (direction : ℤ) (valA valB : Js.Val) : Option ℤ :=
  if strictEq valA valB then none
  else if isNullish valA then some 1
  else if isNullish valB then some (-1)
  else if lessThan valB valA then some direction
  else if lessThan valA valB then some (-direction)
  else none

def direction (order : Option String) : ℤ :=
  if order = some "desc" then -1 else 1

/-- The function that the collection is sorted by. -/
def compareFn : List Iteratee → List String → Js.Val → Js.Val → ℤ
  | [], _, _, _ => 0
  | iteratee :: iteratees, orders, a, b =>
      match keyOrder (direction orders.head?) (iteratee.value a) (iteratee.value b) with
      | some order => order
      | none => compareFn iteratees orders.tail a b

def isUndefined : Js.Val → Bool
  | .undefined => true
  | _ => false

/-- The sort puts the elements `undefined` last without a comparison. -/
def orderBy (collection : List Js.Val) (iteratees : List Iteratee) (orders : List String) :
    List Js.Val :=
  Comparator.sort (compareFn iteratees orders) (collection.filter fun item => !isUndefined item) ++
    collection.filter isUndefined

/-- `orderBy` of objects that have a type of their own. -/
def orderObjects {α : Type*} (toVal : α → Js.Val) (collection : List α) (iteratees : List Iteratee)
    (orders : List String) : List α :=
  Comparator.sort (fun a b => compareFn iteratees orders (toVal a) (toVal b)) collection

section Order

/-- The order of two values in a direction, with those that are null-like last and equal. -/
def keyCompare (direction : ℤ) (valA valB : Js.Val) : ℤ :=
  if isNullish valA then if isNullish valB then 0 else 1
  else if isNullish valB then -1
  else if lessThan valB valA then direction
  else if lessThan valA valB then -direction
  else 0

/-- The lexicographic order by the keys in their directions. -/
def lexCompare : List Iteratee → List String → Js.Val → Js.Val → ℤ
  | [], _ => fun _ _ => 0
  | iteratee :: iteratees, orders =>
      Comparator.lex
        (fun a b => keyCompare (direction orders.head?) (iteratee.value a) (iteratee.value b))
        (lexCompare iteratees orders.tail)

/-- The values of a key that are not null-like are all numbers or all texts. -/
def IsComparable (collection : List Js.Val) (iteratee : Iteratee) : Prop :=
  (∀ a ∈ collection, isNullish (iteratee.value a) = true ∨ ∃ x, iteratee.value a = .num x) ∨
    ∀ a ∈ collection, isNullish (iteratee.value a) = true ∨ ∃ s, iteratee.value a = .str s

/-- The comparator is consistent, and the result is the collection in the lexicographic order,
with equal elements in the order they had. -/
structure OrdersStably (collection : List Js.Val) (iteratees : List Iteratee)
    (orders : List String) : Prop where
  consistent : Comparator.IsConsistent (compareFn iteratees orders) collection
  perm : (orderBy collection iteratees orders).Perm collection
  sorted : (orderBy collection iteratees orders).Pairwise fun a b =>
    lexCompare iteratees orders a b ≤ 0
  stable : ∀ a ∈ collection,
    (orderBy collection iteratees orders).filter (fun b => lexCompare iteratees orders a b = 0) =
      collection.filter fun b => lexCompare iteratees orders a b = 0

/-- One value is `undefined` and the other one `null`. -/
def isMixed : Js.Val → Js.Val → Bool
  | .undefined, .null | .null, .undefined => true
  | _, _ => false

/-- A key is mixed in two elements that the keys before do not tell apart. -/
def MixesNulls : List Iteratee → Js.Val → Js.Val → Prop
  | [], _, _ => False
  | iteratee :: iteratees, a, b =>
      isMixed (iteratee.value a) (iteratee.value b) = true ∨
        keyOrder 1 (iteratee.value a) (iteratee.value b) = none ∧ MixesNulls iteratees a b

instance instDecidableMixesNulls : ∀ (iteratees : List Iteratee) (a b : Js.Val),
    Decidable (MixesNulls iteratees a b)
  | [], _, _ => instDecidableFalse
  | iteratee :: iteratees, a, b =>
      have := instDecidableMixesNulls iteratees a b
      inferInstanceAs (Decidable (isMixed (iteratee.value a) (iteratee.value b) = true ∨
        keyOrder 1 (iteratee.value a) (iteratee.value b) = none ∧ MixesNulls iteratees a b))

end Order

section Keys

variable {d : ℤ} {valA valB : Js.Val}

theorem strictEq_comm (valA valB : Js.Val) : strictEq valA valB = strictEq valB valA := by
  cases valA <;> cases valB <;> first | rfl | exact Bool.beq_comm

theorem keyCompare_of_strictEq (h : strictEq valA valB = true) : keyCompare d valA valB = 0 := by
  cases valA <;> cases valB <;> first
    | rfl
    | cases h
    | (rw [eq_of_beq h]; simp [keyCompare, isNullish, lessThan])

/-- But for mixed values a key returns the order of its values. -/
theorem keyOrder_eq (hmixed : isMixed valA valB = false) (hd : d ≠ 0) :
    keyOrder d valA valB = if keyCompare d valA valB ≠ 0 then some (keyCompare d valA valB)
      else none := by
  by_cases heq : strictEq valA valB = true
  · rw [keyOrder, if_pos heq, keyCompare_of_strictEq heq]
    rfl
  · have hnullish : isNullish valA = true → isNullish valB = false := by
      intro hA
      cases valA <;> cases valB <;> first
        | rfl
        | exact absurd rfl heq
        | (cases hmixed; done)
        | cases hA
    rw [keyOrder, if_neg heq, keyCompare]
    cases hA : isNullish valA with
    | true => simp [hnullish hA]
    | false =>
      cases hB : isNullish valB with
      | true => simp
      | false =>
        cases hlt : lessThan valB valA with
        | true => simp [hd]
        | false => cases hlt' : lessThan valA valB <;> simp [hd]

theorem keyOrder_of_isMixed (h : isMixed valA valB = true) :
    keyOrder d valA valB = some 1 ∧ keyOrder d valB valA = some 1 := by
  cases valA <;> cases valB <;> first | exact ⟨rfl, rfl⟩ | cases h

/-- Whether a key tells two values apart depends on no direction and no order. -/
theorem keyOrder_eq_none_iff (d d' : ℤ) (valA valB : Js.Val) :
    keyOrder d valA valB = none ↔ keyOrder d' valB valA = none := by
  unfold keyOrder
  rw [strictEq_comm valB valA]
  split_ifs <;> simp

end Keys

section Comparison

theorem direction_ne_zero (order : Option String) : direction order ≠ 0 := by
  unfold direction
  split_ifs <;> decide

/-- Two elements with mixed values are each put behind the other one. -/
theorem compareFn_of_mixesNulls {iteratees : List Iteratee} {a b : Js.Val}
    (h : MixesNulls iteratees a b) (orders : List String) :
    compareFn iteratees orders a b = 1 ∧ compareFn iteratees orders b a = 1 := by
  induction iteratees generalizing orders with
  | nil => cases h
  | cons iteratee iteratees ih =>
    rcases h with hmixed | ⟨hnone, hmixes⟩
    · obtain ⟨hab, hba⟩ := @keyOrder_of_isMixed (direction orders.head?) _ _ hmixed
      rw [compareFn, compareFn, hab, hba]
      exact ⟨rfl, rfl⟩
    · have hab := (keyOrder_eq_none_iff 1 (direction orders.head?) _ _).mp hnone
      have hba :=
        (keyOrder_eq_none_iff (direction orders.head?) (direction orders.head?) _ _).mp hab
      rw [compareFn, compareFn, hab, hba]
      exact ih hmixes orders.tail

/-- Other elements are compared lexicographically. -/
theorem compareFn_eq_lexCompare {iteratees : List Iteratee} {a b : Js.Val}
    (h : ¬ MixesNulls iteratees a b) (orders : List String) :
    compareFn iteratees orders a b = lexCompare iteratees orders a b := by
  induction iteratees generalizing orders with
  | nil => rfl
  | cons iteratee iteratees ih =>
    simp only [MixesNulls, not_or, not_and] at h
    obtain ⟨hmixed, hrest⟩ := h
    rw [Bool.not_eq_true] at hmixed
    have hkey := keyOrder_eq hmixed (direction_ne_zero orders.head?)
    rw [compareFn, lexCompare, Comparator.lex, hkey]
    by_cases hzero : keyCompare (direction orders.head?) (iteratee.value a) (iteratee.value b) = 0
    · rw [if_neg (not_not.mpr hzero)] at hkey
      have hnone := (keyOrder_eq_none_iff _ 1 _ _).mp hkey
      rw [if_neg (not_not.mpr hzero), if_neg (not_not.mpr hzero)]
      exact ih (hrest ((keyOrder_eq_none_iff 1 1 _ _).mp hnone)) orders.tail
    · rw [if_pos hzero, if_pos hzero]

/-- Values with ranks in a linear order are compared consistently. -/
theorem isConsistent_keyCompare {ι : Type*} [LinearOrder ι] {collection : List Js.Val}
    {value : Js.Val → Js.Val} {rank : Js.Val → ι}
    (hrank : ∀ a ∈ collection, ∀ b ∈ collection, isNullish (value a) = false →
      isNullish (value b) = false → (lessThan (value a) (value b) = true ↔ rank a < rank b))
    {d : ℤ} (hd : d = 1 ∨ d = -1) :
    Comparator.IsConsistent (fun a b => keyCompare d (value a) (value b)) collection := by
  have hcompare : ∀ a ∈ collection, ∀ b ∈ collection, keyCompare d (value a) (value b) =
      if isNullish (value a) then if isNullish (value b) then 0 else 1
      else if isNullish (value b) then -1
      else if rank b < rank a then d
      else if rank a < rank b then -d
      else 0 := by
    intro a ha b hb
    unfold keyCompare
    cases hA : isNullish (value a) with
    | true => rfl
    | false =>
      cases hB : isNullish (value b) with
      | true => rfl
      | false => simp only [hrank a ha b hb hA hB, hrank b hb a ha hB hA]
  constructor
  · intro a ha b hb
    rw [hcompare a ha b hb, hcompare b hb a ha]
    rcases hd with rfl | rfl <;> split_ifs <;> first | omega | (exfalso; order)
  · intro a ha b hb c hc
    rw [hcompare a ha b hb, hcompare b hb c hc, hcompare a ha c hc]
    rcases hd with rfl | rfl <;> split_ifs <;> first | omega | (exfalso; order)

theorem IsComparable.isConsistent {collection : List Js.Val} {iteratee : Iteratee}
    (h : IsComparable collection iteratee) (order : Option String) :
    Comparator.IsConsistent
      (fun a b => keyCompare (direction order) (iteratee.value a) (iteratee.value b))
      collection := by
  have hd : direction order = 1 ∨ direction order = -1 := by
    unfold direction
    split_ifs
    · exact .inr rfl
    · exact .inl rfl
  rcases h with h | h
  · apply @isConsistent_keyCompare ℚ _ collection _ (fun a => (iteratee.value a).numD) _ _ hd
    intro a ha b hb hA hB
    rcases h a ha with hnull | ⟨x, hx⟩
    · rw [hA] at hnull
      cases hnull
    · rcases h b hb with hnull | ⟨y, hy⟩
      · rw [hB] at hnull
        cases hnull
      · simp [Val.numD, hx, hy, lessThan]
  · apply @isConsistent_keyCompare (List ℕ) _ collection _
      (fun a => utf16 (iteratee.value a).strD) _ _ hd
    intro a ha b hb hA hB
    rcases h a ha with hnull | ⟨s, hs⟩
    · rw [hA] at hnull
      cases hnull
    · rcases h b hb with hnull | ⟨t, ht⟩
      · rw [hB] at hnull
        cases hnull
      · simp [Val.strD, hs, ht, lessThan]

/-- The lexicographic order is a total preorder. -/
theorem isConsistent_lexCompare {collection : List Js.Val} {iteratees : List Iteratee}
    (h : ∀ iteratee ∈ iteratees, IsComparable collection iteratee) (orders : List String) :
    Comparator.IsConsistent (lexCompare iteratees orders) collection := by
  induction iteratees generalizing orders with
  | nil =>
    constructor
    · intro a _ b _
      simp [lexCompare]
    · intro a _ b _ c _ _ _
      rfl
  | cons iteratee iteratees ih =>
    obtain ⟨hfirst, hrest⟩ := List.forall_mem_cons.mp h
    exact (hfirst.isConsistent orders.head?).lex (ih hrest orders.tail)

theorem orderBy_eq_sort {collection : List Js.Val} (h : Js.Val.undefined ∉ collection)
    (iteratees : List Iteratee) (orders : List String) :
    orderBy collection iteratees orders =
      Comparator.sort (compareFn iteratees orders) collection := by
  have hundefined : ∀ a ∈ collection, isUndefined a = false := by
    intro a ha
    cases a with
    | undefined => exact absurd ha h
    | _ => rfl
  have hnone : collection.filter isUndefined = [] := by
    rw [List.filter_eq_nil_iff]
    intro a ha
    simp [hundefined a ha]
  have hall : collection.filter (fun item => !isUndefined item) = collection := by
    rw [List.filter_eq_self]
    intro a ha
    simp [hundefined a ha]
  rw [orderBy, hnone, hall, List.append_nil]

theorem ordersStably_of_unmixed {collection : List Js.Val} {iteratees : List Iteratee}
    (orders : List String) (hobjects : Js.Val.undefined ∉ collection)
    (hcomparable : ∀ iteratee ∈ iteratees, IsComparable collection iteratee)
    (h : ∀ a ∈ collection, ∀ b ∈ collection, ¬ MixesNulls iteratees a b) :
    OrdersStably collection iteratees orders := by
  have hcompare : ∀ a ∈ collection, ∀ b ∈ collection,
      lexCompare iteratees orders a b = compareFn iteratees orders a b := by
    intro a ha b hb
    exact (compareFn_eq_lexCompare (h a ha b hb) orders).symm
  have hlex := isConsistent_lexCompare hcomparable orders
  have hsort : orderBy collection iteratees orders =
      Comparator.sort (lexCompare iteratees orders) collection := by
    rw [orderBy_eq_sort hobjects, Comparator.sort_congr hcompare]
  constructor
  · exact hlex.congr hcompare
  · rw [hsort]
    exact Comparator.sort_perm _ _
  · rw [hsort]
    exact hlex.pairwise_sort
  · intro a ha
    rw [hsort]
    exact hlex.filter_sort ha

section Objects

variable {α : Type*} {toVal : α → Js.Val} {collection : List α} {iteratees : List Iteratee}
  {orders : List String}

/-- It is the same order. -/
theorem map_orderObjects (h : Js.Val.undefined ∉ collection.map toVal) :
    (orderObjects toVal collection iteratees orders).map toVal =
      orderBy (collection.map toVal) iteratees orders := by
  rw [orderBy_eq_sort h]
  exact List.map_insertionSort _ _ toVal collection fun _ _ _ _ => Iff.rfl

theorem OrdersStably.pairwise_orderObjects
    (h : OrdersStably (collection.map toVal) iteratees orders)
    (hobjects : Js.Val.undefined ∉ collection.map toVal) :
    (orderObjects toVal collection iteratees orders).Pairwise fun a b =>
      lexCompare iteratees orders (toVal a) (toVal b) ≤ 0 := by
  have hsorted := h.sorted
  rw [← map_orderObjects hobjects] at hsorted
  exact List.pairwise_map.mp hsorted

end Objects

/-- A collection is put in the lexicographic order of its keys by a consistent comparator, unless
two elements that are equal up to a key have `undefined` and `null` there. -/
theorem ordersStably_iff (collection : List Js.Val) (iteratees : List Iteratee)
    (orders : List String) (hobjects : Js.Val.undefined ∉ collection)
    (hcomparable : ∀ iteratee ∈ iteratees, IsComparable collection iteratee) :
    OrdersStably collection iteratees orders ↔
      ∀ a ∈ collection, ∀ b ∈ collection, ¬ MixesNulls iteratees a b := by
  constructor
  · intro h a ha b hb hmixes
    obtain ⟨hab, hba⟩ := compareFn_of_mixesNulls hmixes orders
    have hantisymm := h.consistent.antisymm a ha b hb
    omega
  · exact ordersStably_of_unmixed orders hobjects hcomparable

end Comparison

namespace OrderByWitness

def keys : List Iteratee := [.path "a.x", .path "b"]

def item (x : Js.Val) (b : ℚ) : Js.Val := .obj [("a", .obj [("x", x)]), ("b", .num b)]

/-- The second key would put the second element first. -/
def hidden : List Js.Val := [item .undefined 2, item .null 1]

theorem hidden_not_ordered :
    compareFn keys [] (item .undefined 2) (item .null 1) = 1 ∧
      compareFn keys [] (item .null 1) (item .undefined 2) = 1 ∧
      ¬ OrdersStably hidden keys [] := by
  have hforth : compareFn keys [] (item .undefined 2) (item .null 1) = 1 := by decide +kernel
  have hback : compareFn keys [] (item .null 1) (item .undefined 2) = 1 := by decide +kernel
  refine ⟨hforth, hback, fun h => ?_⟩
  have hantisymm := h.consistent.antisymm (item .undefined 2) (by simp [hidden])
    (item .null 1) (by simp [hidden])
  omega

/-- Two elements are equal in the first key, and two have none. -/
def plain : List Js.Val := [item .null 2, item (.num 3) 2, item .null 1, item (.num 3) 1]

theorem plain_ordered : OrdersStably plain keys ["desc"] := by
  refine (ordersStably_iff plain keys ["desc"] ?_ ?_).mpr (by decide +kernel)
  · simp [plain, item]
  · intro iteratee hiteratee
    simp only [keys, List.mem_cons, List.not_mem_nil, or_false] at hiteratee
    left
    intro a ha
    simp only [plain, List.mem_cons, List.not_mem_nil, or_false] at ha
    rcases hiteratee with rfl | rfl
    · rcases ha with rfl | rfl | rfl | rfl
      · exact .inl rfl
      · exact .inr ⟨3, rfl⟩
      · exact .inl rfl
      · exact .inr ⟨3, rfl⟩
    · rcases ha with rfl | rfl | rfl | rfl
      · exact .inr ⟨2, rfl⟩
      · exact .inr ⟨2, rfl⟩
      · exact .inr ⟨1, rfl⟩
      · exact .inr ⟨1, rfl⟩

end OrderByWitness

end OrderBy

end ReportsFramework
