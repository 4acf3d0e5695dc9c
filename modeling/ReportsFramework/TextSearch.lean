/-
Searching a text in another one, and cutting its first occurrence out.
-/
import Mathlib.Data.List.Infix
import Std.Data.String.ToInt

namespace Text

/-- `text.includes(sub)`. -/
def includes (text sub : String) : Bool :=
  sub.toList <:+: text.toList

/-- What is left of a list without the first occurrence of another one. -/
def removeFirst (sub : List Char) : List Char → List Char
  | [] => []
  | c :: rest =>
      if sub <+: c :: rest then (c :: rest).drop sub.length else c :: removeFirst sub rest

/-- `text.replace(sub, '')`. -/
def remove (text sub : String) : String :=
  String.ofList (removeFirst sub.toList text.toList)

theorem includes_iff {text sub : String} : includes text sub = true ↔ sub.toList <:+: text.toList :=
  decide_eq_true_iff

/-- An occurrence starts with the first character of what is looked for. -/
theorem infix_append_iff_of_notMem {c : Char} {sub front back : List Char} (h : c ∉ front) :
    c :: sub <:+: front ++ back ↔ c :: sub <:+: back := by
  induction front with
  | nil => rfl
  | cons d front ih =>
      have hne : c ≠ d := List.ne_of_not_mem_cons h
      have hfront : c ∉ front := List.not_mem_of_not_mem_cons h
      rw [List.cons_append, List.infix_cons_iff, ih hfront, List.cons_prefix_cons]
      simp [hne]

theorem remove_append (sub text : String) : remove (sub ++ text) sub = text := by
  have hlist : removeFirst sub.toList (sub.toList ++ text.toList) = text.toList := by
    cases hsplit : sub.toList ++ text.toList with
    | nil => rw [(List.append_eq_nil_iff.mp hsplit).2, removeFirst]
    | cons c rest =>
        have hfirst : sub.toList <+: c :: rest := hsplit ▸ List.prefix_append _ _
        rw [removeFirst, if_pos hfirst, ← hsplit, List.drop_left]
  rw [remove, String.toList_append, hlist, String.ofList_toList]

/-- A separator that neither of the texts in front of it holds. -/
theorem eq_of_append_prefix {c : Char} {front front' back : List Char} (h : c ∉ front)
    (h' : c ∉ front') (hle : front ++ [c] <+: front' ++ c :: back) : front = front' := by
  obtain ⟨rest, hsplit⟩ := hle
  rw [List.append_assoc, List.singleton_append] at hsplit
  rcases List.append_eq_append_iff.mp hsplit with ⟨more, rfl, hmore⟩ | ⟨more, rfl, hmore⟩
  · cases more with
    | nil => rw [List.append_nil]
    | cons d more =>
        obtain ⟨rfl, _⟩ := List.cons.inj hmore
        exact absurd (List.mem_append_right _ (List.mem_cons_self ..)) h'
  · cases more with
    | nil => rw [List.append_nil]
    | cons d more =>
        obtain ⟨rfl, _⟩ := List.cons.inj hmore
        exact absurd (List.mem_append_right _ (List.mem_cons_self ..)) h

theorem isDigit_of_mem_toString {id : ℤ} {c : Char} (h : c ∈ (toString id).toList) :
    c = '-' ∨ c.isDigit = true := by
  have hnat : ∀ {n : ℕ}, c ∈ n.repr.toList → c.isDigit = true := by
    intro n hmem
    rw [Nat.toList_repr] at hmem
    exact Nat.isDigit_of_mem_toDigits (by decide) (by decide) hmem
  cases id with
  | ofNat n => exact .inr (hnat h)
  | negSucc n =>
      have hrepr : toString (Int.negSucc n) = "-" ++ (n + 1).repr := rfl
      rw [hrepr, String.toList_append, List.mem_append] at h
      rcases h with hsign | hdigits
      · exact .inl (List.mem_singleton.mp hsign)
      · exact .inr (hnat hdigits)

theorem toString_injective {id id' : ℤ} (h : toString id = toString id') : id = id' :=
  Int.repr_injective h

end Text
