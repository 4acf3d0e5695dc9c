/-
The conditions of a WHERE clause with named placeholders, and the rows that it selects.
What the comparison of two values gives is left to the engine.
-/
import Mathlib.Data.List.Basic
import Mathlib.Data.Rat.Defs

namespace Sql

inductive Val
  | null
  | num (x : ℚ)
  | text (s : String)
deriving DecidableEq, Repr

inductive Operator
  | gt
  | gte
  | lt
  | lte
  | like
  | ne
  | eq
  | isIn
  | notIn
  | isNull
  | isNotNull
deriving DecidableEq, Repr

inductive Connective
  | and
  | or
deriving DecidableEq, Repr

/-- What stands behind an operator: nothing, a placeholder, or placeholders in parentheses. -/
inductive Operand
  | absent
  | key (name : String)
  | list (names : List String)
deriving DecidableEq, Repr

def Operand.names : Operand → List String
  | absent => []
  | key name => [name]
  | list names => names

structure Condition where
  column : String
  operator : Operator
  noCase : Bool := false
  operand : Operand
deriving DecidableEq, Repr

/-- The comparisons of an engine: whether one with a column's value at its left is true. -/
structure Engine where
  compares : Operator → Bool → Val → Val → Bool
  eq_num : ∀ noCase val x, compares .eq noCase val (.num x) = true → val = .num x

abbrev Row := String → Val

/-- What is bound to the placeholders. -/
abbrev Bindings := String → Option Val

namespace Condition

/-- A row value is no operand of a comparison. -/
def wellFormed (condition : Condition) : Bool :=
  match condition.operator, condition.operand with
  | .isNull, .absent | .isNotNull, .absent => true
  | .isNull, _ | .isNotNull, _ | _, .absent => false
  | .isIn, .list _ | .notIn, .list _ => true
  | .isIn, .key _ | .notIn, .key _ => false
  | _, .key _ | _, .list [_] => true
  | _, .list _ => false

def compares (engine : Engine) (bindings : Bindings) (row : Row) (condition : Condition)
    (operator : Operator) (name : String) : Bool :=
  (bindings name).any (engine.compares operator condition.noCase (row condition.column))

/-- Whether a condition is true of a row. -/
def holds (engine : Engine) (bindings : Bindings) (row : Row) (condition : Condition) : Bool :=
  match condition.operator with
  | .isNull => row condition.column == .null
  | .isNotNull => row condition.column != .null
  | .isIn => condition.operand.names.any (condition.compares engine bindings row .eq)
  | .notIn => condition.operand.names.all (condition.compares engine bindings row .ne)
  | operator => condition.operand.names.all (condition.compares engine bindings row operator)

end Condition

/-- The parts of a clause with the connectives before them; the conditions of a part are
joined by AND. -/
structure Clause where
  hasWhere : Bool
  parts : List (Option Connective × List Condition)
deriving DecidableEq, Repr

namespace Clause

def conditions (clause : Clause) : List Condition :=
  clause.parts.flatMap (·.2)

def placeholders (clause : Clause) : List String :=
  clause.conditions.flatMap (·.operand.names)

/-- The connectives stand between the parts. -/
def connected : List (Option Connective × List Condition) → Bool
  | [] => true
  | (first, _) :: rest => first.isNone && rest.all (·.1.isSome)

/-- A clause that an engine takes, also without its keyword if it is part of another one. -/
def wellFormed (clause : Clause) : Bool :=
  connected clause.parts && clause.parts.all (!·.2.isEmpty) &&
    (!clause.hasWhere || !clause.parts.isEmpty) && clause.conditions.all (·.wellFormed)

/-- AND binds stronger than OR. -/
def evalFrom {α : Type*} (holds : α → Bool) : Bool → List (Option Connective × α) → Bool
  | current, [] => current
  | current, (some .or, part) :: rest => current || evalFrom holds (holds part) rest
  | current, (_, part) :: rest => evalFrom holds (current && holds part) rest

def holds (engine : Engine) (bindings : Bindings) (row : Row) (clause : Clause) : Bool :=
  evalFrom (·.all (·.holds engine bindings row)) true clause.parts

/-- The rows of a query; one that is not well formed or lacks a value has none. -/
def selects (engine : Engine) (bindings : Bindings) (clause : Clause) (row : Row) : Bool :=
  clause.wellFormed && clause.placeholders.all (fun name => (bindings name).isSome) &&
    clause.holds engine bindings row

variable {α : Type*} {holds : α → Bool} {current : Bool}
  {parts : List (Option Connective × α)}

theorem evalFrom_and (hand : ∀ part ∈ parts, part.1 ≠ some .or) :
    evalFrom holds current parts = (current && parts.all (holds ·.2)) := by
  induction parts generalizing current with
  | nil => simp [evalFrom]
  | cons part parts ih =>
    obtain ⟨hhead, hrest⟩ := List.forall_mem_cons.mp hand
    obtain ⟨connective, part⟩ := part
    rcases connective with _ | _ | _
    · simp [evalFrom, ih hrest, Bool.and_assoc]
    · simp [evalFrom, ih hrest, Bool.and_assoc]
    · exact absurd rfl hhead

theorem evalFrom_or (hor : ∀ part ∈ parts, part.1 = some .or) :
    evalFrom holds current parts = (current || parts.any (holds ·.2)) := by
  induction parts generalizing current with
  | nil => simp [evalFrom]
  | cons part parts ih =>
    obtain ⟨hhead, hrest⟩ := List.forall_mem_cons.mp hor
    obtain ⟨connective, part⟩ := part
    obtain rfl : connective = some .or := hhead
    simp [evalFrom, ih hrest]

section Combine

variable {β : Type*}

/-- Whether what is joined by a connective is true. -/
def combine (operator : Connective) (l : List α) (p : α → Bool) : Bool :=
  match operator with
  | .and => l.all p
  | .or => l.any p

theorem combine_congr {operator : Connective} {l : List α} {p q : α → Bool}
    (h : ∀ a ∈ l, p a = q a) : combine operator l p = combine operator l q := by
  have hmap : l.map p = l.map q := List.map_congr_left h
  cases operator with
  | and =>
    have hall := congrArg (fun l : List Bool => l.all id) hmap
    simpa only [combine, List.all_map, Function.id_comp] using hall
  | or =>
    have hany := congrArg (fun l : List Bool => l.any id) hmap
    simpa only [combine, List.any_map, Function.id_comp] using hany

theorem combine_map (operator : Connective) (l : List α) (f : α → β) (p : β → Bool) :
    combine operator (l.map f) p = combine operator l fun a => p (f a) := by
  cases operator <;> simp [combine, Function.comp_def]

theorem combine_flatMap (operator : Connective) (l : List α) (f : α → List β) (p : β → Bool) :
    combine operator (l.flatMap f) p = combine operator l fun a => combine operator (f a) p := by
  cases operator with
  | and => simp only [combine, List.all_flatMap]
  | or => simp only [combine, List.any_flatMap]

theorem combine_singleton (operator : Connective) (a : α) (p : α → Bool) :
    combine operator [a] p = p a := by
  cases operator <;> simp [combine]

/-- Parts that are joined by one connective. -/
theorem evalFrom_combine {operator : Connective} {first : α} {rest : List (Option Connective × α)}
    (hrest : ∀ part ∈ rest, part.1 = some operator) :
    evalFrom holds true ((none, first) :: rest) =
      combine operator ((none, first) :: rest) (holds ·.2) := by
  have hfirst :
      evalFrom holds true ((none, first) :: rest) = evalFrom holds (holds first) rest := by
    simp [evalFrom]
  rw [hfirst]
  cases operator with
  | and =>
    rw [evalFrom_and]
    · simp [combine]
    · intro part hpart
      rw [hrest part hpart]
      decide
  | or =>
    rw [evalFrom_or hrest]
    simp [combine]

end Combine

/-- A condition reads its column only. -/
theorem holds_congr {engine : Engine} {bindings : Bindings} {row row' : Row}
    {condition : Condition} (h : row condition.column = row' condition.column) :
    condition.holds engine bindings row = condition.holds engine bindings row' := by
  unfold Condition.holds Condition.compares
  rw [h]

theorem evalFrom_congr {holds' : α → Bool} (h : ∀ part ∈ parts, holds part.2 = holds' part.2)
    (current : Bool) : evalFrom holds current parts = evalFrom holds' current parts := by
  induction parts generalizing current with
  | nil => rfl
  | cons part parts ih =>
    obtain ⟨hhead, hrest⟩ := List.forall_mem_cons.mp h
    obtain ⟨connective, part⟩ := part
    rcases connective with _ | _ | _ <;> simp only [evalFrom, hhead, ih hrest]

theorem selects_congr {engine : Engine} {bindings : Bindings} {row row' : Row} {clause : Clause}
    (h : ∀ condition ∈ clause.conditions, row condition.column = row' condition.column) :
    clause.selects engine bindings row = clause.selects engine bindings row' := by
  unfold selects Clause.holds
  congr 1
  apply evalFrom_congr
  intro part hpart
  have hpart : ∀ condition ∈ part.2,
      condition.holds engine bindings row = condition.holds engine bindings row' := by
    intro condition hcondition
    exact holds_congr (h condition (List.mem_flatMap.mpr ⟨part, hpart, hcondition⟩))
  rw [Bool.eq_iff_iff, List.all_eq_true, List.all_eq_true]
  constructor
  · intro hall condition hcondition
    rw [← hpart condition hcondition]
    exact hall condition hcondition
  · intro hall condition hcondition
    rw [hpart condition hcondition]
    exact hall condition hcondition

/-- Where the parts are joined by AND, every one of them is true of a row that is selected. -/
theorem holds_of_selects {engine : Engine} {bindings : Bindings} {row : Row} {clause : Clause}
    (hand : ∀ part ∈ clause.parts, part.1 ≠ some .or)
    (h : clause.selects engine bindings row = true) {part : Option Connective × List Condition}
    (hpart : part ∈ clause.parts) {condition : Condition} (hcondition : condition ∈ part.2) :
    condition.holds engine bindings row = true := by
  unfold selects at h
  rw [Bool.and_eq_true, Clause.holds, evalFrom_and hand, Bool.true_and, List.all_eq_true] at h
  exact List.all_eq_true.mp (h.2 part hpart) condition hcondition

end Clause

end Sql
