/-
A field of a filter read as a predicate on rows, and when its condition is this predicate.
-/
import ReportsFramework.WherePlaceholders

namespace ReportsFramework

open Js Sql

namespace FilterField

/-- How a field is compared; of several values one is to be equal, or all are to be different. -/
def comparison (field : FilterField) : Operator :=
  match field.condition with
  | some .gt => .gt
  | some .gte => .gte
  | some .lt => .lt
  | some .lte => .lte
  | some .like => .like
  | some .ne | some .not | some .nin => .ne
  | some _ => .eq
  | none => if field.name = "start" then .gte else if field.name = "end" then .lte else .eq

def isDate (field : FilterField) : Bool :=
  field.condition.isNone && (field.name = "start" || field.name = "end")

/-- The conditions that have a list of values. -/
def takesList (field : FilterField) : Bool :=
  match field.condition with
  | some .isIn | some .nin | some .not => true
  | some _ => false
  | none => !field.isDate

section Reading

variable (texts : JsTexts) (opts : WhereOpts) (dateFieldName : Js.Val)

def column (field : FilterField) : String :=
  opts.column (if field.isDate then texts.text dateFieldName else field.name)

def noCase (field : FilterField) : Bool :=
  (field.comparison = .eq || field.comparison = .ne) &&
    isSetNoCaseOp (noCaseFields opts.requestedFilter none []) field.name field.origFieldName

variable (engine : Engine) (row : Row)

def compares (field : FilterField) (item : Js.Val) : Bool :=
  (bindVal (serializeVal texts item)).any
    (engine.compares field.comparison (field.noCase opts)
      (row (field.column texts opts dateFieldName)))

/-- Whether a row has what a field asks for. -/
def holds (field : FilterField) : Bool :=
  match field.val with
  | .null =>
      if field.comparison = .eq then row (field.column texts opts dateFieldName) == .null
      else if field.comparison = .ne then row (field.column texts opts dateFieldName) != .null
      else false
  | .arr items =>
      if field.comparison = .eq then
        items.any (field.compares texts opts dateFieldName engine row)
      else items.all (field.compares texts opts dateFieldName engine row)
  | item => field.compares texts opts dateFieldName engine row item

end Reading

/-- A value that can be bound, or a list of such where a list is taken or has one item only; and
`$nin` with a list. -/
def IsPlain (texts : JsTexts) (field : FilterField) : Prop :=
  match field.val with
  | .arr items => (∀ item ∈ items, (bindVal (serializeVal texts item)).isSome = true) ∧
      (field.takesList = true ∨ items.length = 1)
  | .null | .undefined => False
  | _ => field.condition ≠ some .nin

/-- A field of a condition, or a plain one whose name is none of the conditions. -/
def IsProper (field : FilterField) : Prop :=
  field.name ≠ "" ∧ match field.condition with
    | some condition => condition.isCondition = true
    | none => FilterCondition.ofName? field.name = none

section Written

variable {texts : JsTexts} {opts : WhereOpts} {field : FilterField}

theorem getCompareOperator_scalar (h : field.IsProper) (hnin : field.condition ≠ some .nin) :
    getCompareOperator field.origFieldName false = field.comparison := by
  obtain ⟨condition, name, val⟩ := field
  cases condition with
  | none =>
    have hname : FilterCondition.ofName? name = none := h.2
    simp only [origFieldName, comparison, getCompareOperator, hname]
    split_ifs <;> simp_all
  | some condition =>
    cases condition <;> first | rfl | exact absurd rfl hnin

theorem getCompareOperator_list (h : field.IsProper) (hlist : field.takesList = true) :
    (field.comparison = .eq ∧ getCompareOperator field.origFieldName true = .isIn) ∨
      (field.comparison = .ne ∧ getCompareOperator field.origFieldName true = .notIn) := by
  obtain ⟨condition, name, val⟩ := field
  cases condition with
  | none =>
    have hname : FilterCondition.ofName? name = none := h.2
    simp only [takesList, isDate] at hlist
    simp_all [origFieldName, comparison, getCompareOperator]
  | some condition =>
    cases condition <;> first | exact .inl ⟨rfl, rfl⟩ | exact .inr ⟨rfl, rfl⟩ | cases hlist

theorem getCompareOperator_item (h : field.IsProper) (hlist : field.takesList = false) :
    getCompareOperator field.origFieldName true = field.comparison := by
  obtain ⟨condition, name, val⟩ := field
  cases condition with
  | none =>
    have hname : FilterCondition.ofName? name = none := h.2
    simp only [takesList, isDate] at hlist
    by_cases hstart : name = "start"
    · simp [origFieldName, comparison, getCompareOperator, hstart]
    · simp_all [origFieldName, comparison, getCompareOperator]
  | some condition =>
    have hcondition : condition.isCondition = true := h.2
    cases condition <;> first | rfl | (cases hlist; done) | cases hcondition

/-- The values of an object are those of the placeholders. -/
structure Assigns (opts : WhereOpts) (assignments : List (String × Js.Val)) (o : Obj) : Prop where
  sound : ∀ entry ∈ o, ∃ assignment ∈ assignments,
    entry = (opts.queryValKey assignment.1, assignment.2)
  complete : ∀ assignment ∈ assignments, opts.queryValKey assignment.1 ∈ o.keys

/-- A condition of a clause says what its field asks for, with the placeholders of the field. -/
structure Writes (texts : JsTexts) (opts : WhereOpts) (field : FilterField)
    (dateFieldName : Js.Val) (condition : Condition) : Prop where
  wellFormed : condition.wellFormed = true
  names : condition.operand.names = (field.assignments texts opts).map Prod.fst
  holds : ∀ engine bindings row,
    (∀ entry ∈ field.assignments texts opts, bindings entry.1 = bindVal entry.2) →
      condition.holds engine bindings row = field.holds texts opts dateFieldName engine row

theorem assignments_scalar (h : field.val.isArray = false) :
    field.assignments texts opts =
      [(aliasPrefix opts ++ field.stem, serializeVal texts field.val)] := by
  unfold assignments indexed
  cases hval : field.val with
  | arr items =>
    rw [hval] at h
    cases h
  | _ => simp

theorem assignments_list {items : List Js.Val} (h : field.val = .arr items) :
    field.assignments texts opts = items.zipIdx.map fun (item, j) =>
      (aliasPrefix opts ++ field.stem ++ "_" ++ toString j, serializeVal texts item) := by
  unfold assignments indexed
  rw [h, List.map_map]
  simp [Function.comp_def, String.append_assoc]

theorem queryValKey_injective {name name' : String}
    (h : opts.queryValKey name = opts.queryValKey name') : name = name' := by
  unfold WhereOpts.queryValKey at h
  split_ifs at h
  · rwa [String.append_right_inj] at h
  · exact h

theorem Assigns.of_map (assignments : List (String × Js.Val)) :
    Assigns opts assignments
      (assignments.map fun entry => (opts.queryValKey entry.1, entry.2)) where
  sound entry hentry := by
    obtain ⟨assignment, hassignment, rfl⟩ := List.mem_map.mp hentry
    exact ⟨assignment, hassignment, rfl⟩
  complete assignment hassignment := by
    simp only [Obj.keys, List.map_map, List.mem_map]
    exact ⟨assignment, hassignment, rfl⟩

theorem Assigns.merge {parts : List (List (String × Js.Val) × Obj)}
    (h : ∀ part ∈ parts, Assigns opts part.1 part.2) :
    Assigns opts (parts.flatMap Prod.fst) (Obj.merge (parts.map Prod.snd)) where
  sound entry hentry := by
    obtain ⟨o, ho, hentry⟩ := Obj.mem_of_mem_merge hentry
    obtain ⟨part, hpart, rfl⟩ := List.mem_map.mp ho
    obtain ⟨assignment, hassignment, heq⟩ := (h part hpart).sound entry hentry
    exact ⟨assignment, List.mem_flatMap.mpr ⟨part, hpart, hassignment⟩, heq⟩
  complete assignment hassignment := by
    obtain ⟨part, hpart, hassignment⟩ := List.mem_flatMap.mp hassignment
    exact Obj.mem_keys_merge.mpr
      ⟨part.2, List.mem_map_of_mem hpart, (h part hpart).complete assignment hassignment⟩

/-- Where no two placeholders have the same name, each is bound to its own value. -/
theorem Assigns.bindings {assignments : List (String × Js.Val)} {o : Obj}
    (h : Assigns opts assignments o) (hnodup : (assignments.map Prod.fst).Nodup)
    {entry : String × Js.Val} (hentry : entry ∈ assignments) :
    bindings opts o entry.1 = bindVal entry.2 := by
  have hmem := Obj.mem_of_mem_keys (h.complete entry hentry)
  obtain ⟨assignment, hassignment, heq⟩ := h.sound _ hmem
  have hname : entry.1 = assignment.1 := queryValKey_injective (congrArg Prod.fst heq)
  have hsame : entry = assignment :=
    List.inj_on_of_nodup_map hnodup hentry hassignment hname
  have hval : o.get (opts.queryValKey entry.1) = assignment.2 := congrArg Prod.snd heq
  rw [ReportsFramework.bindings, hval, hsame]

theorem map_fst_list {items : List Js.Val} (h : field.val = .arr items) :
    (field.assignments texts opts).map Prod.fst = items.zipIdx.map fun (_, j) =>
      aliasPrefix opts ++ field.stem ++ "_" ++ toString j := by
  rw [assignments_list h, List.map_map]
  rfl

/-- What is compared under the names of a list is its items. -/
theorem compares_list {items : List Js.Val} (h : field.val = .arr items) {condition : Condition}
    {dateFieldName : Js.Val} (hcolumn : condition.column = field.column texts opts dateFieldName)
    (hnoCase : condition.noCase = field.noCase opts) {bindings : Bindings} {engine : Engine}
    {row : Row}
    (hbindings : ∀ entry ∈ field.assignments texts opts, bindings entry.1 = bindVal entry.2) :
    (items.zipIdx.map fun (_, j) => aliasPrefix opts ++ field.stem ++ "_" ++ toString j).map
        (condition.compares engine bindings row field.comparison) =
      items.map (field.compares texts opts dateFieldName engine row) := by
  rw [List.map_map]
  have hitems : items = items.zipIdx.map Prod.fst := (List.zipIdx_map_fst 0 items).symm
  conv_rhs => rw [hitems, List.map_map]
  apply List.map_congr_left
  rintro ⟨item, j⟩ hmem
  have hbound := hbindings (aliasPrefix opts ++ field.stem ++ "_" ++ toString j,
    serializeVal texts item) (by
      rw [assignments_list h]
      exact List.mem_map.mpr ⟨(item, j), hmem, rfl⟩)
  simp only at hbound
  simp only [Function.comp_apply, Condition.compares, compares, hbound, hcolumn, hnoCase]

theorem getWhereQueryAndValues_eq (h : field.IsProper) {filter : Obj}
    (hval : filter.get field.name = field.val) :
    getWhereQueryAndValues texts opts field.origFieldName filter field.val.isArray
        (field.condition.map fun _ => field.name) =
      (getKeysAndValues texts opts field.val field.stem field.val.isArray).bind fun written =>
        let named := getCompareOpAndKey opts
          (getCompareOperator field.origFieldName field.val.isArray) written.1 written.2
          (isSetNoCaseOp (noCaseFields opts.requestedFilter none [])
            (if field.isDate then texts.text (filter.get "_dateFieldName") else field.name)
            field.origFieldName)
        some ({ column := field.column texts opts (filter.get "_dateFieldName"),
                operator := named.1, noCase := named.2.1, operand := named.2.2 }, written.2) := by
  obtain ⟨condition, name, val⟩ := field
  have hname : name ≠ "" := h.1
  simp only at hval
  cases condition with
  | none =>
    simp only [getWhereQueryAndValues, origFieldName, stem, Option.map_none, Option.filter_none,
      hval, column, isDate, Option.isNone_none, Bool.true_and, Bool.or_eq_true, decide_eq_true_eq]
    rfl
  | some condition =>
    have hfilter : (some name).filter (fun x => x ≠ "") = some name := by
      simp [hname]
    simp only [getWhereQueryAndValues, origFieldName, stem, Option.map_some, column, isDate,
      hfilter, hval]
    rfl

theorem comparison_cases (field : FilterField) :
    field.comparison ∈ [Operator.gt, .gte, .lt, .lte, .like, .ne, .eq] := by
  obtain ⟨condition, name, val⟩ := field
  cases condition with
  | none =>
    simp only [comparison]
    split_ifs <;> decide
  | some condition => cases condition <;> simp [comparison]

theorem noCase_eq (h : field.IsProper) (dateFieldName : Js.Val)
    (hcomparison : field.comparison = .eq ∨ field.comparison = .ne) :
    isSetNoCaseOp (noCaseFields opts.requestedFilter none [])
        (if field.isDate then texts.text dateFieldName else field.name) field.origFieldName =
      field.noCase opts := by
  have hdate : field.isDate = false := by
    obtain ⟨condition, name, val⟩ := field
    cases condition with
    | none =>
      simp only [comparison] at hcomparison
      simp only [isDate]
      split_ifs at hcomparison <;> simp_all
    | some condition => rfl
  rw [hdate, noCase]
  rcases hcomparison with h | h <;> simp [h]

def isEquality (operator : Operator) : Bool :=
  operator = .eq || operator = .ne || operator = .isIn || operator = .notIn

theorem getCompareOpAndKey_eq {operator : Operator} {operand : Operand} {subValues : Obj}
    (h : ∀ name, operand = .key name → subValues.get (opts.queryValKey name) ≠ .null)
    (noCase : Bool) : getCompareOpAndKey opts operator operand subValues noCase =
      (operator, isEquality operator && noCase, operand) := by
  cases operand with
  | key name =>
    have hnull := h name rfl
    unfold getCompareOpAndKey
    cases hget : subValues.get (opts.queryValKey name) with
    | null => exact absurd hget hnull
    | _ => cases operator <;> simp [hget, isEquality]
  | _ => cases operator <;> simp [getCompareOpAndKey, isEquality]

theorem holds_of_comparison {condition : Condition} {engine : Engine} {bindings : Bindings}
    {row : Row}
    (h : condition.operator ∈ [Operator.gt, .gte, .lt, .lte, .like, .ne, .eq]) :
    condition.holds engine bindings row = condition.operand.names.all
      (condition.compares engine bindings row condition.operator) := by
  unfold Condition.holds
  cases hoperator : condition.operator <;> simp [hoperator] at h ⊢

theorem wellFormed_of_comparison {condition : Condition} {name : String}
    (h : condition.operator ∈ [Operator.gt, .gte, .lt, .lte, .like, .ne, .eq])
    (hoperand : condition.operand = .key name ∨ condition.operand = .list [name]) :
    condition.wellFormed = true := by
  unfold Condition.wellFormed
  rcases hoperand with hoperand | hoperand <;>
    cases hoperator : condition.operator <;> simp [hoperator, hoperand] at h ⊢

/-- The value of a comparison is compared under its own placeholder. -/
theorem noCase_of_comparison (h : field.IsProper) (dateFieldName : Js.Val) :
    (isEquality field.comparison &&
      isSetNoCaseOp (noCaseFields opts.requestedFilter none [])
        (if field.isDate then texts.text dateFieldName else field.name) field.origFieldName) =
      field.noCase opts := by
  by_cases hcomparison : field.comparison = .eq ∨ field.comparison = .ne
  · rw [noCase_eq h dateFieldName hcomparison]
    rcases hcomparison with h | h <;> simp [isEquality, noCase, h]
  · have hcases := comparison_cases field
    simp only [List.mem_cons, List.not_mem_nil, or_false] at hcases
    push Not at hcomparison
    rw [noCase]
    rcases hcases with h | h | h | h | h | h | h <;> simp_all [isEquality]

/-- The column of a condition is its field. -/
theorem holds_of_condition (field : FilterField) (h : field.condition ≠ none)
    (dateFieldName dateFieldName' : Js.Val) (engine : Engine) (row : Row) :
    field.holds texts opts dateFieldName engine row =
      field.holds texts opts dateFieldName' engine row := by
  have hdate : field.isDate = false := by
    unfold isDate
    rw [Option.isNone_eq_false_iff.mpr (Option.isSome_iff_ne_none.mpr h)]
    rfl
  have hcolumn : field.column texts opts dateFieldName =
      field.column texts opts dateFieldName' := by
    simp only [column, hdate]
    rfl
  have hcompares : field.compares texts opts dateFieldName engine row =
      field.compares texts opts dateFieldName' engine row := by
    funext item
    rw [compares, compares, hcolumn]
  simp only [holds, hcompares, hcolumn]

theorem holds_scalar (hisArr : field.val.isArray = false) (hnull : field.val ≠ .null)
    (dateFieldName : Js.Val) (engine : Engine) (row : Row) :
    field.holds texts opts dateFieldName engine row =
      field.compares texts opts dateFieldName engine row field.val := by
  unfold holds
  cases hval : field.val with
  | null => exact absurd hval hnull
  | arr items =>
    rw [hval] at hisArr
    cases hisArr
  | _ => rfl

theorem writes_scalar (h : field.IsProper) (hplain : field.IsPlain texts)
    (hisArr : field.val.isArray = false) {filter : Obj}
    (hval : filter.get field.name = field.val) :
    ∃ condition subValues,
      getWhereQueryAndValues texts opts field.origFieldName filter field.val.isArray
        (field.condition.map fun _ => field.name) = some (condition, subValues) ∧
      Writes texts opts field (filter.get "_dateFieldName") condition ∧
      Assigns opts (field.assignments texts opts) subValues := by
  obtain ⟨hnin, hnull, hserialized⟩ : field.condition ≠ some .nin ∧ field.val ≠ .null ∧
      serializeVal texts field.val ≠ .null := by
    unfold IsPlain at hplain
    cases hcase : field.val with
    | arr items =>
      rw [hcase] at hisArr
      cases hisArr
    | null => simp [hcase] at hplain
    | undefined => simp [hcase] at hplain
    | _ => exact ⟨by simpa [hcase] using hplain, by simp, by simp [serializeVal]⟩
  have hkeys : getKeysAndValues texts opts field.val field.stem false =
      some (.key (aliasPrefix opts ++ field.stem),
        [(opts.queryValKey (aliasPrefix opts ++ field.stem), serializeVal texts field.val)]) := by
    simp only [getKeysAndValues, aliasPrefix]
    cases hcase : serializeVal texts field.val with
    | null => exact absurd hcase hserialized
    | _ => rfl
  have hget : Obj.get [(opts.queryValKey (aliasPrefix opts ++ field.stem),
      serializeVal texts field.val)] (opts.queryValKey (aliasPrefix opts ++ field.stem)) =
        serializeVal texts field.val := by
    simp [Obj.get]
  rw [getWhereQueryAndValues_eq h hval, hisArr, hkeys, Option.bind_some,
    getCompareOperator_scalar h hnin, getCompareOpAndKey_eq]
  · simp only [noCase_of_comparison h]
    refine ⟨_, _, rfl, ?_, ?_⟩
    · constructor
      · exact wellFormed_of_comparison (comparison_cases field) (.inl rfl)
      · rw [assignments_scalar hisArr]
        rfl
      · intro engine bindings row hbindings
        rw [assignments_scalar hisArr] at hbindings
        have hbound := hbindings _ (List.mem_singleton_self _)
        rw [holds_of_comparison (comparison_cases field), holds_scalar hisArr hnull]
        simp only [Operand.names, List.all_cons, List.all_nil, Bool.and_true,
          Condition.compares, hbound]
        rfl
    · rw [assignments_scalar hisArr]
      exact Assigns.of_map [_]
  · intro name hname
    cases hname
    rw [hget]
    exact hserialized

theorem holds_list {items : List Js.Val} (hval : field.val = .arr items) (dateFieldName : Js.Val)
    (engine : Engine) (row : Row) :
    field.holds texts opts dateFieldName engine row =
      if field.comparison = .eq then
        items.any (field.compares texts opts dateFieldName engine row)
      else items.all (field.compares texts opts dateFieldName engine row) := by
  unfold holds
  rw [hval]

/-- The condition of a list: one of its items is equal, or all are different. -/
theorem writes_of_list (h : field.IsProper) (hlist : field.takesList = true)
    {items : List Js.Val} (hval : field.val = .arr items) {condition : Condition}
    {dateFieldName : Js.Val} (hcolumn : condition.column = field.column texts opts dateFieldName)
    (hnoCase : condition.noCase = field.noCase opts)
    (hoperator : condition.operator = getCompareOperator field.origFieldName true)
    (hoperand : condition.operand = .list ((field.assignments texts opts).map Prod.fst)) :
    Writes texts opts field dateFieldName condition where
  wellFormed := by
    unfold Condition.wellFormed
    rw [hoperand, hoperator]
    rcases getCompareOperator_list h hlist with ⟨-, hlist⟩ | ⟨-, hlist⟩ <;> rw [hlist]
  names := by rw [hoperand, Operand.names]
  holds engine bindings row hbindings := by
    have hcompares := @compares_list texts opts field _ hval condition dateFieldName hcolumn
      hnoCase bindings engine row hbindings
    unfold Condition.holds
    rw [hoperand, hoperator, holds_list hval, Operand.names, map_fst_list hval]
    rcases getCompareOperator_list h hlist with ⟨hcomparison, hlist⟩ | ⟨hcomparison, hlist⟩
    · rw [hcomparison] at hcompares
      have hany := congrArg (fun l : List Bool => l.any id) hcompares
      rw [hlist, hcomparison, if_pos rfl]
      simpa only [List.any_map, Function.id_comp] using hany
    · rw [hcomparison] at hcompares
      have hall := congrArg (fun l : List Bool => l.all id) hcompares
      rw [hlist, hcomparison, if_neg (by decide)]
      simpa only [List.all_map, Function.id_comp] using hall

/-- The condition of a list where one value is taken: the list has this one only. -/
theorem writes_of_item (h : field.IsProper) (hlist : field.takesList = false) {item : Js.Val}
    (hval : field.val = .arr [item]) {condition : Condition}
    {dateFieldName : Js.Val} (hcolumn : condition.column = field.column texts opts dateFieldName)
    (hnoCase : condition.noCase = field.noCase opts)
    (hoperator : condition.operator = getCompareOperator field.origFieldName true)
    (hoperand : condition.operand = .list ((field.assignments texts opts).map Prod.fst)) :
    Writes texts opts field dateFieldName condition := by
  rw [getCompareOperator_item h hlist] at hoperator
  have hcases : condition.operator ∈ [Operator.gt, .gte, .lt, .lte, .like, .ne, .eq] := by
    rw [hoperator]
    exact comparison_cases field
  constructor
  · have hname : condition.operand =
        .list [aliasPrefix opts ++ field.stem ++ "_" ++ toString 0] := by
      rw [hoperand, map_fst_list hval]
      rfl
    exact wellFormed_of_comparison hcases (.inr hname)
  · rw [hoperand, Operand.names]
  · intro engine bindings row hbindings
    have hcompares := @compares_list texts opts field _ hval condition dateFieldName hcolumn
      hnoCase bindings engine row hbindings
    have hall := congrArg (fun l : List Bool => l.all id) hcompares
    rw [holds_of_comparison hcases, hoperand, hoperator, Operand.names, map_fst_list hval,
      holds_list hval]
    have hone : (if field.comparison = .eq then
        [item].any (field.compares texts opts dateFieldName engine row)
        else [item].all (field.compares texts opts dateFieldName engine row)) =
        [item].all (field.compares texts opts dateFieldName engine row) := by
      split_ifs <;> simp
    rw [hone]
    simpa only [List.all_map, Function.id_comp] using hall

theorem writes_list (h : field.IsProper) (hplain : field.IsPlain texts)
    {items : List Js.Val} (hitems : field.val = .arr items) {filter : Obj}
    (hval : filter.get field.name = field.val) :
    ∃ condition subValues,
      getWhereQueryAndValues texts opts field.origFieldName filter field.val.isArray
        (field.condition.map fun _ => field.name) = some (condition, subValues) ∧
      Writes texts opts field (filter.get "_dateFieldName") condition ∧
      Assigns opts (field.assignments texts opts) subValues := by
  have hisArr : field.val.isArray = true := by
    rw [hitems]
    rfl
  have hkeys : getKeysAndValues texts opts field.val field.stem true =
      some (.list ((field.assignments texts opts).map Prod.fst),
        (field.assignments texts opts).map fun entry => (opts.queryValKey entry.1, entry.2)) := by
    rw [map_fst_list hitems, assignments_list hitems, hitems]
    simp only [getKeysAndValues, aliasPrefix, List.map_map]
    rfl
  rw [getWhereQueryAndValues_eq h hval, hisArr, hkeys, Option.bind_some,
    getCompareOpAndKey_eq (by
      intro name hname
      cases hname)]
  refine ⟨_, _, rfl, ?_, Assigns.of_map _⟩
  cases hlist : field.takesList with
  | true =>
    apply writes_of_list h hlist hitems rfl _ rfl rfl
    rcases getCompareOperator_list h hlist with ⟨hcomparison, hoperator⟩ | ⟨hcomparison, hoperator⟩
    · simp only [hoperator]
      rw [noCase_eq h _ (.inl hcomparison)]
      rfl
    · simp only [hoperator]
      rw [noCase_eq h _ (.inr hcomparison)]
      rfl
  | false =>
    have hone : items.length = 1 := by
      unfold IsPlain at hplain
      rw [hitems] at hplain
      rcases hplain.2 with htakes | hone
      · rw [hlist] at htakes
        cases htakes
      · exact hone
    obtain ⟨item, rfl⟩ := List.length_eq_one_iff.mp hone
    apply writes_of_item h hlist hitems rfl _ rfl rfl
    simp only [getCompareOperator_item h hlist]
    exact noCase_of_comparison h _

/-- All values of a field can be bound. -/
theorem IsPlain.bindVal_isSome (h : field.IsPlain texts) {entry : String × Js.Val}
    (hentry : entry ∈ field.assignments texts opts) : (bindVal entry.2).isSome = true := by
  unfold IsPlain at h
  cases hval : field.val with
  | arr items =>
    rw [hval] at h
    rw [assignments_list hval] at hentry
    obtain ⟨⟨item, j⟩, hitem, rfl⟩ := List.mem_map.mp hentry
    exact h.1 item (List.fst_mem_of_mem_zipIdx hitem)
  | null => simp [hval] at h
  | undefined => simp [hval] at h
  | _ =>
    rw [assignments_scalar (by rw [hval]; rfl), List.mem_singleton] at hentry
    rw [hentry, hval]
    rfl

/-- What is written of a field, and what is bound. -/
theorem writes (h : field.IsProper) (hplain : field.IsPlain texts) {filter : Obj}
    (hval : filter.get field.name = field.val) :
    ∃ condition subValues,
      getWhereQueryAndValues texts opts field.origFieldName filter field.val.isArray
        (field.condition.map fun _ => field.name) = some (condition, subValues) ∧
      Writes texts opts field (filter.get "_dateFieldName") condition ∧
      Assigns opts (field.assignments texts opts) subValues := by
  cases hitems : field.val with
  | arr items =>
    rw [← hitems]
    exact writes_list h hplain hitems hval
  | _ =>
    rw [← hitems]
    apply writes_scalar h hplain _ hval
    rw [hitems]
    rfl

end Written

end FilterField

end ReportsFramework
