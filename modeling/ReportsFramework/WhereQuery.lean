/-
`getWhereQuery`: a WHERE clause and the values of its placeholders from a filter.
-/
import ReportsFramework.JsObject
import ReportsFramework.SqlClause

namespace ReportsFramework

open Js Sql

/-- `JSON.stringify` of an object, and the text of a value in a template. -/
structure JsTexts where
  stringify : Js.Val → String
  text : Js.Val → String
  text_str : ∀ s, text (.str s) = s

/-- `FILTER_CONDITIONS`. -/
inductive FilterCondition
  | gt
  | gte
  | lt
  | lte
  | not
  | like
  | eq
  | ne
  | isIn
  | nin
  | or
  | isNull
  | isNotNull
deriving DecidableEq, Repr

namespace FilterCondition

def name : FilterCondition → String
  | gt => "$gt"
  | gte => "$gte"
  | lt => "$lt"
  | lte => "$lte"
  | not => "$not"
  | like => "$like"
  | eq => "$eq"
  | ne => "$ne"
  | isIn => "$in"
  | nin => "$nin"
  | or => "$or"
  | isNull => "$isNull"
  | isNotNull => "$isNotNull"

def all : List FilterCondition :=
  [gt, gte, lt, lte, not, like, eq, ne, isIn, nin, or, isNull, isNotNull]

def ofName? (fieldName : String) : Option FilterCondition :=
  all.find? (·.name = fieldName)

/-- Those that have an object of fields. -/
def isCondition : FilterCondition → Bool
  | or | isNull | isNotNull => false
  | _ => true

end FilterCondition

structure WhereOpts where
  isPrefixed : Bool := false
  isNotSetWhereClause : Bool := false
  requestedFilter : Js.Val := .undefined
  tableAlias : String := ""

structure WhereQuery where
  clause : Clause
  values : Obj

section Values

variable (texts : JsTexts)

def serializeVal : Js.Val → Js.Val
  | .bool b => .num (if b then 1 else 0)
  | .arr items => .str (texts.stringify (.arr items))
  | .obj entries => .str (texts.stringify (.obj entries))
  | val => val

/-- What the database binds. -/
def bindVal : Js.Val → Option Sql.Val
  | .null => some .null
  | .num x => some (.num x)
  | .str s => some (.text s)
  | _ => none

def WhereOpts.queryValKey (opts : WhereOpts) (name : String) : String :=
  if opts.isPrefixed then "$" ++ name else name

/-- The values that are bound to the placeholders of a query. -/
def bindings (opts : WhereOpts) (values : Obj) : Bindings := fun name =>
  bindVal (values.get (opts.queryValKey name))

end Values

section NoCase

abbrev NoCaseFields := List (String × List String)

def isCondField (fieldName : String) : Bool :=
  (FilterCondition.ofName? fieldName).isSome

def isFilledText : Js.Val → Bool
  | .str s => s ≠ ""
  | .arr items => items.any fun
      | .str s => s ≠ ""
      | _ => false
  | _ => false

def addNoCaseField (outKey key : String) (accum : NoCaseFields) : NoCaseFields :=
  match accum.lookup outKey with
  | some fields =>
      accum.map fun entry =>
        if entry.1 = outKey then (outKey, if key ∈ fields then fields else fields ++ [key])
        else entry
  | none => accum ++ [(outKey, [key])]

mutual

/-- `_getFieldsNamesToDisableCaseSensitivity`; what is no object loses what was there. -/
def noCaseFields : Js.Val → Option String → NoCaseFields → NoCaseFields
  | .obj entries, outKey, accum => noCaseEntries entries outKey accum
  | _, _, _ => []

def noCaseEntries : List (String × Js.Val) → Option String → NoCaseFields → NoCaseFields
  | [], _, accum => accum
  | (key, val) :: entries, outKey, accum =>
      noCaseEntries entries outKey <|
        if isCondField key then noCaseFields val (some key) accum
        else match outKey with
          | some outKey =>
              if isCondField outKey && isFilledText val then addNoCaseField outKey key accum
              else accum
          | none => accum

end

def isSetNoCaseOp (fields : NoCaseFields) (fieldName origFieldName : String) : Bool :=
  fields.any fun entry => entry.1 = origFieldName && entry.2.contains fieldName

end NoCase

section Conditions

/-- `_getCompareOperator`. -/
def getCompareOperator (origFieldName : String) (isArr : Bool) : Operator :=
  if origFieldName = "start" then .gte
  else if origFieldName = "end" then .lte
  else match FilterCondition.ofName? origFieldName with
    | some .gt => .gt
    | some .gte => .gte
    | some .lt => .lt
    | some .lte => .lte
    | some .like => .like
    | some .ne => .ne
    | some .eq => .eq
    | condition =>
        if isArr then if condition = some .isIn then .isIn
          else if condition = some .nin then .notIn
          else if condition = some .not then .notIn else .isIn
        else if condition = some .not then .ne else .eq

/-- The placeholders of a value with what is bound to them; a value that is no array has no
`map`. -/
def getKeysAndValues (texts : JsTexts) (opts : WhereOpts) (val : Js.Val) (name : String)
    (isArr : Bool) : Option (Operand × Obj) :=
  let name := (if opts.tableAlias = "" then "" else opts.tableAlias ++ "_") ++ name
  if isArr then
    match val with
    | .arr items =>
        let keys := items.zipIdx.map fun (item, j) => (name ++ "_" ++ toString j, item)
        some (.list (keys.map (·.1)),
          keys.map fun (key, item) => (opts.queryValKey key, serializeVal texts item))
    | _ => none
  else
    match serializeVal texts val with
    | .null => some (.key name, [])
    | val => some (.key name, [(opts.queryValKey name, val)])

/-- The branches for a bound `null` have none to find: it is left out of the values. -/
def getCompareOpAndKey (opts : WhereOpts) (compareOperator : Operator) (operand : Operand)
    (subValues : Obj) (noCase : Bool) : Operator × Bool × Operand :=
  let isNull : Bool := match operand with
    | .key name => match Obj.get subValues (opts.queryValKey name) with
        | .null => true
        | _ => false
    | _ => false
  if compareOperator = .eq ∧ isNull = true then (.isNull, false, .absent)
  else if compareOperator = .ne ∧ isNull = true then (.isNotNull, false, .absent)
  else match compareOperator with
    | .eq | .ne | .isIn | .notIn => (compareOperator, noCase, operand)
    | _ => (compareOperator, false, operand)

def WhereOpts.column (opts : WhereOpts) (fieldName : String) : String :=
  if opts.tableAlias = "" then fieldName else opts.tableAlias ++ "." ++ fieldName

/-- `_getWhereQueryAndValues` of a plain field, or of the field `condName` of a condition. -/
def getWhereQueryAndValues (texts : JsTexts) (opts : WhereOpts) (origFieldName : String)
    (filter : Obj) (isArr : Bool) (condName : Option String) : Option (Condition × Obj) := do
  let condName := condName.filter (· ≠ "")
  let fieldNameWithCondName := match condName with
    | some condName => condName ++ "_" ++ origFieldName
    | none => origFieldName
  let fieldName := match condName with
    | some condName => condName
    | none =>
        if origFieldName = "start" ∨ origFieldName = "end" then
          texts.text (filter.get "_dateFieldName")
        else origFieldName
  let val := match condName with
    | some condName => filter.get condName
    | none => filter.get origFieldName
  let (operand, subValues) ← getKeysAndValues texts opts val fieldNameWithCondName isArr
  let noCase := isSetNoCaseOp (noCaseFields opts.requestedFilter none []) fieldName origFieldName
  let (operator, noCase, operand) :=
    getCompareOpAndKey opts (getCompareOperator origFieldName isArr) operand subValues noCase
  some ({ column := opts.column fieldName, operator, noCase, operand }, subValues)

/-- `_getIsNullOperator`; `none` where the key is no such operator, or has no names. -/
def getIsNullOperator (texts : JsTexts) (opts : WhereOpts) (fieldName : String) (filter : Obj) :
    Option (List Condition) :=
  let conditions (operator : Operator) : Option (List Condition) :=
    let names := match filter.get fieldName with
      | .arr items => items
      | val => [val]
    if names.isEmpty then none
    else some <| names.map fun name =>
      { column := opts.column (texts.text name), operator, operand := .absent }
  match FilterCondition.ofName? fieldName with
  | some .isNull => conditions .isNull
  | some .isNotNull => conditions .isNotNull
  | _ => none

end Conditions

section Query

/-- `_isOrOp`. -/
def isOrOp (filter : Obj) : Bool :=
  (filter.get FilterCondition.or.name).isObject

def hiddenFields : List String := ["_dateFieldName"]

/-- The parts of a clause and their values; a later value of a placeholder replaces an
earlier one. -/
def joinParts (parts : List (List (Option Connective × List Condition) × Obj)) :
    List (Option Connective × List Condition) × Obj :=
  (parts.flatMap (·.1), Obj.merge (parts.map (·.2)))

/-- What a key of the filter adds to the clause; `i` is its position. -/
def keyQuery (texts : JsTexts) (opts : WhereOpts) (filter inner : Obj) (operator : Connective)
    (curr : String) (i : ℕ) : Option (List (Option Connective × List Condition) × Obj) :=
  match getIsNullOperator texts opts curr inner with
  | some conditions => some ([(if 0 < i then some operator else none, conditions)], [])
  | none =>
      if (FilterCondition.ofName? curr).any (·.isCondition) then do
        let condFilter := if (inner.get curr).isObject then (inner.get curr).entries else []
        let condKeys := (condFilter.without hiddenFields).keys
        let parts ← condKeys.zipIdx.mapM fun (currCond, j) => do
          let (condition, subValues) ← getWhereQueryAndValues texts opts curr condFilter
            (condFilter.get currCond).isArray (some currCond)
          some ([(if 0 < i ∨ 0 < j then some operator else none, [condition])], subValues)
        some (joinParts parts)
      else do
        let (condition, subValues) ← getWhereQueryAndValues texts opts curr filter
          (inner.get curr).isArray none
        some ([(if 0 < i then some operator else none, [condition])], subValues)

/-- `none` is a type error.  The fields of an `$or` are those of its object, but the values of
its plain ones are read from the filter around it. -/
def getWhereQuery (texts : JsTexts) (opts : WhereOpts) (filter : Obj) : Option WhereQuery := do
  let inner := if isOrOp filter then (filter.get FilterCondition.or.name).entries else filter
  let operator := if isOrOp filter then .or else .and
  let keys := (inner.without hiddenFields).keys
  let parts ← keys.zipIdx.mapM fun (curr, i) => keyQuery texts opts filter inner operator curr i
  let (parts, values) := joinParts parts
  some {
    clause := { hasWhere := !opts.isNotSetWhereClause && !keys.isEmpty, parts }
    values }

end Query

section Names

variable {texts : JsTexts} {opts : WhereOpts}

theorem mapM_cons_eq_some {α β : Type*} {f : α → Option β} {a : α} {l : List α} {l' : List β}
    (h : (a :: l).mapM f = some l') :
    ∃ b rest, f a = some b ∧ l.mapM f = some rest ∧ l' = b :: rest := by
  rw [List.mapM_cons] at h
  obtain ⟨b, hb, h⟩ := Option.bind_eq_some_iff.mp h
  obtain ⟨rest, hrest, h⟩ := Option.bind_eq_some_iff.mp h
  exact ⟨b, rest, hb, hrest, (Option.some.inj h).symm⟩

theorem source_of_mem_mapM {α β : Type*} {f : α → Option β} {l : List α} {l' : List β}
    (h : l.mapM f = some l') {b : β} (hb : b ∈ l') : ∃ a ∈ l, f a = some b := by
  induction l generalizing l' with
  | nil =>
    cases h
    cases hb
  | cons a l ih =>
    obtain ⟨b', rest, hb', hrest, rfl⟩ := mapM_cons_eq_some h
    rcases List.mem_cons.mp hb with rfl | hb
    · exact ⟨a, List.mem_cons_self, hb'⟩
    · obtain ⟨a', ha', hfa'⟩ := ih hrest hb
      exact ⟨a', List.mem_cons_of_mem _ ha', hfa'⟩

theorem image_of_mem_mapM {α β : Type*} {f : α → Option β} {l : List α} {l' : List β}
    (h : l.mapM f = some l') {a : α} (ha : a ∈ l) : ∃ b ∈ l', f a = some b := by
  induction l generalizing l' with
  | nil => cases ha
  | cons a' l ih =>
    obtain ⟨b, rest, hb, hrest, rfl⟩ := mapM_cons_eq_some h
    rcases List.mem_cons.mp ha with rfl | ha
    · exact ⟨b, List.mem_cons_self, hb⟩
    · obtain ⟨b', hb', hfa⟩ := ih hrest ha
      exact ⟨b', List.mem_cons_of_mem _ hb', hfa⟩

/-- The keys that a name of the clause may have. -/
def IsKeyOf (opts : WhereOpts) (name key : String) : Prop :=
  let name := (if opts.tableAlias = "" then "" else opts.tableAlias ++ "_") ++ name
  key = opts.queryValKey name ∨ ∃ j : ℕ, key = opts.queryValKey (name ++ "_" ++ toString j)

theorem getKeysAndValues_keys {val : Js.Val} {name : String} {isArr : Bool} {operand : Operand}
    {subValues : Obj}
    (h : getKeysAndValues texts opts val name isArr = some (operand, subValues)) {key : String}
    (hkey : key ∈ subValues.keys) : IsKeyOf opts name key := by
  unfold getKeysAndValues at h
  cases isArr with
  | true =>
    cases val with
    | arr items =>
      cases h
      simp only [Obj.keys, List.map_map, List.mem_map] at hkey
      obtain ⟨⟨item, j⟩, -, rfl⟩ := hkey
      exact .inr ⟨j, rfl⟩
    | _ => cases h
  | false =>
    simp only [Bool.false_eq_true, ↓reduceIte] at h
    split at h
    · cases h
      cases hkey
    · cases h
      exact .inl (List.mem_singleton.mp hkey)

/-- The name of a field in a clause. -/
def whereName (origFieldName : String) (condName : Option String) : String :=
  match condName.filter (· ≠ "") with
  | some condName => condName ++ "_" ++ origFieldName
  | none => origFieldName

theorem getWhereQueryAndValues_keys {origFieldName : String} {filter : Obj} {isArr : Bool}
    {condName : Option String} {condition : Condition} {subValues : Obj}
    (h : getWhereQueryAndValues texts opts origFieldName filter isArr condName =
      some (condition, subValues)) {key : String} (hkey : key ∈ subValues.keys) :
    IsKeyOf opts (whereName origFieldName condName) key := by
  unfold getWhereQueryAndValues at h
  obtain ⟨⟨operand, sub⟩, hsub, h⟩ := Option.bind_eq_some_iff.mp h
  cases h
  exact getKeysAndValues_keys hsub hkey

theorem mem_keys_joinParts {parts : List (List (Option Connective × List Condition) × Obj)}
    {key : String} : key ∈ (joinParts parts).2.keys ↔ ∃ part ∈ parts, key ∈ part.2.keys := by
  rw [joinParts, Obj.mem_keys_merge]
  simp only [List.mem_map]
  constructor
  · rintro ⟨o, ⟨part, hpart, rfl⟩, hkey⟩
    exact ⟨part, hpart, hkey⟩
  · rintro ⟨part, hpart, hkey⟩
    exact ⟨part.2, ⟨part, hpart, rfl⟩, hkey⟩

/-- A key of the filter gives names of its own, or such with the name of a condition. -/
theorem keyQuery_keys {filter inner : Obj} {operator : Connective} {curr : String} {i : ℕ}
    {parts : List (Option Connective × List Condition)} {values : Obj}
    (h : keyQuery texts opts filter inner operator curr i = some (parts, values)) {key : String}
    (hkey : key ∈ values.keys) :
    ∃ condName, IsKeyOf opts (whereName curr condName) key ∧
      (condName ≠ none → ∃ condition, FilterCondition.ofName? curr = some condition) := by
  unfold keyQuery at h
  split at h
  · cases h
    cases hkey
  · split at h
    next hcondition =>
      obtain ⟨pieces, hpieces, h⟩ := Option.bind_eq_some_iff.mp h
      have h : joinParts pieces = (parts, values) := Option.some.inj h
      have hvalues : (joinParts pieces).2 = values := by rw [h]
      rw [← hvalues, mem_keys_joinParts] at hkey
      obtain ⟨part, hpart, hkey⟩ := hkey
      obtain ⟨⟨currCond, j⟩, -, hsource⟩ := source_of_mem_mapM hpieces hpart
      obtain ⟨⟨condition, subValues⟩, hsub, hsource⟩ := Option.bind_eq_some_iff.mp hsource
      cases hsource
      refine ⟨_, getWhereQueryAndValues_keys hsub hkey, fun _ => ?_⟩
      rw [Option.any_eq_true] at hcondition
      obtain ⟨condition, hname, -⟩ := hcondition
      exact ⟨condition, hname⟩
    · obtain ⟨⟨condition, subValues⟩, hsub, h⟩ := Option.bind_eq_some_iff.mp h
      cases h
      exact ⟨none, getWhereQueryAndValues_keys hsub hkey, fun hne => absurd rfl hne⟩

/-- A field whose name no other key of a filter gives to a placeholder. -/
structure OwnName (field : String) : Prop where
  dollar : '$' ∉ field.toList
  last : ¬ field.toList.getLast?.any (·.isDigit) = true
  date : field ∉ ["start", "end", "_dateFieldName"]

theorem dollar_mem_of_ofName? {curr : String} {condition : FilterCondition}
    (h : FilterCondition.ofName? curr = some condition) : '$' ∈ curr.toList := by
  obtain rfl : condition.name = curr := by simpa using List.find?_some h
  cases condition <;> decide

theorem OwnName.ofName? {field : String} (h : OwnName field) :
    FilterCondition.ofName? field = none := by
  cases hname : FilterCondition.ofName? field with
  | none => rfl
  | some condition => exact absurd (dollar_mem_of_ofName? hname) h.dollar

theorem getLast?_indexed (name : String) (j : ℕ) :
    (name ++ "_" ++ toString j).toList.getLast?.any (·.isDigit) = true := by
  have hlist : (toString j).toList = Nat.toDigits 10 j := Nat.toList_repr
  have hne : Nat.toDigits 10 j ≠ [] := List.ne_nil_of_length_pos Nat.length_toDigits_pos
  rw [String.toList_append, List.getLast?_append, hlist, List.getLast?_eq_some_getLast hne]
  exact Nat.isDigit_of_mem_toDigits (by omega) (by omega) (List.getLast_mem hne)

/-- Only the key of the field itself sets its placeholder. -/
theorem OwnName.not_mem_keyQuery {field : String} (h : OwnName field)
    (hbare : opts.isPrefixed = false) (halias : opts.tableAlias = "") {filter inner : Obj}
    {operator : Connective} {curr : String} (hcurr : curr ≠ field) {i : ℕ}
    {parts : List (Option Connective × List Condition)} {values : Obj}
    (hquery : keyQuery texts opts filter inner operator curr i = some (parts, values)) :
    field ∉ values.keys := by
  intro hkey
  obtain ⟨condName, hname, hcondition⟩ := keyQuery_keys hquery hkey
  simp only [IsKeyOf, halias, WhereOpts.queryValKey, hbare, ↓reduceIte, Bool.false_eq_true,
    String.empty_append] at hname
  rcases hname with rfl | ⟨j, rfl⟩
  · unfold whereName at h hcurr
    cases hfilter : condName.filter (· ≠ "") with
    | none =>
      rw [hfilter] at hcurr
      exact hcurr rfl
    | some name =>
      rw [hfilter] at h
      obtain ⟨condition, hname⟩ := hcondition (by
        rintro rfl
        cases hfilter)
      apply h.dollar
      simp only [String.toList_append, List.mem_append]
      exact .inr (dollar_mem_of_ofName? hname)
  · exact h.last (getLast?_indexed _ j)

/-- What a plain field with a number adds. -/
theorem OwnName.keyQuery {field : String} (h : OwnName field) (hbare : opts.isPrefixed = false)
    (halias : opts.tableAlias = "") {filter : Obj} {operator : Connective} {x : ℚ}
    (hget : filter.get field = .num x) (i : ℕ) :
    ∃ connective noCase, keyQuery texts opts filter filter operator field i =
      some ([(connective, [{ column := field, operator := .eq, noCase, operand := .key field }])],
        [(field, .num x)]) := by
  have hname := h.ofName?
  have hdate := h.date
  simp only [List.mem_cons, List.not_mem_nil, or_false, not_or] at hdate
  obtain ⟨hstart, hend, -⟩ := hdate
  have hnull : getIsNullOperator texts opts field filter = none := by
    simp only [getIsNullOperator, hname]
  have hoperator : getCompareOperator field false = .eq := by
    simp [getCompareOperator, hstart, hend, hname]
  have hisArr : (filter.get field).isArray = false := by
    rw [hget]
    rfl
  have hkeys : getKeysAndValues texts opts (.num x) field false =
      some (.key field, [(field, .num x)]) := by
    simp [getKeysAndValues, serializeVal, halias, WhereOpts.queryValKey, hbare]
  have hbound : Obj.get [(field, .num x)] (opts.queryValKey field) = .num x := by
    simp [Obj.get, WhereOpts.queryValKey, hbare]
  have hvalues : getWhereQueryAndValues texts opts field filter false none =
      some ({ column := field, operator := .eq, noCase := isSetNoCaseOp (noCaseFields
        opts.requestedFilter none []) field field, operand := .key field }, [(field, .num x)]) := by
    simp [getWhereQueryAndValues, hget, hkeys, hoperator, hstart, hend, getCompareOpAndKey, hbound,
      WhereOpts.column, halias]
  refine ⟨if 0 < i then some operator else none,
    isSetNoCaseOp (noCaseFields opts.requestedFilter none []) field field, ?_⟩
  simp [ReportsFramework.keyQuery, hnull, hname, hisArr, hvalues]

/-- The connectives of a clause are those of its operator. -/
theorem keyQuery_connective {filter inner : Obj} {operator : Connective} {curr : String} {i : ℕ}
    {parts : List (Option Connective × List Condition)} {values : Obj}
    (h : keyQuery texts opts filter inner operator curr i = some (parts, values)) :
    ∀ part ∈ parts, part.1 = none ∨ part.1 = some operator := by
  have hif : ∀ (c : Prop) [Decidable c], (if c then some operator else none) = none ∨
      (if c then some operator else none) = some operator := by
    intro c _
    split
    · exact .inr rfl
    · exact .inl rfl
  intro part hpart
  unfold keyQuery at h
  split at h
  · cases h
    rw [List.mem_singleton.mp hpart]
    exact hif _
  · split at h
    · obtain ⟨pieces, hpieces, h⟩ := Option.bind_eq_some_iff.mp h
      have hparts : (joinParts pieces).1 = parts := congrArg Prod.fst (Option.some.inj h)
      rw [← hparts] at hpart
      obtain ⟨piece, hpiece, hpart⟩ := List.mem_flatMap.mp hpart
      obtain ⟨⟨currCond, j⟩, -, hsource⟩ := source_of_mem_mapM hpieces hpiece
      obtain ⟨⟨condition, subValues⟩, -, hsource⟩ := Option.bind_eq_some_iff.mp hsource
      cases hsource
      rw [List.mem_singleton.mp hpart]
      exact hif _
    · obtain ⟨⟨condition, subValues⟩, -, h⟩ := Option.bind_eq_some_iff.mp h
      cases h
      rw [List.mem_singleton.mp hpart]
      exact hif _

variable {filter : Obj} {query : WhereQuery}

/-- What a clause is joined of. -/
theorem getWhereQuery_eq_some (h : getWhereQuery texts opts filter = some query) :
    ∃ inner operator pieces,
      (isOrOp filter = true ∧ inner = (filter.get FilterCondition.or.name).entries ∧
        operator = .or ∨ isOrOp filter = false ∧ inner = filter ∧ operator = .and) ∧
      ((inner.without hiddenFields).keys.zipIdx.mapM fun entry =>
        keyQuery texts opts filter inner operator entry.1 entry.2) = some pieces ∧
      query.clause.parts = (joinParts pieces).1 ∧ query.values = (joinParts pieces).2 := by
  obtain ⟨pieces, hpieces, h⟩ := Option.bind_eq_some_iff.mp h
  cases h
  cases hor : isOrOp filter with
  | true =>
    simp only [hor, ↓reduceIte] at hpieces
    exact ⟨_, _, pieces, .inl ⟨rfl, rfl, rfl⟩, hpieces, rfl, rfl⟩
  | false =>
    simp only [hor, Bool.false_eq_true, ↓reduceIte] at hpieces
    exact ⟨_, _, pieces, .inr ⟨rfl, rfl, rfl⟩, hpieces, rfl, rfl⟩

/-- Without an `$or` a plain field with a number is one of the conditions that all hold. -/
theorem OwnName.getWhereQuery {field : String} (hown : OwnName field)
    (hbare : opts.isPrefixed = false) (halias : opts.tableAlias = "")
    (hor : isOrOp filter = false) {x : ℚ} (hget : filter.get field = .num x)
    (h : getWhereQuery texts opts filter = some query) :
    (∀ part ∈ query.clause.parts, part.1 ≠ some .or) ∧
      (∃ part ∈ query.clause.parts, ∃ noCase,
        part.2 = [{ column := field, operator := .eq, noCase, operand := .key field }]) ∧
      query.values.get field = .num x := by
  obtain ⟨inner, operator, pieces, hcases, hpieces, hparts, hvalues⟩ := getWhereQuery_eq_some h
  obtain ⟨rfl, rfl⟩ : inner = filter ∧ operator = .and := by
    rcases hcases with ⟨htrue, -⟩ | ⟨-, hand⟩
    · rw [hor] at htrue
      cases htrue
    · exact hand
  have hhidden : field ∉ hiddenFields := by
    intro hmem
    apply hown.date
    rw [List.mem_singleton.mp hmem]
    simp
  have hkey : field ∈ (inner.without hiddenFields).keys := by
    rw [Obj.mem_keys_without]
    refine ⟨?_, hhidden⟩
    by_contra hnot
    rw [Obj.get_of_not_mem hnot] at hget
    cases hget
  obtain ⟨i, hi⟩ := List.getElem?_of_mem hkey
  obtain ⟨own, hown_mem, hquery⟩ :=
    image_of_mem_mapM hpieces (List.mk_mem_zipIdx_iff_getElem?.mpr hi)
  obtain ⟨connective, noCase, hform⟩ := hown.keyQuery hbare halias hget i
  rw [hform] at hquery
  cases hquery
  rw [hparts, hvalues]
  refine ⟨?_, ⟨_, List.mem_flatMap.mpr ⟨_, hown_mem, List.mem_singleton_self _⟩, noCase, rfl⟩, ?_⟩
  · intro part hpart
    obtain ⟨piece, hpiece, hpart⟩ := List.mem_flatMap.mp hpart
    obtain ⟨⟨curr, j⟩, -, hsource⟩ := source_of_mem_mapM hpieces hpiece
    rcases keyQuery_connective hsource part hpart with hnone | hsome
    · rw [hnone]
      nofun
    · rw [hsome]
      nofun
  · apply Obj.get_merge
    · intro o ho hmem
      obtain ⟨piece, hpiece, rfl⟩ := List.mem_map.mp ho
      obtain ⟨⟨curr, j⟩, -, hsource⟩ := source_of_mem_mapM hpieces hpiece
      by_cases hcurr : curr = field
      · subst hcurr
        obtain ⟨connective', noCase', hform'⟩ := hown.keyQuery hbare halias hget j
        rw [hform'] at hsource
        cases hsource
        rfl
      · exact absurd hmem (hown.not_mem_keyQuery hbare halias hcurr hsource)
    · exact ⟨_, List.mem_map_of_mem hown_mem, List.mem_singleton_self _⟩

end Names

end ReportsFramework
