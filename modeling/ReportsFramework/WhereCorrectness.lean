/-
A filter read as a predicate on rows, and when the clause of `getWhereQuery` selects the rows
on which it is true.
-/
import ReportsFramework.WhereFields

namespace ReportsFramework

open Js Sql Clause

namespace Filter

/-- The object of the fields: the `$or`, or the filter itself. -/
def fieldsObject (filter : Obj) : Obj :=
  if isOrOp filter then (filter.get FilterCondition.or.name).entries else filter

def connective (filter : Obj) : Connective :=
  if isOrOp filter then .or else .and

def fieldKeys (filter : Obj) : List String :=
  ((fieldsObject filter).without hiddenFields).keys

/-- What a filter with an `$or` asks for beside it. -/
def siblings (filter : Obj) : List String :=
  (filter.without (FilterCondition.or.name :: hiddenFields)).keys

/-- The object of a condition. -/
def conditionObject (o : Obj) (key : String) : Obj :=
  if (o.get key).isObject then (o.get key).entries else []

def plainField (o : Obj) (key : String) : FilterField :=
  { condition := none, name := key, val := o.get key }

def conditionField (o : Obj) (key : String) (condition : FilterCondition) (name : String) :
    FilterField :=
  { condition := some condition, name, val := (conditionObject o key).get name }

/-- The fields of a key: those of its condition, or itself. -/
def fields (o : Obj) (key : String) : List FilterField :=
  match FilterCondition.ofName? key with
  | some .isNull | some .isNotNull => []
  | some .or | none => [plainField o key]
  | some condition =>
      ((conditionObject o key).without hiddenFields).keys.map (conditionField o key condition)

/-- The columns of `$isNull` and `$isNotNull`. -/
def nullNames (o : Obj) (key : String) : List Js.Val :=
  match FilterCondition.ofName? key with
  | some .isNull | some .isNotNull =>
      match o.get key with
      | .arr items => items
      | val => [val]
  | _ => []

section Reading

variable (texts : JsTexts) (opts : WhereOpts) (engine : Engine) (row : Row)

/-- What a key asks for; the columns of an `$isNull` go together. -/
def keyHolds (operator : Connective) (o : Obj) (key : String) : Bool :=
  match FilterCondition.ofName? key with
  | some .isNull => (nullNames o key).all fun name => row (opts.column (texts.text name)) == .null
  | some .isNotNull =>
      (nullNames o key).all fun name => row (opts.column (texts.text name)) != .null
  | _ => combine operator (fields o key)
      (·.holds texts opts (o.get "_dateFieldName") engine row)

/-- A filter as a predicate: all that is beside an `$or`, and one of its fields. -/
def holds (filter : Obj) : Bool :=
  (!isOrOp filter || (siblings filter).all (keyHolds texts opts engine row .and filter)) &&
    combine (connective filter) (fieldKeys filter)
      (keyHolds texts opts engine row (connective filter) (fieldsObject filter))

end Reading

def allFields (filter : Obj) : List FilterField :=
  (fieldKeys filter).flatMap (fields (fieldsObject filter))

/-- Whether a key adds to the clause. -/
def emits (o : Obj) (key : String) : Prop :=
  fields o key ≠ [] ∨ nullNames o key ≠ []

/-- An object has each key once. -/
structure IsFilter (filter : Obj) : Prop where
  keys : (fieldsObject filter).keys.Nodup
  conditionKeys : ∀ key ∈ fieldKeys filter, (conditionObject (fieldsObject filter) key).keys.Nodup

/-- A key that its own branch of `getWhereQuery` writes. -/
structure IsWritableKey (filter : Obj) (key : String) : Prop where
  plain : isOrOp filter = true → FilterCondition.ofName? key ≠ none
  nulls : FilterCondition.ofName? key = some .isNull ∨
    FilterCondition.ofName? key = some .isNotNull → nullNames (fieldsObject filter) key ≠ []

/-- The filters that are written as they are read. -/
structure IsWritable (texts : JsTexts) (opts : WhereOpts) (filter : Obj) : Prop where
  alone : isOrOp filter = true → siblings filter = []
  keys : ∀ key ∈ fieldKeys filter, IsWritableKey filter key
  first : (∃ key ∈ (fieldKeys filter).head?, emits (fieldsObject filter) key) ∨
    isOrOp filter = false ∧ (∀ key ∈ fieldKeys filter, ¬ emits (fieldsObject filter) key) ∧
      (fieldKeys filter = [] ∨ opts.isNotSetWhereClause = true)
  proper : ∀ field ∈ allFields filter, field.IsProper
  plain : ∀ field ∈ allFields filter, field.IsPlain texts
  names : FilterField.DistinctNames (allFields filter)

section Keys

variable {texts : JsTexts} {opts : WhereOpts} {filter : Obj} {key : String}

/-- Parts with the connectives before them. -/
def connect (operator : Connective) (i : ℕ) (written : List (List Condition)) :
    List (Option Connective × List Condition) :=
  written.zipIdx.map fun (conditions, j) =>
    (if 0 < i ∨ 0 < j then some operator else none, conditions)

/-- What a key adds to a clause says what the key asks for. -/
structure WritesKey (texts : JsTexts) (opts : WhereOpts) (filter : Obj) (key : String)
    (written : List (List Condition)) (values : Obj) : Prop where
  emits : emits (fieldsObject filter) key ↔ written ≠ []
  wellFormed : ∀ conditions ∈ written, conditions ≠ [] ∧
    ∀ condition ∈ conditions, condition.wellFormed = true
  names : written.flatten.flatMap (·.operand.names) =
    ((fields (fieldsObject filter) key).flatMap (·.assignments texts opts)).map Prod.fst
  assigns : FilterField.Assigns opts
    ((fields (fieldsObject filter) key).flatMap (·.assignments texts opts)) values
  holds : ∀ engine bindings row,
    (∀ field ∈ fields (fieldsObject filter) key, ∀ entry ∈ field.assignments texts opts,
      bindings entry.1 = bindVal entry.2) →
    combine (connective filter) written (·.all (·.holds engine bindings row)) =
      keyHolds texts opts engine row (connective filter) (fieldsObject filter) key

theorem connect_singleton (operator : Connective) (i : ℕ) (conditions : List Condition) :
    connect operator i [conditions] = [(if 0 < i then some operator else none, conditions)] := by
  simp [connect]

theorem mapM_eq_map {α β : Type*} {f : α → Option β} {g : α → β} {l : List α}
    (h : ∀ a ∈ l, f a = some (g a)) : l.mapM f = some (l.map g) := by
  induction l with
  | nil => rfl
  | cons a l ih =>
    obtain ⟨hhead, hrest⟩ := List.forall_mem_cons.mp h
    rw [List.mapM_cons, hhead, ih hrest]
    rfl

/-- The operator of `$isNull` and of `$isNotNull`. -/
def IsNullKey (key : String) (operator : Operator) : Prop :=
  FilterCondition.ofName? key = some .isNull ∧ operator = .isNull ∨
    FilterCondition.ofName? key = some .isNotNull ∧ operator = .isNotNull

theorem getIsNullOperator_eq {o : Obj} {operator : Operator} (h : IsNullKey key operator)
    (hnames : nullNames o key ≠ []) :
    getIsNullOperator texts opts key o = some ((nullNames o key).map fun name =>
      { column := opts.column (texts.text name), operator, operand := .absent }) := by
  unfold nullNames at hnames ⊢
  unfold getIsNullOperator
  rcases h with ⟨hname, rfl⟩ | ⟨hname, rfl⟩ <;> simp only [hname] at hnames ⊢ <;>
    cases hval : o.get key <;> simp_all

theorem getIsNullOperator_none {o : Obj} (h : ∀ operator, ¬ IsNullKey key operator) :
    getIsNullOperator texts opts key o = none := by
  unfold getIsNullOperator
  cases hname : FilterCondition.ofName? key with
  | none => rfl
  | some condition =>
    cases condition with
    | isNull => exact absurd (.inl ⟨hname, rfl⟩) (h .isNull)
    | isNotNull => exact absurd (.inr ⟨hname, rfl⟩) (h .isNotNull)
    | _ => rfl

/-- An `$isNull` is one part of the clause. -/
theorem writesKey_nulls {operator : Operator} (h : IsNullKey key operator)
    (hnames : nullNames (fieldsObject filter) key ≠ []) :
    WritesKey texts opts filter key
      [(nullNames (fieldsObject filter) key).map fun name =>
        { column := opts.column (texts.text name), operator, operand := .absent }] [] := by
  have hfields : fields (fieldsObject filter) key = [] := by
    unfold fields
    rcases h with ⟨hname, -⟩ | ⟨hname, -⟩ <;> rw [hname]
  constructor
  · simp [emits, hnames]
  · intro conditions hconditions
    rw [List.mem_singleton.mp hconditions]
    refine ⟨by simpa using hnames, fun condition hcondition => ?_⟩
    obtain ⟨name, -, rfl⟩ := List.mem_map.mp hcondition
    rcases h with ⟨-, rfl⟩ | ⟨-, rfl⟩ <;> rfl
  · simp [hfields, Operand.names]
  · rw [hfields]
    exact FilterField.Assigns.of_map []
  · intro engine bindings row _
    unfold keyHolds
    rw [combine_singleton, List.all_map]
    rcases h with ⟨hname, rfl⟩ | ⟨hname, rfl⟩ <;> rw [hname] <;> rfl

/-- What the fields of a key write is what the key adds, one part a field. -/
theorem writesKey_fields (hkey : ∀ operator, ¬ IsNullKey key operator)
    {condition : FilterField → Condition} {values : FilterField → Obj}
    {dateFieldName : Js.Val}
    (hwrites : ∀ field ∈ fields (fieldsObject filter) key,
      FilterField.Writes texts opts field dateFieldName (condition field) ∧
        FilterField.Assigns opts (field.assignments texts opts) (values field))
    (hdate : ∀ field ∈ fields (fieldsObject filter) key,
      (fieldsObject filter).get "_dateFieldName" = dateFieldName ∨ field.condition ≠ none) :
    WritesKey texts opts filter key
      ((fields (fieldsObject filter) key).map fun field => [condition field])
      (Obj.merge ((fields (fieldsObject filter) key).map values)) := by
  have hnulls : nullNames (fieldsObject filter) key = [] := by
    unfold nullNames
    cases hname : FilterCondition.ofName? key with
    | none => rfl
    | some condition =>
      cases condition with
      | isNull => exact absurd (.inl ⟨hname, rfl⟩) (hkey .isNull)
      | isNotNull => exact absurd (.inr ⟨hname, rfl⟩) (hkey .isNotNull)
      | _ => rfl
  constructor
  · simp [emits, hnulls]
  · intro conditions hconditions
    obtain ⟨field, hfield, rfl⟩ := List.mem_map.mp hconditions
    refine ⟨by simp, fun condition' hcondition => ?_⟩
    rw [List.mem_singleton.mp hcondition]
    exact (hwrites field hfield).1.wellFormed
  · rw [List.flatten_eq_flatMap, List.flatMap_map, List.flatMap_assoc, List.map_flatMap]
    apply List.flatMap_congr
    intro field hfield
    simp [(hwrites field hfield).1.names]
  · have hmerge := @FilterField.Assigns.merge opts
      ((fields (fieldsObject filter) key).map fun field =>
        (field.assignments texts opts, values field)) (by
          intro part hpart
          obtain ⟨field, hfield, rfl⟩ := List.mem_map.mp hpart
          exact (hwrites field hfield).2)
    rwa [List.flatMap_map, List.map_map] at hmerge
  · intro engine bindings row hbindings
    have hholds : keyHolds texts opts engine row (connective filter) (fieldsObject filter) key =
        combine (connective filter) (fields (fieldsObject filter) key)
          (·.holds texts opts ((fieldsObject filter).get "_dateFieldName") engine row) := by
      unfold keyHolds
      cases hname : FilterCondition.ofName? key with
      | none => rfl
      | some condition =>
        cases condition with
        | isNull => exact absurd (.inl ⟨hname, rfl⟩) (hkey .isNull)
        | isNotNull => exact absurd (.inr ⟨hname, rfl⟩) (hkey .isNotNull)
        | _ => rfl
    rw [hholds, combine_map]
    apply combine_congr
    intro field hfield
    have hfield_holds := (hwrites field hfield).1.holds engine bindings row
      (hbindings field hfield)
    rw [List.all_cons, List.all_nil, Bool.and_true, hfield_holds]
    rcases hdate field hfield with hdate | hcondition
    · rw [hdate]
    · exact field.holds_of_condition hcondition _ _ engine row

theorem fields_condition {o : Obj} {condition : FilterCondition}
    (hname : FilterCondition.ofName? key = some condition)
    (hcondition : condition.isCondition = true) :
    fields o key =
      ((conditionObject o key).without hiddenFields).keys.map (conditionField o key condition) := by
  unfold fields
  rw [hname]
  cases condition <;> first | rfl | cases hcondition

/-- The parts of a condition, one a field of its object. -/
theorem keyQuery_condition {condition : FilterCondition}
    (hname : FilterCondition.ofName? key = some condition)
    (hcondition : condition.isCondition = true)
    (hproper : ∀ field ∈ fields (fieldsObject filter) key, field.IsProper)
    (hplain : ∀ field ∈ fields (fieldsObject filter) key, field.IsPlain texts) :
    ∃ written values, (∀ i, keyQuery texts opts filter (fieldsObject filter) (connective filter)
      key i = some (connect (connective filter) i written, values)) ∧
      WritesKey texts opts filter key written values := by
  have hkey : ∀ operator, ¬ IsNullKey key operator := by
    rintro operator (⟨hnull, -⟩ | ⟨hnull, -⟩) <;>
    · rw [hname] at hnull
      cases hnull
      cases hcondition
  have hcond_name : condition.name = key := by simpa using List.find?_some hname
  have hfields := @fields_condition key (fieldsObject filter) condition hname hcondition
  have hshape : ∀ field ∈ fields (fieldsObject filter) key,
      field.condition = some condition ∧
        field.val = (conditionObject (fieldsObject filter) key).get field.name := by
    intro field hfield
    rw [hfields] at hfield
    obtain ⟨name, -, rfl⟩ := List.mem_map.mp hfield
    exact ⟨rfl, rfl⟩
  have hwrites : ∀ field ∈ fields (fieldsObject filter) key, ∃ result : Condition × Obj,
      getWhereQueryAndValues texts opts key (conditionObject (fieldsObject filter) key)
        field.val.isArray (some field.name) = some result ∧
      FilterField.Writes texts opts field
        ((conditionObject (fieldsObject filter) key).get "_dateFieldName") result.1 ∧
      FilterField.Assigns opts (field.assignments texts opts) result.2 := by
    intro field hfield
    obtain ⟨hsome, hval⟩ := hshape field hfield
    obtain ⟨written, values, hquery, hwritten, hassigns⟩ :=
      @FilterField.writes texts opts field (hproper field hfield) (hplain field hfield) _ hval.symm
    rw [FilterField.origFieldName, hsome, Option.map_some] at hquery
    simp only [hcond_name] at hquery
    exact ⟨(written, values), hquery, hwritten, hassigns⟩
  have : Nonempty Condition := ⟨{ column := "", operator := .eq, operand := .absent }⟩
  choose! result hresult using hwrites
  refine ⟨_, _, fun i => ?_, @writesKey_fields texts opts filter key hkey
    (fun field => (result field).1) (fun field => (result field).2) _
    (fun field hfield => (hresult field hfield).2)
    (fun field hfield => .inr (by simp [(hshape field hfield).1]))⟩
  have hany : (FilterCondition.ofName? key).any (·.isCondition) = true := by
    rw [hname]
    exact hcondition
  unfold keyQuery
  rw [getIsNullOperator_none hkey]
  simp only [hany, if_true]
  change Option.bind (List.mapM _
    ((conditionObject (fieldsObject filter) key).without hiddenFields).keys.zipIdx) _ = _
  rw [hfields] at hresult ⊢
  rw [mapM_eq_map (g := fun entry : String × ℕ =>
    let field := conditionField (fieldsObject filter) key condition entry.1
    ([(if 0 < i ∨ 0 < entry.2 then some (connective filter) else none, [(result field).1])],
      (result field).2))]
  · have hkeys := (List.zipIdx_map_fst 0
      ((conditionObject (fieldsObject filter) key).without hiddenFields).keys).symm
    simp only [Option.bind_some, joinParts, connect, Option.some.injEq, Prod.mk.injEq,
      List.flatMap_map, List.map_map, List.zipIdx_map]
    constructor
    · rw [List.map_eq_flatMap]
      rfl
    · conv_rhs => rw [hkeys, List.map_map]
      rfl
  · rintro ⟨name, j⟩ hentry
    obtain ⟨hquery, -⟩ := hresult _ (List.mem_map_of_mem (List.fst_mem_of_mem_zipIdx hentry))
    exact congrArg (Option.bind · fun written =>
      some ([(if 0 < i ∨ 0 < j then some (connective filter) else none, [written.1])], written.2))
      hquery

/-- A plain field is a part of its own. -/
theorem keyQuery_plain (hname : FilterCondition.ofName? key = none)
    (hor : isOrOp filter = false)
    (hproper : ∀ field ∈ fields (fieldsObject filter) key, field.IsProper)
    (hplain : ∀ field ∈ fields (fieldsObject filter) key, field.IsPlain texts) :
    ∃ written values, (∀ i, keyQuery texts opts filter (fieldsObject filter) (connective filter)
      key i = some (connect (connective filter) i written, values)) ∧
      WritesKey texts opts filter key written values := by
  have hkey : ∀ operator, ¬ IsNullKey key operator := by
    rintro operator (⟨hnull, -⟩ | ⟨hnull, -⟩) <;>
    · rw [hname] at hnull
      cases hnull
  have hobject : fieldsObject filter = filter := by
    rw [fieldsObject, hor]
    rfl
  have hfields : fields (fieldsObject filter) key = [plainField (fieldsObject filter) key] := by
    unfold fields
    rw [hname]
  have hmem := List.mem_singleton_self (plainField (fieldsObject filter) key)
  rw [← hfields] at hmem
  obtain ⟨condition, values, hquery, hwritten, hassigns⟩ :=
    @FilterField.writes texts opts _ (hproper _ hmem) (hplain _ hmem) filter
      (by
        rw [hobject]
        rfl)
  have hwrites := @writesKey_fields texts opts filter key hkey (fun _ => condition)
    (fun _ => values) (filter.get "_dateFieldName")
    (by
      intro field hfield
      rw [hfields] at hfield
      rw [List.mem_singleton.mp hfield]
      exact ⟨hwritten, hassigns⟩)
    (fun field hfield => .inl (by rw [hobject]))
  refine ⟨[[condition]], values, fun i => ?_, ?_⟩
  · have hany : (FilterCondition.ofName? key).any (·.isCondition) ≠ true := by simp [hname]
    unfold keyQuery
    rw [getIsNullOperator_none hkey, connect_singleton]
    simp only [if_neg hany]
    exact congrArg (Option.bind · fun written =>
      some ([(if 0 < i then some (connective filter) else none, [written.1])], written.2)) hquery
  · rw [hfields] at hwrites
    exact ⟨hwrites.emits, hwrites.wellFormed, hwrites.names,
      by simpa [hfields] using hassigns, hwrites.holds⟩

/-- What a key adds to the clause. -/
theorem keyQuery_spec (h : IsWritableKey filter key)
    (hproper : ∀ field ∈ fields (fieldsObject filter) key, field.IsProper)
    (hplain : ∀ field ∈ fields (fieldsObject filter) key, field.IsPlain texts) :
    ∃ written values, (∀ i, keyQuery texts opts filter (fieldsObject filter) (connective filter)
      key i = some (connect (connective filter) i written, values)) ∧
      WritesKey texts opts filter key written values := by
  cases hname : FilterCondition.ofName? key with
  | none =>
    apply keyQuery_plain hname _ hproper hplain
    cases hor : isOrOp filter with
    | false => rfl
    | true => exact absurd hname (h.plain hor)
  | some condition =>
    have hnull : ∀ {operator}, IsNullKey key operator →
        ∃ written values, (∀ i, keyQuery texts opts filter (fieldsObject filter)
          (connective filter) key i = some (connect (connective filter) i written, values)) ∧
          WritesKey texts opts filter key written values := by
      intro operator hkey
      have hnames : nullNames (fieldsObject filter) key ≠ [] := by
        apply h.nulls
        rcases hkey with ⟨hkey, -⟩ | ⟨hkey, -⟩
        · exact .inl hkey
        · exact .inr hkey
      refine ⟨_, _, fun i => ?_, writesKey_nulls hkey hnames⟩
      rw [keyQuery, getIsNullOperator_eq hkey hnames, connect_singleton]
    cases condition with
    | isNull => exact hnull (.inl ⟨hname, rfl⟩)
    | isNotNull => exact hnull (.inr ⟨hname, rfl⟩)
    | or =>
      have hfields : fields (fieldsObject filter) key =
          [plainField (fieldsObject filter) key] := by
        unfold fields
        rw [hname]
      have hnone : FilterCondition.ofName? key = none :=
        (hproper (plainField (fieldsObject filter) key) (by simp [hfields])).2
      rw [hname] at hnone
      cases hnone
    | _ => exact keyQuery_condition hname rfl hproper hplain

end Keys

/-- The clause is well formed, each of its placeholders has its own name and a value, and it
holds of the rows that the filter is true of. -/
def IsFaithful (texts : JsTexts) (opts : WhereOpts) (filter : Obj) : Prop :=
  ∃ query, getWhereQuery texts opts filter = some query ∧
    query.clause.wellFormed = true ∧ query.clause.placeholders.Nodup ∧
    (∀ name ∈ query.clause.placeholders, (bindings opts query.values name).isSome = true) ∧
    ∀ engine row, query.clause.holds engine (bindings opts query.values) row =
      holds texts opts engine row filter

section Clause

variable {texts : JsTexts} {opts : WhereOpts} {filter : Obj}

theorem origFieldName_of_mem_fields {o : Obj} {key : String} {field : FilterField}
    (h : field ∈ fields o key) : field.origFieldName = key := by
  have hplain : field = plainField o key → field.origFieldName = key := by
    rintro rfl
    rfl
  cases hname : FilterCondition.ofName? key with
  | none =>
    unfold fields at h
    rw [hname] at h
    exact hplain (List.mem_singleton.mp h)
  | some condition =>
    have hcondition : condition.name = key := by simpa using List.find?_some hname
    unfold fields at h
    rw [hname] at h
    cases condition with
    | isNull => cases h
    | isNotNull => cases h
    | or => exact hplain (List.mem_singleton.mp h)
    | _ =>
      obtain ⟨name, -, rfl⟩ := List.mem_map.mp h
      exact hcondition

theorem nodup_without {o : Obj} (h : o.keys.Nodup) (names : List String) :
    (o.without names).keys.Nodup :=
  h.sublist ((List.filter_sublist).map Prod.fst)

/-- No field stands twice in a filter. -/
theorem IsFilter.pairwise (h : IsFilter filter) :
    (allFields filter).Pairwise fun field field' =>
      ¬ (field.condition = field'.condition ∧ field.name = field'.name) := by
  unfold allFields
  rw [List.pairwise_flatMap]
  constructor
  · intro key hkey
    unfold fields
    cases hname : FilterCondition.ofName? key with
    | none => exact List.pairwise_singleton _ _
    | some condition =>
      cases condition with
      | isNull => exact List.Pairwise.nil
      | isNotNull => exact List.Pairwise.nil
      | or => exact List.pairwise_singleton _ _
      | _ =>
        apply List.Pairwise.map _ _ (nodup_without (h.conditionKeys key hkey) hiddenFields)
        intro name name' hne hsame
        exact hne hsame.2
  · apply List.Pairwise.imp _ (nodup_without h.keys hiddenFields)
    intro key key' hne field hfield field' hfield' hsame
    apply hne
    rw [← origFieldName_of_mem_fields hfield, ← origFieldName_of_mem_fields hfield',
      FilterField.origFieldName, FilterField.origFieldName, hsame.1, hsame.2]

/-- The parts of all keys. -/
def connectAll (operator : Connective) (keys : List String)
    (written : String → List (List Condition)) : List (Option Connective × List Condition) :=
  keys.zipIdx.flatMap fun entry => connect operator entry.2 (written entry.1)

variable {operator : Connective} {keys : List String}
  {written : String → List (List Condition)}

theorem connective_of_pos {i : ℕ} (hi : 0 < i) {l : List (List Condition)}
    {part : Option Connective × List Condition} (h : part ∈ connect operator i l) :
    part.1 = some operator := by
  obtain ⟨entry, -, rfl⟩ := List.mem_map.mp h
  exact if_pos (.inl hi)

theorem map_snd_connect (i : ℕ) (l : List (List Condition)) :
    (connect operator i l).map Prod.snd = l := by
  rw [connect, List.map_map]
  exact List.zipIdx_map_fst 0 l

theorem map_snd_connectAll :
    (connectAll operator keys written).map Prod.snd = keys.flatMap written := by
  rw [connectAll, List.map_flatMap]
  simp only [map_snd_connect]
  rw [← List.flatMap_map, List.zipIdx_map_fst]

/-- The connectives stand between the parts if the first key adds one. -/
theorem connectAll_cons {key : String} (hkey : written key ≠ []) :
    ∃ first rest, connectAll operator (key :: keys) written = (none, first) :: rest ∧
      ∀ part ∈ rest, part.1 = some operator := by
  obtain ⟨first, others, hwritten⟩ := List.exists_cons_of_ne_nil hkey
  refine ⟨first, others.zipIdx 1 |>.map (fun (conditions, j) =>
    (if 0 < 0 ∨ 0 < j then some operator else none, conditions)) |>.append
      ((keys.zipIdx 1).flatMap fun entry => connect operator entry.2 (written entry.1)), ?_, ?_⟩
  · simp [connectAll, connect, hwritten, List.zipIdx_cons]
  · intro part hpart
    rcases List.mem_append.mp hpart with hpart | hpart
    · obtain ⟨⟨conditions, j⟩, hentry, rfl⟩ := List.mem_map.mp hpart
      have hj : 0 < j := (List.mem_zipIdx hentry).1
      exact if_pos (.inr hj)
    · obtain ⟨⟨key', i⟩, hentry, hpart⟩ := List.mem_flatMap.mp hpart
      have hi : 0 < i := (List.mem_zipIdx hentry).1
      exact connective_of_pos hi hpart

/-- What the keys of a filter write. -/
theorem exists_writesKey (h : IsWritable texts opts filter) :
    ∃ (written : String → List (List Condition)) (values : String → Obj),
      getWhereQuery texts opts filter = some {
        clause := {
          hasWhere := !opts.isNotSetWhereClause && !(fieldKeys filter).isEmpty
          parts := connectAll (connective filter) (fieldKeys filter) written }
        values := Obj.merge ((fieldKeys filter).map values) } ∧
      ∀ key ∈ fieldKeys filter, WritesKey texts opts filter key (written key) (values key) := by
  have hspec : ∀ key ∈ fieldKeys filter, ∃ result : List (List Condition) × Obj,
      (∀ i, keyQuery texts opts filter (fieldsObject filter) (connective filter) key i =
        some (connect (connective filter) i result.1, result.2)) ∧
        WritesKey texts opts filter key result.1 result.2 := by
    intro key hkey
    obtain ⟨written, values, hquery, hwrites⟩ := keyQuery_spec (h.keys key hkey)
      (fun field hfield => h.proper field (List.mem_flatMap.mpr ⟨key, hkey, hfield⟩))
      (fun field hfield => h.plain field (List.mem_flatMap.mpr ⟨key, hkey, hfield⟩))
    exact ⟨(written, values), hquery, hwrites⟩
  choose! result hresult using hspec
  refine ⟨fun key => (result key).1, fun key => (result key).2, ?_,
    fun key hkey => (hresult key hkey).2⟩
  have hmap := @mapM_eq_map _ _ (fun entry : String × ℕ =>
      keyQuery texts opts filter (fieldsObject filter) (connective filter) entry.1 entry.2)
    (fun entry => (connect (connective filter) entry.2 (result entry.1).1, (result entry.1).2))
    (fieldKeys filter).zipIdx
    (by
      rintro ⟨key, i⟩ hentry
      exact (hresult key (List.fst_mem_of_mem_zipIdx hentry)).1 i)
  have hkeys := (List.zipIdx_map_fst 0 (fieldKeys filter)).symm
  have hvalues : (fieldKeys filter).map (fun key => (result key).2) =
      (fieldKeys filter).zipIdx.map fun entry => (result entry.1).2 := by
    conv_lhs => rw [hkeys, List.map_map]
    rfl
  rw [hvalues]
  change Option.bind ((fieldKeys filter).zipIdx.mapM fun entry =>
    keyQuery texts opts filter (fieldsObject filter) (connective filter) entry.1 entry.2) _ = _
  rw [hmap, Option.bind_some]
  simp only [joinParts, List.flatMap_map, List.map_map, connectAll, Function.comp_def]
  rfl

/-- Either the first part has no connective and all others have one, or there is none. -/
theorem shape_connectAll {written : String → List (List Condition)} {values : String → Obj}
    (h : IsWritable texts opts filter)
    (hwrites : ∀ key ∈ fieldKeys filter,
      WritesKey texts opts filter key (written key) (values key)) :
    (∃ first rest, connectAll (connective filter) (fieldKeys filter) written =
        (none, first) :: rest ∧ ∀ part ∈ rest, part.1 = some (connective filter)) ∨
      connectAll (connective filter) (fieldKeys filter) written = [] ∧
        isOrOp filter = false ∧ (fieldKeys filter = [] ∨ opts.isNotSetWhereClause = true) := by
  rcases h.first with ⟨key, hhead, hemits⟩ | ⟨hor, hnone, hwhere⟩
  · obtain ⟨rest, hkeys⟩ := List.head?_eq_some_iff.mp hhead
    have hkey : key ∈ fieldKeys filter := by simp [hkeys]
    have hwritten := (hwrites key hkey).emits.mp hemits
    rw [hkeys]
    exact .inl (connectAll_cons hwritten)
  · refine .inr ⟨?_, hor, hwhere⟩
    unfold connectAll
    rw [List.flatMap_eq_nil_iff]
    rintro ⟨key, i⟩ hentry
    have hkey := List.fst_mem_of_mem_zipIdx hentry
    have hwritten : written key = [] := by
      by_contra hne
      exact hnone key hkey ((hwrites key hkey).emits.mpr hne)
    rw [hwritten]
    rfl

/-- The parts of a clause hold if its reading does. -/
theorem holds_connectAll {written : String → List (List Condition)} {values : String → Obj}
    (h : IsWritable texts opts filter)
    (hwrites : ∀ key ∈ fieldKeys filter,
      WritesKey texts opts filter key (written key) (values key))
    {engine : Engine} {bindings : Bindings} {row : Row}
    (hbindings : ∀ entry ∈ (allFields filter).flatMap (·.assignments texts opts),
      bindings entry.1 = bindVal entry.2) :
    evalFrom (·.all (·.holds engine bindings row)) true
      (connectAll (connective filter) (fieldKeys filter) written) =
        holds texts opts engine row filter := by
  have hcombine : combine (connective filter)
      (connectAll (connective filter) (fieldKeys filter) written)
        (·.2.all (·.holds engine bindings row)) = holds texts opts engine row filter := by
    have halone : (!isOrOp filter || (siblings filter).all
        (keyHolds texts opts engine row .and filter)) = true := by
      cases hor : isOrOp filter with
      | false => rfl
      | true => simp [h.alone hor]
    rw [holds, halone, Bool.true_and]
    calc combine (connective filter)
          (connectAll (connective filter) (fieldKeys filter) written)
            (·.2.all (·.holds engine bindings row))
        = combine (connective filter) ((connectAll (connective filter) (fieldKeys filter)
            written).map Prod.snd) (·.all (·.holds engine bindings row)) := by rw [combine_map]
      _ = combine (connective filter) (fieldKeys filter) fun key =>
            combine (connective filter) (written key) (·.all (·.holds engine bindings row)) := by
          rw [map_snd_connectAll, combine_flatMap]
      _ = _ := by
          apply combine_congr
          intro key hkey
          apply (hwrites key hkey).holds
          intro field hfield entry hentry
          exact hbindings entry (List.mem_flatMap.mpr
            ⟨field, List.mem_flatMap.mpr ⟨key, hkey, hfield⟩, hentry⟩)
  rcases shape_connectAll h hwrites with ⟨first, rest, hparts, hrest⟩ | ⟨hparts, hor, -⟩
  · rw [hparts] at hcombine ⊢
    rw [evalFrom_combine hrest, hcombine]
  · have hand : connective filter = .and := by rw [connective, hor]; rfl
    rw [hparts, hand] at hcombine
    rw [hparts, ← hcombine]
    rfl

theorem wellFormed_connectAll {written : String → List (List Condition)}
    {values : String → Obj} (h : IsWritable texts opts filter)
    (hwrites : ∀ key ∈ fieldKeys filter,
      WritesKey texts opts filter key (written key) (values key)) :
    wellFormed {
      hasWhere := !opts.isNotSetWhereClause && !(fieldKeys filter).isEmpty
      parts := connectAll (connective filter) (fieldKeys filter) written } = true := by
  have hpart : ∀ part ∈ connectAll (connective filter) (fieldKeys filter) written,
      part.2 ≠ [] ∧ ∀ condition ∈ part.2, condition.wellFormed = true := by
    intro part hpart
    have hmem := List.mem_map_of_mem (f := Prod.snd) hpart
    rw [map_snd_connectAll] at hmem
    obtain ⟨key, hkey, hmem⟩ := List.mem_flatMap.mp hmem
    exact (hwrites key hkey).wellFormed part.2 hmem
  have hshape := shape_connectAll h hwrites
  generalize connectAll (connective filter) (fieldKeys filter) written = parts at hpart hshape
  unfold wellFormed conditions
  simp only [Bool.and_eq_true, List.all_eq_true, List.mem_flatMap]
  refine ⟨⟨⟨?_, ?_⟩, ?_⟩, ?_⟩
  · rcases hshape with ⟨first, rest, rfl, hrest⟩ | ⟨rfl, -, -⟩
    · simp only [connected, Option.isNone_none, Bool.true_and, List.all_eq_true]
      intro part hmem
      rw [hrest part hmem]
      rfl
    · rfl
  · intro part hmem
    simpa using (hpart part hmem).1
  · rcases hshape with ⟨first, rest, rfl, -⟩ | ⟨-, -, hkeys | hwhere⟩
    · simp
    · simp [hkeys]
    · simp [hwhere]
  · rintro condition ⟨part, hmem, hcondition⟩
    exact (hpart part hmem).2 condition hcondition

/-- A filter that is written as it is read has its clause. -/
theorem getWhereQuery_faithful (texts : JsTexts) (opts : WhereOpts) (filter : Obj)
    (hfilter : IsFilter filter) (h : IsWritable texts opts filter) :
    IsFaithful texts opts filter := by
  obtain ⟨written, values, hquery, hwrites⟩ := exists_writesKey h
  have hassigns : FilterField.Assigns opts
      ((allFields filter).flatMap (·.assignments texts opts))
      (Obj.merge ((fieldKeys filter).map values)) := by
    have hmerge := @FilterField.Assigns.merge opts ((fieldKeys filter).map fun key =>
      ((fields (fieldsObject filter) key).flatMap (·.assignments texts opts), values key)) (by
        intro part hpart
        obtain ⟨key, hkey, rfl⟩ := List.mem_map.mp hpart
        exact (hwrites key hkey).assigns)
    rw [List.flatMap_map, List.map_map] at hmerge
    rw [allFields, List.flatMap_assoc]
    exact hmerge
  have hnodup := h.names.nodup hfilter.pairwise texts opts
  have hplaceholders : ((fieldKeys filter).flatMap written).flatten.flatMap (·.operand.names) =
      ((allFields filter).flatMap (·.assignments texts opts)).map Prod.fst := by
    rw [allFields, List.flatMap_assoc, List.map_flatMap]
    simp only [List.flatten_eq_flatMap, List.flatMap_assoc]
    apply List.flatMap_congr
    intro key hkey
    rw [← (hwrites key hkey).names, List.flatten_eq_flatMap, List.flatMap_assoc]
  have hconditions : (connectAll (connective filter) (fieldKeys filter) written).flatMap (·.2) =
      ((fieldKeys filter).flatMap written).flatten := by
    rw [← map_snd_connectAll, List.flatten_eq_flatMap, List.flatMap_map]
    rfl
  have hbindings : ∀ entry ∈ (allFields filter).flatMap (·.assignments texts opts),
      bindings opts (Obj.merge ((fieldKeys filter).map values)) entry.1 = bindVal entry.2 := by
    intro entry hentry
    exact hassigns.bindings hnodup hentry
  refine ⟨_, hquery, wellFormed_connectAll h hwrites, ?_, ?_, ?_⟩
  · rw [placeholders, conditions, hconditions, hplaceholders]
    exact hnodup
  · intro name hname
    rw [placeholders, conditions, hconditions, hplaceholders] at hname
    obtain ⟨entry, hentry, rfl⟩ := List.mem_map.mp hname
    rw [hbindings entry hentry]
    obtain ⟨field, hfield, hmem⟩ := List.mem_flatMap.mp hentry
    exact (h.plain field hfield).bindVal_isSome hmem
  · intro engine row
    exact holds_connectAll h hwrites hbindings

end Clause

namespace WhereWitness

def texts : JsTexts where
  stringify := fun _ => ""
  text := Js.Val.strD
  text_str := Js.Val.strD_str

/-- Equal values are equal. -/
def engine : Engine where
  compares := fun
    | .eq, _, val, val' => decide (val = val')
    | _, _, _, _ => false
  eq_num := by
    intro noCase val x h
    simpa using h

/-- A condition beside an `$or`. -/
def besideOr : Obj :=
  [("$or", .obj [("$eq", .obj [("a", .num 1)])]), ("$eq", .obj [("b", .num 2)])]

def row : Row := fun column => if column = "a" then .num 1 else .num 3

/-- A value `null`. -/
def nullFilter : Obj :=
  [("$eq", .obj [("a", .null)])]

/-- A condition without a field before another one. -/
def emptyFirst : Obj :=
  [("$gt", .obj []), ("$eq", .obj [("a", .num 1)])]

theorem not_faithful : ¬ IsFaithful texts {} besideOr ∧ ¬ IsFaithful texts {} nullFilter ∧
    ¬ IsFaithful texts {} emptyFirst := by
  refine ⟨?_, ?_, ?_⟩
  · rintro ⟨query, hquery, -, -, -, hholds⟩
    have hselects : ((getWhereQuery texts {} besideOr).map fun query =>
        query.clause.holds engine (bindings {} query.values) row) = some true := by
      decide +kernel
    have hfalse : holds texts {} engine row besideOr = false := by decide +kernel
    rw [hquery, Option.map_some, hholds, hfalse] at hselects
    cases hselects
  · rintro ⟨query, hquery, -, -, hbound, -⟩
    have hunbound : ((getWhereQuery texts {} nullFilter).map fun query =>
        query.clause.placeholders.all fun name => (bindings {} query.values name).isSome) =
          some false := by
      decide +kernel
    have hall : (query.clause.placeholders.all fun name =>
        (bindings {} query.values name).isSome) = true := List.all_eq_true.mpr hbound
    rw [hquery, Option.map_some, hall] at hunbound
    cases hunbound
  · rintro ⟨query, hquery, hwellFormed, -, -, -⟩
    have hfalse : ((getWhereQuery texts {} emptyFirst).map (·.clause.wellFormed)) =
        some false := by
      decide +kernel
    rw [hquery, Option.map_some, hwellFormed] at hfalse
    cases hfalse

/-- Dates, a list, an own column and a comparison. -/
def plainFilter : Obj :=
  [("start", .num 5), ("_dateFieldName", .str "mts"), ("$in", .obj [("symbol", .arr [.str "BTC"])]),
    ("$isNull", .arr [.str "fee"]), ("$lte", .obj [("start", .num 7)])]

theorem fieldKeys_eq : fieldKeys plainFilter = ["start", "$in", "$isNull", "$lte"] := by
  decide +kernel

theorem allFields_eq : allFields plainFilter = [
    { condition := none, name := "start", val := .num 5 },
    { condition := some .isIn, name := "symbol", val := .arr [.str "BTC"] },
    { condition := some .lte, name := "start", val := .num 7 }] := by
  rfl

theorem isFilter : IsFilter plainFilter where
  keys := by decide +kernel
  conditionKeys := by decide +kernel

theorem names_ne : ∀ name ∈ ["symbol_$in", "start_$lte"], "start" ≠ name := by
  decide

theorem distinctNames : FilterField.DistinctNames (allFields plainFilter) := by
  rw [allFields_eq]
  constructor
  · intro field hfield field' hfield' hplain hcondition entry hentry entry' hentry' _
    simp only [List.mem_cons, List.not_mem_nil, or_false] at hfield hfield'
    rcases hfield with rfl | rfl | rfl
    · rcases hfield' with rfl | rfl | rfl
      · exact absurd rfl hcondition
      · exact names_ne _ (by decide)
      · exact names_ne _ (by decide)
    · cases hplain
    · cases hplain
  · intro field hfield field' hfield' hplain _ items hitems j _
    simp only [List.mem_cons, List.not_mem_nil, or_false] at hfield hfield'
    rcases hfield with rfl | rfl | rfl
    · intro hname
      have hdigit := getLast?_indexed field'.stem j
      rw [← hname] at hdigit
      revert hdigit
      decide
    · cases hplain
    · cases hplain

theorem isWritable : IsWritable texts {} plainFilter where
  alone := by decide +kernel
  keys key hkey := by
    rw [fieldKeys_eq] at hkey
    constructor
    · intro hor
      exact absurd hor (by decide +kernel)
    · intro hnull
      simp only [List.mem_cons, List.not_mem_nil, or_false] at hkey
      rcases hkey with rfl | rfl | rfl | rfl
      · exact absurd hnull (by decide)
      · exact absurd hnull (by decide)
      · exact List.cons_ne_nil (Js.Val.str "fee") []
      · exact absurd hnull (by decide)
  first := .inl ⟨"start", by rw [fieldKeys_eq]; rfl, .inl (List.cons_ne_nil _ _)⟩
  proper field hfield := by
    rw [allFields_eq] at hfield
    simp only [List.mem_cons, List.not_mem_nil, or_false] at hfield
    rcases hfield with rfl | rfl | rfl
    · exact ⟨by decide, (by decide : FilterCondition.ofName? "start" = none)⟩
    · exact ⟨by decide, rfl⟩
    · exact ⟨by decide, rfl⟩
  plain := by
    rw [allFields_eq]
    simp [FilterField.IsPlain, FilterField.takesList, serializeVal, bindVal]
  names := distinctNames

theorem plainFilter_faithful : IsFaithful texts {} plainFilter :=
  getWhereQuery_faithful texts {} plainFilter isFilter isWritable

end WhereWitness

end Filter

end ReportsFramework
