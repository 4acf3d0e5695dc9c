/-
The placeholders of a filter: which names its fields get, and when no two are the same.
-/
import Mathlib.Data.List.Nodup
import ReportsFramework.TextSearch
import ReportsFramework.WhereQuery

namespace ReportsFramework

open Js Sql

/-- A field of a filter with its value: a plain one, or one of a condition. -/
structure FilterField where
  condition : Option FilterCondition
  name : String
  val : Js.Val

namespace FilterField

def origFieldName (field : FilterField) : String :=
  match field.condition with
  | none => field.name
  | some condition => condition.name

/-- The name of the placeholder without the alias and an index. -/
def stem (field : FilterField) : String :=
  match field.condition with
  | none => field.name
  | some condition => field.name ++ "_" ++ condition.name

/-- What is behind the stem, and the values. -/
def indexed (field : FilterField) : List (String × Js.Val) :=
  match field.val with
  | .arr items => items.zipIdx.map fun (item, j) => ("_" ++ toString j, item)
  | val => [("", val)]

def aliasPrefix (opts : WhereOpts) : String :=
  if opts.tableAlias = "" then "" else opts.tableAlias ++ "_"

/-- The placeholders with the values that are bound to them. -/
def assignments (texts : JsTexts) (opts : WhereOpts) (field : FilterField) :
    List (String × Js.Val) :=
  field.indexed.map fun entry =>
    (aliasPrefix opts ++ field.stem ++ entry.1, serializeVal texts entry.2)

/-- No plain field has the name of a placeholder that is of a condition, or of an item. -/
structure DistinctNames (fields : List FilterField) : Prop where
  condition : ∀ field ∈ fields, ∀ field' ∈ fields, field.condition = none →
    field'.condition ≠ none → ∀ entry ∈ field.indexed, ∀ entry' ∈ field'.indexed,
      entry.1 = entry'.1 → field.name ≠ field'.stem
  item : ∀ field ∈ fields, ∀ field' ∈ fields, field.condition = none →
    field.val.isArray = false → ∀ items, field'.val = .arr items → ∀ j < items.length,
      field.name ≠ field'.stem ++ "_" ++ toString j

section Stems

theorem ofName?_name (condition : FilterCondition) :
    FilterCondition.ofName? condition.name = some condition := by
  cases condition <;> rfl

theorem name_injective {condition condition' : FilterCondition}
    (h : condition.name = condition'.name) : condition = condition' := by
  have hname := congrArg FilterCondition.ofName? h
  rw [ofName?_name, ofName?_name] at hname
  exact Option.some.inj hname

/-- What is behind the last `$` says which condition a name is of. -/
theorem takeWhile_name (name : String) (condition : FilterCondition) :
    (name ++ condition.name).toList.reverse.takeWhile (fun c => c ≠ '$') =
      condition.name.toList.tail.reverse := by
  rw [String.toList_append, List.reverse_append, List.takeWhile_append]
  cases condition <;> rfl

/-- A name of a condition says which condition and field it is of. -/
theorem condition_injective {name name' : String} {condition condition' : FilterCondition}
    (h : name ++ condition.name = name' ++ condition'.name) :
    name = name' ∧ condition = condition' := by
  have htail := congrArg (fun s : String => s.toList.reverse.takeWhile fun c => c ≠ '$') h
  simp only [takeWhile_name, List.reverse_inj] at htail
  have hname : condition.name = condition'.name := by
    revert htail
    cases condition <;> cases condition' <;> decide
  rw [hname, String.append_left_inj] at h
  exact ⟨h, name_injective hname⟩

end Stems

section Indexes

theorem takeWhile_index (stem : String) (j : ℕ) :
    ((stem ++ "_" ++ toString j).toList.reverse.takeWhile fun c => c.isDigit) =
      (toString j).toList.reverse := by
  have hdigits : ∀ c ∈ (toString j).toList.reverse, c.isDigit = true := by
    intro c hc
    have hlist : (toString j).toList = Nat.toDigits 10 j := Nat.toList_repr
    rw [List.mem_reverse, hlist] at hc
    exact Nat.isDigit_of_mem_toDigits (by decide) (by decide) hc
  have hsplit : (stem ++ "_" ++ toString j).toList.reverse =
      (toString j).toList.reverse ++ '_' :: stem.toList.reverse := by
    simp [String.toList_append]
  rw [hsplit, List.takeWhile_append_of_pos hdigits]
  simp

theorem index_injective {stem stem' : String} {j j' : ℕ}
    (h : stem ++ "_" ++ toString j = stem' ++ "_" ++ toString j') : stem = stem' ∧ j = j' := by
  have htake := congrArg (fun s : String => s.toList.reverse.takeWhile fun c => c.isDigit) h
  simp only [takeWhile_index, List.reverse_inj] at htake
  have hindex : toString j = toString j' := String.toList_injective htake
  have hj : j = j' := Nat.repr_injective hindex
  rw [hindex, String.append_left_inj, String.append_left_inj] at h
  exact ⟨h, hj⟩

/-- A name of a condition does not end like an item. -/
theorem name_ne_index {name stem : String} {condition : FilterCondition} {j : ℕ} :
    name ++ "_" ++ condition.name ≠ stem ++ "_" ++ toString j := by
  intro h
  have hdigit := getLast?_indexed stem j
  rw [← h, String.toList_append] at hdigit
  have hlast : ∀ condition : FilterCondition, ∃ rest c, condition.name.toList = rest ++ [c] ∧
      c.isDigit = false := by
    intro condition
    cases condition <;> exact ⟨_, _, List.dropLast_append_getLast (by decide) |>.symm, by decide⟩
  obtain ⟨rest, c, hname, hc⟩ := hlast condition
  rw [hname, ← List.append_assoc, List.getLast?_concat] at hdigit
  simp [hc] at hdigit

theorem mem_indexed {field : FilterField} {entry : String × Js.Val} (h : entry ∈ field.indexed) :
    (entry.1 = "" ∧ field.val.isArray = false) ∨
      ∃ items, ∃ j < items.length, field.val = .arr items ∧ entry.1 = "_" ++ toString j := by
  unfold indexed at h
  split at h
  · rename_i items hitems
    obtain ⟨⟨item, j⟩, hmem, rfl⟩ := List.mem_map.mp h
    exact .inr ⟨items, j, by have hlt := (List.mem_zipIdx hmem).2.1; omega, hitems, rfl⟩
  · rename_i hval
    rw [List.mem_singleton.mp h]
    refine .inl ⟨rfl, ?_⟩
    cases hcase : field.val with
    | arr items => exact absurd hcase (hval items)
    | _ => rfl

end Indexes

section Nodup

variable {fields : List FilterField}

theorem nodup_map_indexed (field : FilterField) : (field.indexed.map Prod.fst).Nodup := by
  unfold indexed
  split
  · rename_i items _
    have hmap : (items.zipIdx.map fun (item, j) => ("_" ++ toString j, item)).map Prod.fst =
        (List.range' 0 items.length).map fun j : ℕ => "_" ++ toString j := by
      rw [← List.zipIdx_map_snd 0 items, List.map_map, List.map_map]
      rfl
    rw [hmap]
    apply List.Nodup.map _ List.nodup_range'
    intro j j' h
    rw [String.append_right_inj] at h
    exact Nat.repr_injective h
  · simp

/-- Placeholders with one index belong to one field if their stems are the same. -/
theorem DistinctNames.same_stem (h : DistinctNames fields) {field field' : FilterField}
    (hfield : field ∈ fields) (hfield' : field' ∈ fields) {entry entry' : String × Js.Val}
    (hentry : entry ∈ field.indexed) (hentry' : entry' ∈ field'.indexed)
    (hindex : entry.1 = entry'.1) (hstem : field.stem = field'.stem) :
    field.condition = field'.condition ∧ field.name = field'.name := by
  have hplain : ∀ {field : FilterField}, field.condition = none → field.stem = field.name := by
    intro field hcondition
    rw [stem, hcondition]
  cases hcondition : field.condition with
  | none =>
    rw [hplain hcondition] at hstem
    cases hcondition' : field'.condition with
    | none =>
      rw [hplain hcondition'] at hstem
      exact ⟨rfl, hstem⟩
    | some condition' =>
      have hne : field'.condition ≠ none := by simp [hcondition']
      exact absurd hstem
        (h.condition field hfield field' hfield' hcondition hne entry hentry entry' hentry' hindex)
  | some condition =>
    cases hcondition' : field'.condition with
    | none =>
      rw [hplain hcondition'] at hstem
      have hne : field.condition ≠ none := by simp [hcondition]
      exact absurd hstem.symm
        (h.condition field' hfield' field hfield hcondition' hne entry' hentry' entry hentry
          hindex.symm)
    | some condition' =>
      simp only [stem, hcondition, hcondition'] at hstem
      obtain ⟨hnames, hsame⟩ := condition_injective hstem
      rw [String.append_left_inj] at hnames
      exact ⟨by rw [hsame], hnames⟩

/-- A placeholder without an index is none of an item. -/
theorem DistinctNames.stem_ne_item (h : DistinctNames fields) {field field' : FilterField}
    (hfield : field ∈ fields) (hfield' : field' ∈ fields) (hval : field.val.isArray = false)
    {items : List Js.Val} (hitems : field'.val = .arr items) {j : ℕ} (hj : j < items.length) :
    field.stem ≠ field'.stem ++ "_" ++ toString j := by
  intro heq
  cases hcondition : field.condition with
  | some condition =>
    rw [stem, hcondition] at heq
    exact name_ne_index heq
  | none =>
    have hstem : field.stem = field.name := by rw [stem, hcondition]
    rw [hstem] at heq
    exact h.item field hfield field' hfield' hcondition hval items hitems j hj heq

/-- A name of a placeholder belongs to one field. -/
theorem DistinctNames.same_field (h : DistinctNames fields) {field field' : FilterField}
    (hfield : field ∈ fields) (hfield' : field' ∈ fields) {entry entry' : String × Js.Val}
    (hentry : entry ∈ field.indexed) (hentry' : entry' ∈ field'.indexed)
    (hname : field.stem ++ entry.1 = field'.stem ++ entry'.1) :
    field.condition = field'.condition ∧ field.name = field'.name := by
  rcases mem_indexed hentry with ⟨hempty, hval⟩ | ⟨items, j, hj, hitems, hindex⟩
  · rcases mem_indexed hentry' with ⟨hempty', _⟩ | ⟨items', j', hj', hitems', hindex'⟩
    · apply h.same_stem hfield hfield' hentry hentry' (by rw [hempty, hempty'])
      rwa [hempty, hempty', String.append_empty, String.append_empty] at hname
    · rw [hempty, hindex', String.append_empty, ← String.append_assoc] at hname
      exact absurd hname (h.stem_ne_item hfield hfield' hval hitems' hj')
  · rcases mem_indexed hentry' with ⟨hempty', hval'⟩ | ⟨items', j', hj', hitems', hindex'⟩
    · rw [hempty', hindex, String.append_empty, ← String.append_assoc] at hname
      exact absurd hname.symm (h.stem_ne_item hfield' hfield hval' hitems hj)
    · have hnames := hname
      rw [hindex, hindex', ← String.append_assoc, ← String.append_assoc] at hnames
      obtain ⟨hstem, hsame⟩ := index_injective hnames
      apply h.same_stem hfield hfield' hentry hentry' (by rw [hindex, hindex', hsame]) hstem

theorem map_fst_assignments (texts : JsTexts) (opts : WhereOpts) (field : FilterField) :
    (field.assignments texts opts).map Prod.fst =
      (field.indexed.map Prod.fst).map fun index => aliasPrefix opts ++ field.stem ++ index := by
  rw [assignments, List.map_map, List.map_map]
  rfl

/-- No two placeholders of the fields have the same name. -/
theorem DistinctNames.nodup (h : DistinctNames fields)
    (hdistinct : fields.Pairwise fun field field' =>
      ¬ (field.condition = field'.condition ∧ field.name = field'.name))
    (texts : JsTexts) (opts : WhereOpts) :
    ((fields.flatMap (assignments texts opts)).map Prod.fst).Nodup := by
  rw [List.map_flatMap, List.nodup_flatMap]
  constructor
  · intro field _
    rw [map_fst_assignments]
    apply (nodup_map_indexed field).map
    intro index index' hindex
    rwa [String.append_right_inj] at hindex
  · apply hdistinct.imp_of_mem
    intro field field' hfield hfield' hne name hname hname'
    simp only [map_fst_assignments, List.map_map, List.mem_map] at hname hname'
    obtain ⟨entry, hentry, rfl⟩ := hname
    obtain ⟨entry', hentry', heq⟩ := hname'
    simp only [Function.comp_apply] at heq
    rw [String.append_assoc, String.append_assoc, String.append_right_inj] at heq
    exact hne (h.same_field hfield hfield' hentry hentry' heq.symm)

end Nodup

end FilterField

end ReportsFramework
