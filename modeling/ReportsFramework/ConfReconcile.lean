/-
An edit of the configurations as a whole: whatever was stored, what is stored after it are the
first requested ones, each once, and the rows of other users and names are as before.
-/
import ReportsFramework.PublicCollsConf

namespace ReportsFramework

open Occurrence

namespace PublicCollsConfAccessors

/-! ### The rows after an edit -/

section Rows

variable {confName : ConfName} {user_id : ℤ}

theorem mem_storedConf {table : ConfTable} {e : ℕ × ConfRow} :
    e ∈ storedConf confName user_id table ↔
      e ∈ table.rows ∧ e.2.confName = confName ∧ e.2.user_id = user_id := by
  simp [storedConf, isOf]

/-- Rows that the unique index holds for the same are of one user and name, and one
configuration. -/
theorem eq_of_conflicts {row row' : ConfRow} (hconf : Sql.Conflicts ConfRow.index row row') :
    row.confName = row'.confName ∧ row.user_id = row'.user_id ∧ row.confKey = row'.confKey := by
  obtain ⟨hsome, heq⟩ := hconf
  obtain ⟨index, hindex⟩ := Option.isSome_iff_exists.mp hsome
  rw [hindex] at heq
  obtain ⟨timeframe, htimeframe, rfl⟩ := Option.map_eq_some_iff.mp hindex
  obtain ⟨timeframe', htimeframe', hkey⟩ := Option.map_eq_some_iff.mp heq.symm
  simp only [Prod.mk.injEq] at hkey
  obtain ⟨hsymbol, huser, hname, rfl⟩ := hkey
  refine ⟨hname.symm, huser.symm, ?_⟩
  simp only [ConfRow.confKey, hsymbol, htimeframe, htimeframe']

/-- The unique index refuses none of the inserted rows: what it has is stored. -/
theorem not_conflicts_newData {table : ConfTable} {data : List Conf} {e : ℕ × ConfRow}
    (he : e ∈ table.rows) {row : ConfRow}
    (hrow : row ∈ newData confName user_id (storedConf confName user_id table) data) :
    ¬ Sql.Conflicts ConfRow.index e.2 row := by
  obtain ⟨c, hnew, _, rfl⟩ := (mem_newData confName _ data).mp hrow
  intro hconf
  obtain ⟨hname, huser, hkey⟩ := eq_of_conflicts hconf
  refine hnew ⟨e, mem_storedConf.mpr ⟨he, hname, huser⟩, ?_⟩
  rw [← rowId_newRow user_id, rowId, rowId, hkey]

theorem pairwise_not_conflicts_newData (confName : ConfName) (user_id : ℤ) (table : ConfTable)
    (data : List Conf) :
    (newData confName user_id (storedConf confName user_id table) data).Pairwise
      fun row row' => ¬ Sql.Conflicts ConfRow.index row row' := by
  refine (pairwise_newData confName (storedConf confName user_id table) data user_id).imp ?_
  intro row row' hne hconf
  obtain ⟨_, _, hkey⟩ := eq_of_conflicts hconf
  exact hne (congrArg (confId confName) hkey)

theorem mem_removedIds {table : ConfTable} (data : List Conf) {e : ℕ × ConfRow}
    (he : e ∈ table.rows) (hof : isOf confName user_id e.2 = true) :
    e.1 ∈ removedIds confName (storedConf confName user_id table) data ↔
      ¬ IsRequested confName data (rowId confName e.2) := by
  have hids : (table.rows.map Prod.fst).Nodup :=
    List.pairwise_map.mpr (table.ascending.imp fun h => h.ne)
  rw [removedIds_eq, List.mem_map]
  constructor
  · rintro ⟨e', he', hid⟩
    obtain ⟨hstored, hnot⟩ := List.mem_filter.mp he'
    obtain rfl := List.inj_on_of_nodup_map hids (mem_storedConf.mp hstored).1 he hid
    exact of_decide_eq_true hnot
  · intro hnot
    refine ⟨e, List.mem_filter.mpr ⟨List.mem_filter.mpr ⟨he, hof⟩, ?_⟩, rfl⟩
    exact decide_eq_true hnot

/-- Whether the edit leaves a row in. -/
def isKept (confName : ConfName) (user_id : ℤ) (data : List Conf) (row : ConfRow) : Bool :=
  !(isOf confName user_id row && decide (¬ IsRequested confName data (rowId confName row)))

/-- The rows after an edit of valid parameters: those that are kept and the new ones, updated. -/
theorem editPublicCollsConf_rows (user_id : ℤ) (table : ConfTable) (params : Params confName) :
    ∃ edited added, editPublicCollsConf confName user_id table params.1 = (edited, .ok ()) ∧
      added.map Prod.snd =
        newData confName user_id (storedConf confName user_id table) params.1 ∧
      edited.rows = (table.rows.filter (fun e => isKept confName user_id params.1 e.2) ++
        added).map fun e => (e.1, (updatedData confName (storedConf confName user_id table)
          params.1).foldl (updateRow confName user_id) e.2) := by
  obtain ⟨data, hvalid⟩ := params
  have hupdatedValid : ∀ c ∈ updatedData confName (storedConf confName user_id table) data,
      c.timeframe.isSome = isCandlesConfs confName := by
    intro c hc
    exact hvalid c ((mem_updatedData confName _ data).mp hc).2.mem
  obtain ⟨inserted, added, hinsert, hrows, hadded, hids⟩ := table.insertAll?_spec
    (fun e he row hrow => not_conflicts_newData he hrow)
    (pairwise_not_conflicts_newData confName user_id table data)
  obtain ⟨edited, hedited, heditedRows⟩ := updateElemsInCollBy_spec confName user_id
    (inserted.deleteWhere fun e => isOf confName user_id e.2 &&
      (removedIds confName (storedConf confName user_id table) data).contains e.1) hupdatedValid
  refine ⟨edited, added, ?_, hadded, ?_⟩
  · unfold editPublicCollsConf
    simp only [hinsert, hedited]
  · rw [heditedRows, Sql.Table.rows_deleteWhere, hrows, List.filter_append]
    congr 2
    · apply List.filter_congr
      intro e he
      cases hof : isOf confName user_id e.2 with
      | false => simp [isKept, hof]
      | true =>
          have hremoved := mem_removedIds data he hof
          simp only [isKept, hof, Bool.true_and]
          rw [Bool.not_inj_iff, Bool.eq_iff_iff, List.contains_iff_mem, hremoved,
            decide_eq_true_eq]
    · apply List.filter_eq_self.mpr
      intro e he
      -- the ids of the new rows are none of those that were stored
      have hnot : e.1 ∉ removedIds confName (storedConf confName user_id table) data := by
        intro hremoved
        rw [removedIds_eq] at hremoved
        obtain ⟨e', he', hid⟩ := List.mem_map.mp hremoved
        have hold := table.bounded e' (mem_storedConf.mp (List.mem_filter.mp he').1).1
        have hnew := hids e he
        omega
      simp [hnot]

theorem isOf_setStart (start : ℤ) (row : ConfRow) :
    isOf confName user_id (setStart start row) = isOf confName user_id row := rfl

theorem isOf_foldl_updateRow (data : List Conf) (row : ConfRow) :
    isOf confName user_id (data.foldl (updateRow confName user_id) row) =
      isOf confName user_id row := by
  obtain ⟨start, hstart⟩ := exists_foldl_updateRow confName user_id data row
  rw [hstart, isOf_setStart]

/-- The rows of other users and names, with their ids. -/
def otherRows (confName : ConfName) (user_id : ℤ) (table : ConfTable) : List (ℕ × ConfRow) :=
  table.rows.filter fun e => !isOf confName user_id e.2

/-- No configuration is stored twice. -/
def UniqueConfs (table : ConfTable) : Prop :=
  table.rows.Pairwise fun e e' =>
    (e.2.confName, e.2.user_id, rowId e.2.confName e.2) ≠
      (e'.2.confName, e'.2.user_id, rowId e'.2.confName e'.2)

/-- The configurations of the user and the name are the first requested ones, each once, and the
other rows are as before. -/
structure Reconciled (confName : ConfName) (user_id : ℤ) (data : List Conf)
    (before after : ConfTable) : Prop where
  stored : ∀ c, c ∈ getPublicCollsConf confName user_id [] none after ↔
    ∃ d, IsFirst (dataId confName) data d ∧ pickConf confName d.symbol d.start d.timeframe = c
  once : UniqueConfs before → UniqueConfs after
  others : otherRows confName user_id after = otherRows confName user_id before

theorem rowId_eq_iff {row : ConfRow} {c : Conf} :
    rowId confName row = dataId confName c ↔
      row.symbol = c.symbol ∧ (isCandlesConfs confName = true → row.timeframe = c.timeframe) := by
  rw [rowId, dataId, confId_eq_iff]
  simp [ConfRow.confKey, Conf.confKey]

theorem pickConf_eq {row : ConfRow} {c : Conf} (hid : rowId confName row = dataId confName c)
    (start : ℤ) :
    pickConf confName row.symbol start row.timeframe =
      pickConf confName c.symbol start c.timeframe := by
  obtain ⟨hsymbol, htimeframe⟩ := rowId_eq_iff.mp hid
  unfold pickConf
  rw [hsymbol]
  cases hcandles : isCandlesConfs confName with
  | true => rw [htimeframe hcandles]
  | false => rfl

/-- A row that stays and is requested has the start of the first request for it. -/
theorem foldl_updatedData {table : ConfTable} {data : List Conf} {e : ℕ × ConfRow}
    (he : e ∈ table.rows) (hof : isOf confName user_id e.2 = true) {c : Conf}
    (hfirst : IsFirst (dataId confName) data c) (hid : rowId confName e.2 = dataId confName c) :
    (updatedData confName (storedConf confName user_id table) data).foldl
      (updateRow confName user_id) e.2 = setStart c.start e.2 := by
  have hstored : IsStored confName (storedConf confName user_id table) (dataId confName c) :=
    ⟨e, List.mem_filter.mpr ⟨he, hof⟩, hid⟩
  refine foldl_updateRow_of_mem hof ((mem_updatedData confName _ data).mpr ⟨hstored, hfirst⟩)
    hid ?_
  intro c' hc' hid'
  exact ((mem_updatedData confName _ data).mp hc').2.eq hfirst (hid'.symm.trans hid)

/-- A new row is not updated. -/
theorem foldl_updatedData_newRow {conf : List (ℕ × ConfRow)} {data : List Conf} {c : Conf}
    (hnew : ¬ IsStored confName conf (dataId confName c)) :
    (updatedData confName conf data).foldl (updateRow confName user_id)
      (newRow confName user_id c) = newRow confName user_id c := by
  apply foldl_updateRow_of_start
  intro _ c' hc' hid
  rw [rowId_newRow] at hid
  rw [hid] at hnew
  exact absurd ((mem_updatedData confName conf data).mp hc').1 hnew

/-! ### The edit as a whole -/

section Whole

variable {table edited : ConfTable} {data : List Conf} {added : List (ℕ × ConfRow)}
  (hadded : added.map Prod.snd =
    newData confName user_id (storedConf confName user_id table) data)
  (hrows : edited.rows = (table.rows.filter (fun e => isKept confName user_id data e.2) ++
    added).map fun e => (e.1, (updatedData confName (storedConf confName user_id table)
      data).foldl (updateRow confName user_id) e.2))

include hadded in
theorem exists_of_mem_added {e : ℕ × ConfRow} (he : e ∈ added) :
    ∃ c, ¬ IsStored confName (storedConf confName user_id table) (dataId confName c) ∧
      IsFirst (dataId confName) data c ∧ newRow confName user_id c = e.2 := by
  apply (mem_newData confName (storedConf confName user_id table) data).mp
  rw [← hadded]
  exact List.mem_map_of_mem he

include hadded hrows in
theorem stored_after {c : Conf} :
    c ∈ getPublicCollsConf confName user_id [] none edited ↔
      ∃ d, IsFirst (dataId confName) data d ∧
        pickConf confName d.symbol d.start d.timeframe = c := by
  rw [mem_getPublicCollsConf, hrows]
  constructor
  · rintro ⟨e, he, hof, -, -, rfl⟩
    obtain ⟨e', he', rfl⟩ := List.mem_map.mp he
    rw [isOf_foldl_updateRow] at hof
    rcases List.mem_append.mp he' with hold | hnew
    · obtain ⟨hmem, hkept⟩ := List.mem_filter.mp hold
      have hrequested : IsRequested confName data (rowId confName e'.2) := by
        simpa [isKept, hof] using hkept
      obtain ⟨d, hd, hid⟩ := hrequested
      obtain ⟨c, hfirst, hc⟩ := exists_isFirst (dataId confName) hd
      have hrow : rowId confName e'.2 = dataId confName c := (hc.trans hid).symm
      refine ⟨c, hfirst, ?_⟩
      rw [foldl_updatedData hmem hof hfirst hrow]
      exact (pickConf_eq hrow c.start).symm
    · obtain ⟨c, hunstored, hfirst, hrow⟩ := exists_of_mem_added hadded hnew
      refine ⟨c, hfirst, ?_⟩
      rw [← hrow, foldl_updatedData_newRow hunstored]
      exact (pickConf_eq (rowId_newRow user_id c) c.start).symm
  · rintro ⟨d, hfirst, rfl⟩
    by_cases hstored : IsStored confName (storedConf confName user_id table) (dataId confName d)
    · obtain ⟨e, he, hid⟩ := hstored
      obtain ⟨hmem, hof⟩ := List.mem_filter.mp he
      have hkept : isKept confName user_id data e.2 = true := by
        have hrequested : IsRequested confName data (rowId confName e.2) :=
          ⟨d, hfirst.mem, hid.symm⟩
        simp [isKept, hrequested]
      refine ⟨_, List.mem_map_of_mem
        (List.mem_append_left _ (List.mem_filter.mpr ⟨hmem, hkept⟩)), ?_, .inl rfl, by simp, ?_⟩
      · rw [isOf_foldl_updateRow]
        exact hof
      · rw [foldl_updatedData hmem hof hfirst hid]
        exact pickConf_eq hid d.start
    · have hnew : newRow confName user_id d ∈ added.map Prod.snd := by
        rw [hadded]
        exact (mem_newData confName _ data).mpr ⟨d, hstored, hfirst, rfl⟩
      obtain ⟨e, he, hrow⟩ := List.mem_map.mp hnew
      refine ⟨_, List.mem_map_of_mem (List.mem_append_right _ he), ?_, .inl rfl, by simp, ?_⟩
      · rw [isOf_foldl_updateRow, hrow]
        simp [isOf, newRow]
      · rw [hrow, foldl_updatedData_newRow hstored]
        exact pickConf_eq (rowId_newRow user_id d) d.start

include hadded hrows in
theorem unique_after (hunique : UniqueConfs table) : UniqueConfs edited := by
  unfold UniqueConfs
  rw [hrows, List.pairwise_map]
  have hkey (row : ConfRow) :
      let updated := (updatedData confName (storedConf confName user_id table) data).foldl
        (updateRow confName user_id) row
      (updated.confName, updated.user_id, rowId updated.confName updated) =
        (row.confName, row.user_id, rowId row.confName row) := by
    obtain ⟨start, hstart⟩ := exists_foldl_updateRow confName user_id
      (updatedData confName (storedConf confName user_id table) data) row
    intro updated
    have hupdated : updated = setStart start row := hstart
    rw [hupdated]
    rfl
  simp only [hkey]
  apply List.pairwise_append.mpr
  refine ⟨hunique.filter _, ?_, ?_⟩
  · have hpairwise := pairwise_newData confName (storedConf confName user_id table) data
      user_id
    rw [← hadded, List.pairwise_map] at hpairwise
    refine hpairwise.imp_of_mem ?_
    intro e e' he he' hne hsame
    obtain ⟨c, _, _, hrow⟩ := exists_of_mem_added hadded he
    obtain ⟨c', _, _, hrow'⟩ := exists_of_mem_added hadded he'
    have hname : e.2.confName = confName := by rw [← hrow]; rfl
    have hname' : e'.2.confName = confName := by rw [← hrow']; rfl
    simp only [Prod.mk.injEq, hname, hname'] at hsame
    exact hne hsame.2.2
  · intro e he e' he' hsame
    obtain ⟨c, hunstored, _, hrow⟩ := exists_of_mem_added hadded he'
    simp only [← hrow, Prod.mk.injEq] at hsame
    obtain ⟨hname, huser, hid⟩ := hsame
    refine hunstored ⟨e, mem_storedConf.mpr ⟨(List.mem_filter.mp he).1, hname, huser⟩, ?_⟩
    rw [hname] at hid
    exact hid.trans (rowId_newRow user_id c)

include hadded hrows in
theorem others_after :
    otherRows confName user_id edited = otherRows confName user_id table := by
  have hnone : added.filter (fun e => !isOf confName user_id e.2) = [] := by
    apply List.filter_eq_nil_iff.mpr
    intro e he
    obtain ⟨c, _, _, hrow⟩ := exists_of_mem_added hadded he
    rw [← hrow]
    simp [isOf, newRow]
  unfold otherRows
  rw [hrows, List.filter_map]
  have hof : ((fun e : ℕ × ConfRow => !isOf confName user_id e.2) ∘ fun e : ℕ × ConfRow =>
      (e.1, (updatedData confName (storedConf confName user_id table) data).foldl
        (updateRow confName user_id) e.2)) = fun e => !isOf confName user_id e.2 := by
    funext e
    simp only [Function.comp_apply, isOf_foldl_updateRow]
  rw [hof, List.filter_append, hnone, List.append_nil, List.filter_filter]
  have hkept : table.rows.filter (fun e =>
      !isOf confName user_id e.2 && isKept confName user_id data e.2) =
      table.rows.filter fun e => !isOf confName user_id e.2 := by
    apply List.filter_congr
    intro e _
    cases hcase : isOf confName user_id e.2 <;> simp [isKept, hcase]
  rw [hkept]
  refine (List.map_congr_left ?_).trans (List.map_id _)
  intro e he
  have hother : isOf confName user_id e.2 = false := by
    simpa using (List.mem_filter.mp he).2
  rw [foldl_updateRow_of_start (by simp [hother])]
  rfl

end Whole

/-- The table after the edits, one after the other. -/
def editAll (table : ConfTable) (edits : List (Σ confName, ℤ × Params confName)) : ConfTable :=
  edits.foldl (fun table edit => (editPublicCollsConf edit.1 edit.2.1 table edit.2.2.1).1) table

/-- No run of edits stores a configuration twice, though the index allows it where there is no time
frame. -/
theorem uniqueConfs_editAll {table : ConfTable} (hunique : UniqueConfs table)
    (edits : List (Σ confName, ℤ × Params confName)) : UniqueConfs (editAll table edits) := by
  induction edits generalizing table with
  | nil => exact hunique
  | cons edit edits ih =>
      obtain ⟨edited, added, hedit, hadded, hrows⟩ :=
        editPublicCollsConf_rows edit.2.1 table edit.2.2
      have hstep : editAll table (edit :: edits) = editAll edited edits := by
        unfold editAll
        rw [List.foldl_cons, hedit]
      rw [hstep]
      exact ih (unique_after hadded hrows hunique)

/-- After an edit exactly the requested configurations are stored, the first one for each symbol
and time frame, and nothing else has changed. -/
theorem editPublicCollsConf_reconciles (confName : ConfName) (user_id : ℤ) (table : ConfTable)
    (params : Params confName) :
    ∃ edited, editPublicCollsConf confName user_id table params.1 = (edited, .ok ()) ∧
      Reconciled confName user_id params.1 table edited := by
  obtain ⟨edited, added, hedit, hadded, hrows⟩ :=
    editPublicCollsConf_rows user_id table params
  exact ⟨edited, hedit, fun _ => stored_after hadded hrows, unique_after hadded hrows,
    others_after hadded hrows⟩

end Rows

end PublicCollsConfAccessors

end ReportsFramework
