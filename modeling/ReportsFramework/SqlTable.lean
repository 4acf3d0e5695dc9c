/-
Tables with an ascending row id and a unique index, as `INSERT`, `INSERT OR REPLACE`,
`DELETE` and `UPDATE` change them.  What a table holds is the list of its rows without the ids.
-/
import Mathlib.Data.List.Basic
import Mathlib.Order.Nat

namespace Sql

variable {ρ κ : Type*}

/-- Two rows conflict if the unique index has the same key for both.  A row whose
index holds a NULL has no key, and conflicts with none. -/
def Conflicts (key : ρ → Option κ) (r r' : ρ) : Prop :=
  (key r).isSome ∧ key r = key r'

instance [DecidableEq κ] (key : ρ → Option κ) (r r' : ρ) : Decidable (Conflicts key r r') :=
  inferInstanceAs (Decidable ((key r).isSome ∧ key r = key r'))

structure Table (key : ρ → Option κ) where
  rows : List (ℕ × ρ)
  /-- The greatest id that was ever given. -/
  lastId : ℕ
  ascending : rows.Pairwise fun e e' => e.1 < e'.1
  bounded : ∀ e ∈ rows, e.1 ≤ lastId
  unique : rows.Pairwise fun e e' => ¬ Conflicts key e.2 e'.2

namespace Table

variable {key : ρ → Option κ}

def contents (t : Table key) : List ρ :=
  t.rows.map Prod.snd

def empty : Table key := ⟨[], 0, .nil, by simp, .nil⟩

/-- `DELETE FROM t`. -/
def deleteAll (t : Table key) : Table key :=
  ⟨[], t.lastId, .nil, by simp, .nil⟩

@[simp] theorem contents_deleteAll (t : Table key) : t.deleteAll.contents = [] := rfl

@[simp] theorem contents_empty : (empty : Table key).contents = [] := rfl

theorem pairwise_contents (t : Table key) :
    t.contents.Pairwise fun r r' => ¬ Conflicts key r r' :=
  List.pairwise_map.mpr t.unique

variable [DecidableEq κ]

/-- `INSERT OR REPLACE INTO t`. -/
def insertOrReplace (t : Table key) (r : ρ) : Table key where
  rows := t.rows.filter (fun e => ¬ Conflicts key e.2 r) ++ [(t.lastId + 1, r)]
  lastId := t.lastId + 1
  ascending := by
    apply List.pairwise_append.mpr
    refine ⟨t.ascending.filter _, List.pairwise_singleton _ _, ?_⟩
    intro e he e' he'
    obtain rfl := List.mem_singleton.mp he'
    exact Nat.lt_succ_of_le (t.bounded e (List.mem_filter.mp he).1)
  bounded := by
    intro e he
    rcases List.mem_append.mp he with hold | hnew
    · exact (t.bounded e (List.mem_filter.mp hold).1).trans (Nat.le_succ _)
    · obtain rfl := List.mem_singleton.mp hnew
      exact le_rfl
  unique := by
    apply List.pairwise_append.mpr
    refine ⟨t.unique.filter _, List.pairwise_singleton _ _, ?_⟩
    intro e he e' he'
    obtain rfl := List.mem_singleton.mp he'
    exact of_decide_eq_true (List.mem_filter.mp he).2

/-- The rows are inserted one after the other. -/
def insertAll (t : Table key) (rows : List ρ) : Table key :=
  rows.foldl insertOrReplace t

/-- The rows that no later row replaces. -/
def latest (key : ρ → Option κ) : List ρ → List ρ
  | [] => []
  | r :: rest => if ∃ r' ∈ rest, Conflicts key r r' then latest key rest
      else r :: latest key rest

theorem contents_insertOrReplace (t : Table key) (r : ρ) :
    (t.insertOrReplace r).contents =
      t.contents.filter (fun r' => ¬ Conflicts key r' r) ++ [r] := by
  unfold contents insertOrReplace
  rw [List.map_append, List.filter_map]
  rfl

/-- What was there stays unless one of the rows replaces it. -/
theorem contents_insertAll (t : Table key) (rows : List ρ) :
    (t.insertAll rows).contents =
      t.contents.filter (fun r => ∀ r' ∈ rows, ¬ Conflicts key r r') ++ latest key rows := by
  induction rows generalizing t with
  | nil => simp [insertAll, latest]
  | cons r rest ih =>
      have hstep : (t.insertAll (r :: rest)).contents =
          ((t.insertOrReplace r).insertAll rest).contents := rfl
      rw [hstep, ih, contents_insertOrReplace, List.filter_append, List.filter_filter,
        List.append_assoc]
      congr 1
      · apply List.filter_congr
        intro r' _
        simp [Bool.and_comm]
      · by_cases hr : ∃ r' ∈ rest, Conflicts key r r'
        · rw [latest, if_pos hr, List.filter_cons_of_neg (by simpa using hr)]
          rfl
        · rw [latest, if_neg hr, List.filter_cons_of_pos (by simpa using hr)]
          rfl

theorem mem_of_mem_latest {r : ρ} {rows : List ρ} (h : r ∈ latest key rows) : r ∈ rows := by
  induction rows with
  | nil => exact h
  | cons r' rest ih =>
      rw [latest] at h
      split_ifs at h with hr
      · exact .tail _ (ih h)
      · rcases List.mem_cons.mp h with rfl | hrest
        · exact .head _
        · exact .tail _ (ih hrest)

/-- A row that is replaced is replaced by one that is not. -/
theorem exists_latest (key : ρ → Option κ) {r : ρ} {rows : List ρ} (h : r ∈ rows) :
    r ∈ latest key rows ∨ ∃ r' ∈ latest key rows, Conflicts key r r' := by
  induction rows generalizing r with
  | nil => simp at h
  | cons r' rest ih =>
      by_cases hr : ∃ later ∈ rest, Conflicts key r' later
      · rw [latest, if_pos hr]
        rcases List.mem_cons.mp h with rfl | hrest
        · obtain ⟨later, hlater, hsome, heq⟩ := hr
          rcases ih hlater with hkept | ⟨last, hlast, _, hkey⟩
          · exact .inr ⟨later, hkept, hsome, heq⟩
          · exact .inr ⟨last, hlast, hsome, heq.trans hkey⟩
        · exact ih hrest
      · rw [latest, if_neg hr]
        rcases List.mem_cons.mp h with rfl | hrest
        · exact .inl (.head _)
        · rcases ih hrest with hkept | ⟨last, hlast, hconf⟩
          · exact .inl (.tail _ hkept)
          · exact .inr ⟨last, .tail _ hlast, hconf⟩

theorem latest_eq_self {rows : List ρ}
    (h : rows.Pairwise fun r r' => ¬ Conflicts key r r') : latest key rows = rows := by
  induction rows with
  | nil => rfl
  | cons r rest ih =>
      obtain ⟨hr, hrest⟩ := List.pairwise_cons.mp h
      have hno : ¬ ∃ r' ∈ rest, Conflicts key r r' := by
        rintro ⟨r', hmem, hconf⟩
        exact hr r' hmem hconf
      rw [latest, if_neg hno, ih hrest]

theorem latest_append (rows rows' : List ρ) :
    latest key (rows ++ rows') =
      (latest key rows).filter (fun r => ∀ r' ∈ rows', ¬ Conflicts key r r') ++
        latest key rows' := by
  induction rows with
  | nil => rfl
  | cons r rest ih =>
      by_cases hrest : ∃ r' ∈ rest, Conflicts key r r'
      · have hall : ∃ r' ∈ rest ++ rows', Conflicts key r r' := by
          obtain ⟨r', hmem, hconf⟩ := hrest
          exact ⟨r', List.mem_append_left _ hmem, hconf⟩
        rw [List.cons_append, latest, if_pos hall, ih, latest, if_pos hrest]
      · by_cases hrows : ∃ r' ∈ rows', Conflicts key r r'
        · have hall : ∃ r' ∈ rest ++ rows', Conflicts key r r' := by
            obtain ⟨r', hmem, hconf⟩ := hrows
            exact ⟨r', List.mem_append_right _ hmem, hconf⟩
          rw [List.cons_append, latest, if_pos hall, ih, latest, if_neg hrest,
            List.filter_cons_of_neg (by simpa using hrows)]
        · have hall : ¬ ∃ r' ∈ rest ++ rows', Conflicts key r r' := by
            rintro ⟨r', hmem, hconf⟩
            rcases List.mem_append.mp hmem with hl | hr
            · exact hrest ⟨r', hl, hconf⟩
            · exact hrows ⟨r', hr, hconf⟩
          rw [List.cons_append, latest, if_neg hall, ih, latest, if_neg hrest,
            List.filter_cons_of_pos (by simpa using hrows), List.cons_append]

/-- More rows add nothing exactly if the later ones replace them all. -/
theorem latest_append_perm {rows rows' : List ρ} :
    (latest key (rows ++ rows')).Perm (latest key rows') ↔
      ∀ r ∈ rows, ∃ r' ∈ rows', Conflicts key r r' := by
  rw [latest_append]
  constructor
  · intro hperm r hr
    have hnil : (latest key rows).filter (fun r => ∀ r' ∈ rows', ¬ Conflicts key r r') = [] := by
      have hlength := hperm.length_eq
      rw [List.length_append] at hlength
      exact List.length_eq_zero_iff.mp (by omega)
    have hcover : ∀ r ∈ latest key rows, ∃ r' ∈ rows', Conflicts key r r' := by
      simpa [List.filter_eq_nil_iff] using hnil
    rcases exists_latest key hr with hkept | ⟨later, hkept, hsome, heq⟩
    · exact hcover r hkept
    · obtain ⟨r', hmem, _, hkey⟩ := hcover later hkept
      exact ⟨r', hmem, hsome, heq.trans hkey⟩
  · intro hcover
    have hnil : (latest key rows).filter (fun r => ∀ r' ∈ rows', ¬ Conflicts key r r') = [] := by
      apply List.filter_eq_nil_iff.mpr
      intro r hr
      simpa using hcover r (mem_of_mem_latest hr)
    rw [hnil, List.nil_append]

/-! ### Rows inserted, deleted and updated one by one -/

/-- `INSERT INTO t`: `none` where the unique index refuses the row. -/
def insert? (t : Table key) (r : ρ) : Option (Table key) :=
  if hfree : ∀ e ∈ t.rows, ¬ Conflicts key e.2 r then
    some
      { rows := t.rows ++ [(t.lastId + 1, r)]
        lastId := t.lastId + 1
        ascending := by
          apply List.pairwise_append.mpr
          refine ⟨t.ascending, List.pairwise_singleton _ _, ?_⟩
          intro e he e' he'
          obtain rfl := List.mem_singleton.mp he'
          exact Nat.lt_succ_of_le (t.bounded e he)
        bounded := by
          intro e he
          rcases List.mem_append.mp he with hold | hnew
          · exact (t.bounded e hold).trans (Nat.le_succ _)
          · obtain rfl := List.mem_singleton.mp hnew
            exact le_rfl
        unique := by
          apply List.pairwise_append.mpr
          refine ⟨t.unique, List.pairwise_singleton _ _, ?_⟩
          intro e he e' he'
          obtain rfl := List.mem_singleton.mp he'
          exact hfree e he }
  else none

/-- The rows are inserted in one transaction. -/
def insertAll? (t : Table key) (rows : List ρ) : Option (Table key) :=
  rows.foldlM insert? t

/-- `DELETE FROM t WHERE p`. -/
def deleteWhere (t : Table key) (p : ℕ × ρ → Bool) : Table key where
  rows := t.rows.filter fun e => !p e
  lastId := t.lastId
  ascending := t.ascending.filter _
  bounded := fun e he => t.bounded e (List.mem_filter.mp he).1
  unique := t.unique.filter _

/-- `UPDATE t SET .. WHERE p` of columns that are not in the unique index. -/
def updateWhere (t : Table key) (p : ρ → Bool) (set : ρ → ρ) (hset : ∀ r, key (set r) = key r) :
    Table key where
  rows := t.rows.map fun e => (e.1, if p e.2 then set e.2 else e.2)
  lastId := t.lastId
  ascending := List.pairwise_map.mpr t.ascending
  bounded := by
    intro e he
    obtain ⟨e', he', rfl⟩ := List.mem_map.mp he
    exact t.bounded e' he'
  unique := by
    have hkey (r : ρ) : key (if p r then set r else r) = key r := by
      split_ifs
      · exact hset r
      · rfl
    apply List.pairwise_map.mpr
    refine t.unique.imp ?_
    intro e e' hfree hconf
    simp only [Conflicts, hkey] at hconf
    exact hfree hconf

omit [DecidableEq κ] in
theorem rows_deleteWhere (t : Table key) (p : ℕ × ρ → Bool) :
    (t.deleteWhere p).rows = t.rows.filter fun e => !p e := rfl

omit [DecidableEq κ] in
theorem rows_updateWhere (t : Table key) (p : ρ → Bool) (set : ρ → ρ)
    (hset : ∀ r, key (set r) = key r) :
    (t.updateWhere p set hset).rows =
      t.rows.map fun e => (e.1, if p e.2 then set e.2 else e.2) := rfl

/-- Rows that conflict neither with what is there nor with each other are all inserted, with new
ids. -/
theorem insertAll?_spec (t : Table key) {rows : List ρ}
    (hfree : ∀ e ∈ t.rows, ∀ r ∈ rows, ¬ Conflicts key e.2 r)
    (hrows : rows.Pairwise fun r r' => ¬ Conflicts key r r') :
    ∃ t' added, t.insertAll? rows = some t' ∧ t'.rows = t.rows ++ added ∧
      added.map Prod.snd = rows ∧ ∀ e ∈ added, t.lastId < e.1 := by
  induction rows generalizing t with
  | nil => exact ⟨t, [], rfl, (List.append_nil _).symm, rfl, by simp⟩
  | cons r rows ih =>
      obtain ⟨hr, hrest⟩ := List.pairwise_cons.mp hrows
      have hinsert : ∃ t₁, t.insert? r = some t₁ ∧ t₁.rows = t.rows ++ [(t.lastId + 1, r)] ∧
          t₁.lastId = t.lastId + 1 := by
        unfold insert?
        rw [dif_pos fun e he => hfree e he r List.mem_cons_self]
        exact ⟨_, rfl, rfl, rfl⟩
      obtain ⟨t₁, ht₁, hrows₁, hid₁⟩ := hinsert
      have hfree₁ : ∀ e ∈ t₁.rows, ∀ r' ∈ rows, ¬ Conflicts key e.2 r' := by
        intro e he r' hr'
        rw [hrows₁] at he
        rcases List.mem_append.mp he with hold | hnew
        · exact hfree e hold r' (List.mem_cons_of_mem r hr')
        · rw [List.mem_singleton.mp hnew]
          exact hr r' hr'
      obtain ⟨t', added, ht', hrows', hadded, hids⟩ := ih t₁ hfree₁ hrest
      refine ⟨t', (t.lastId + 1, r) :: added, ?_, ?_, ?_, ?_⟩
      · rw [insertAll?, List.foldlM_cons, ht₁]
        exact ht'
      · rw [hrows', hrows₁, List.append_assoc]
        rfl
      · rw [List.map_cons, hadded]
      · intro e he
        rcases List.mem_cons.mp he with rfl | he
        · exact Nat.lt_succ_self _
        · have hlt := hids e he
          omega

/-! ### One table into another -/

/-- A table copied into an empty one. -/
theorem contents_insertAll_contents {t t' : Table key} (h : t.contents = []) :
    (t.insertAll t'.contents).contents = t'.contents := by
  rw [contents_insertAll, h, latest_eq_self t'.pairwise_contents]
  rfl

end Table

end Sql
